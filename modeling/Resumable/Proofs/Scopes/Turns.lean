import Resumable.Proofs.Lifecycle.Growth
import Resumable.Proofs.Refinement.Statements

/-!
The turns of a loop whose turns have bindings of their own, where the loop is evaluated whole. Main
statements: `Begun.environments`, `exec_begun`.
-/

set_option autoImplicit false

namespace Resumable

/-- The environments in which the turns of a loop begin, newest first, and the world in which the newest
one does: the head is evaluated in the first, and each turn that goes on leads to a copy. -/
inductive Begun (host : Host) (scope : ScopeId) (labels : List String) (init : ForInit)
    (test update : Option Expr) (body : Stmt) : List ScopeId → World → Prop where
  | first {e : ScopeId} {w w₁ w₂ : World} : scope < w.scopes.all.size →
    Run.edit (Edit.newScope scope) w = .done e w₁ → init.exec host e w₁ = .done () w₂ →
    Begun host scope labels init test update body [e] w₂
  | next {e e' : ScopeId} {es : List ScopeId} {v : Value} {w w₁ w₂ w₃ w₄ : World} :
    Begun host scope labels init test update body (e :: es) w →
    evalTest host e test w = .done true w₁ →
    loopBody labels (body.exec host e []) w₁ = .done true w₂ →
    Run.edit (Edit.copyScope e) w₂ = .done e' w₃ → evalOption host e' update w₃ = .done v w₄ →
    Begun host scope labels init test update body (e' :: e :: es) w₄

section Evaluation

variable {host : Host} {scope : ScopeId} {labels : List String} {init : ForInit}
  {test update : Option Expr} {body : Stmt}

section Environments

variable (hh : host.Grows)

include hh

theorem Begun.environments {es : List ScopeId} {w : World}
    (h : Begun host scope labels init test update body es w) : Lineage scope es w.scopes := by
  have hs := hh.suits
  induction h with
  | first hlt hnew hinit =>
    cases hnew
    have hl := (init.exec_related hs.calls hs.names _ fun _ => hs.suspends).2.done hinit
    exact (Lineage.opened (.alloc hlt)).grown hl.scopes
  | @next e e' es v w w₁ w₂ w₃ w₄ _ ht hb hc hu ih =>
    cases hc
    have hlt := (evalTest_related hs.calls hs.names e test fun _ => hs.suspends).2.done ht
    have hlb := (loopBody_related (R := growing.toEvalRelation) hs.occurs labels
      (body.exec_related hs.calls hs.names hs.occurs e [] fun _ => hs.suspends)).2.done hb
    have hlu := (evalOption_suited hs _ update).2.done hu
    exact (((ih.grown hlt.scopes).grown hlb.scopes).copied).grown hlu.scopes

theorem Begun.copies {e : ScopeId} {es : List ScopeId} {w w₁ w₂ : World}
    (h : Begun host scope labels init test update body (e :: es) w)
    (ht : evalTest host e test w = .done true w₁)
    (hb : loopBody labels (body.exec host e []) w₁ = .done true w₂) :
    w₂.scopes.Copies (w₂.scopes.copy e).2 e (w₂.scopes.copy e).1 := by
  have hs := hh.suits
  have hlt := (evalTest_related hs.calls hs.names e test fun _ => hs.suspends).2.done ht
  have hlb := (loopBody_related (R := growing.toEvalRelation) hs.occurs labels
    (body.exec_related hs.calls hs.names hs.occurs e [] fun _ => hs.suspends)).2.done hb
  exact (((h.environments hh).stands List.mem_cons_self).later
    (hlt.scopes.trans hlb.scopes)).copies

end Environments

/-- The turns of a loop from the next one on, within so many. -/
def evalTurns (host : Host) (labels : List String) (test update : Option Expr) (body : Stmt) :
    Nat → ScopeId → Run Unit :=
  headLoop labels true (evalTest host · test) (evalOption host · update) (body.exec host · [])

theorem copyScope_edit (e : ScopeId) (w : World) : (Run.edit (Edit.copyScope e) : Run ScopeId) w =
    .done (w.scopes.copy e).1 { w with scopes := (w.scopes.copy e).2 } := rfl

theorem evalTurns_succ (n : Nat) {e : ScopeId} {w w₁ w₂ : World}
    (ht : evalTest host e test w = .done true w₁)
    (hb : loopBody labels (body.exec host e []) w₁ = .done true w₂) :
    evalTurns host labels test update body (n + 1) e w =
      (evalOption host (w₂.scopes.copy e).1 update >>= fun _ =>
        evalTurns host labels test update body n (w₂.scopes.copy e).1)
      { w₂ with scopes := (w₂.scopes.copy e).2 } := by
  simp only [evalTurns, headLoop, bind, RunOn.bind, ht, hb, ↓reduceIte]
  rfl

/-- A loop ends in a turn that has begun: no further one begins after it. -/
theorem evalTurns_begun {n : Nat} {e : ScopeId} {es : List ScopeId} {w : World}
    (h : Begun host scope labels init test update body (e :: es) w)
    (hn : evalTurns host labels test update body n e w ≠ .exhausted) :
    ∃ e' es' w', Begun host scope labels init test update body (e' :: es') w' ∧
      evalTurns host labels test update body n e w =
        evalTurns host labels test update body 1 e' w' := by
  induction n generalizing e es w with
  | zero => exact absurd rfl hn
  | succ n ih =>
    have hlast (heq : evalTurns host labels test update body (n + 1) e w =
        evalTurns host labels test update body 1 e w) :
        ∃ e' es' w', Begun host scope labels init test update body (e' :: es') w' ∧
          evalTurns host labels test update body (n + 1) e w =
            evalTurns host labels test update body 1 e' w' := ⟨e, es, w, h, heq⟩
    cases ht : evalTest host e test w with
    | abrupt | exhausted => exact hlast (by simp only [evalTurns, headLoop, bind, RunOn.bind, ht])
    | done holds w₁ =>
      cases holds with
      | false => exact hlast (by simp [evalTurns, headLoop, bind, RunOn.bind, ht])
      | true =>
        cases hb : loopBody labels (body.exec host e []) w₁ with
        | abrupt | exhausted =>
          exact hlast (by simp [evalTurns, headLoop, bind, RunOn.bind, ht, hb])
        | done goesOn w₂ =>
          cases goesOn with
          | false => exact hlast (by simp [evalTurns, headLoop, bind, RunOn.bind, ht, hb])
          | true =>
            cases hu : evalOption host (w₂.scopes.copy e).1 update
                { w₂ with scopes := (w₂.scopes.copy e).2 } with
            | abrupt | exhausted =>
              refine hlast ((evalTurns_succ n ht hb).trans (Eq.trans ?_ (evalTurns_succ 0 ht hb).symm))
              simp only [bind, RunOn.bind, hu]
            | done v w₃ =>
              have hturn : evalTurns host labels test update body (n + 1) e w =
                  evalTurns host labels test update body n (w₂.scopes.copy e).1 w₃ := by
                rw [evalTurns_succ n ht hb]
                simp only [bind, RunOn.bind, hu]
              rw [hturn] at hn ⊢
              exact ih (h.next ht hb (copyScope_edit e w₂) hu) hn

/-- A loop that comes to an end does so in its initializer, or in a turn that has begun. -/
theorem exec_begun {w : World} (hscoped : init.isScoped = true) (hlt : scope < w.scopes.all.size)
    (hne : (Stmt.forLoop init test update body).exec host scope labels w ≠ .exhausted) :
    (∃ e c w₁ w₂, Run.edit (Edit.newScope scope) w = .done e w₁ ∧
      init.exec host e w₁ = .abrupt c w₂ ∧
      (Stmt.forLoop init test update body).exec host scope labels w = .abrupt c w₂) ∨
    ∃ e es w', Begun host scope labels init test update body (e :: es) w' ∧
      (Stmt.forLoop init test update body).exec host scope labels w =
        (evalTurns host labels test update body 1 e >>= fun _ => pure .undefined) w' := by
  obtain ⟨e, w₁, hnew⟩ : ∃ e w₁, (Run.edit (Edit.newScope scope) : Run ScopeId) w = .done e w₁ :=
    ⟨_, _, rfl⟩
  have hexec : (Stmt.forLoop init test update body).exec host scope labels w =
      ((init.exec host e >>= fun _ => evalTurns host labels test update body host.fuel e) >>= fun _ =>
        pure .undefined) w₁ := by
    rw [exec_forLoop, hscoped]
    simp only [Bool.true_or, ↓reduceIte, bind, RunOn.bind, hnew]
    rfl
  rw [hexec] at hne ⊢
  cases hi : init.exec host e w₁ with
  | abrupt c w₂ =>
    refine .inl ⟨e, c, w₁, w₂, hnew, hi, ?_⟩
    simp only [bind, RunOn.bind, hi]
  | exhausted =>
    simp [bind, RunOn.bind, hi] at hne
  | done u w₂ =>
    have hturns : ((init.exec host e >>= fun _ => evalTurns host labels test update body host.fuel e)
        >>= fun _ => pure .undefined : Run Value) w₁ =
        (evalTurns host labels test update body host.fuel e >>= fun _ => pure .undefined) w₂ := by
      simp only [bind, RunOn.bind, hi]
    rw [hturns] at hne ⊢
    have hlast : evalTurns host labels test update body host.fuel e w₂ ≠ .exhausted := fun h => by
      simp [bind, RunOn.bind, h] at hne
    obtain ⟨e', es', w', hbegun, heq⟩ := evalTurns_begun (.first hlt hnew hi) hlast
    refine .inr ⟨e', es', w', hbegun, ?_⟩
    simp only [bind, RunOn.bind, heq]

end Evaluation

end Resumable
