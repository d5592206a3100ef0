import Mathlib
import Resumable.Proofs.Scopes.Rounds
import Resumable.Proofs.Scopes.Turns

/-!
The turns of a loop with a `let` or `const` head keep off each other's bindings. Main statement:
`turns_apart`, for loops that are evaluated whole and for those in plans.
-/

set_option autoImplicit false

namespace Resumable

open RunOn (Gives)

def Closure.prepare (host : Host) (c : Closure) (receiver : Value) (args : List Value)
    (scope : ScopeId) : Run ScopeId := do
  if !c.isArrow then
    let _ ← Edit.define scope "this" .var receiver
  bindParams host scope c.params args
  hoistVars scope c.body
  instantiate scope (declaredFunctions c.body)
  return scope

theorem enter_eq (host : Host) (c : Closure) (receiver : Value) (args : List Value) :
    c.enter host receiver args = Run.edit (Edit.newScope c.scope) >>= c.prepare host receiver args := rfl

section Calls

variable {host : Host} (c : Closure) (receiver : Value) (args : List Value) (scope : ScopeId)

theorem prepare_gives : Gives (· = scope) (c.prepare host receiver args scope) := by
  have hrest : Gives (· = scope) (do
      bindParams host scope c.params args
      hoistVars scope c.body
      instantiate scope (declaredFunctions c.body)
      return scope : Run ScopeId) := .bind fun _ => .bind fun _ => .bind fun _ => .pure rfl
  unfold Closure.prepare
  dsimp only
  split
  · exact .bind fun _ => hrest
  · exact hrest

theorem prepare_grows (hh : host.Grows) : (c.prepare host receiver args scope).Grows := by
  have hs := hh.suits
  have hrest : (do
      bindParams host scope c.params args
      hoistVars scope c.body
      instantiate scope (declaredFunctions c.body)
      return scope : Run ScopeId).Grows :=
    .bind (bindParams_related hs.calls hs.names hs.suspends scope c.params args).2 fun _ =>
      .bind (hoistVars_related (R := growing) hs.names scope c.body).2 fun _ =>
        .bind (instantiate_related growing.toEvalRelation scope (declaredFunctions c.body)
          fun _ _ => hs.names _).2 fun _ => .pure _
  unfold Closure.prepare
  dsimp only
  split
  · exact .bind (.edit (define_grows _ _ _ _)) fun _ => hrest
  · exact hrest

/-- The scope of a call stands in the scope that the closure keeps. -/
theorem enter_under (hh : host.Grows) {s : ScopeId} {w w' : World}
    (hc : c.scope < w.scopes.all.size) (h : c.enter host receiver args w = .done s w') :
    w.Later w' ∧ w'.scopes.Under s c.scope := by
  rw [enter_eq] at h
  obtain ⟨a, t, hnew⟩ : ∃ a t, w.scopes.alloc ⟨.empty, some c.scope⟩ = (a, t) := ⟨_, _, rfl⟩
  have hunder := Scopes.Under.alloc hc
  have hext := Scopes.Extends.alloc (s := w.scopes) ⟨.empty, some c.scope⟩
  simp only [bind, RunOn.bind, newScope_apply, hnew] at h
  rw [hnew] at hunder hext
  obtain rfl : s = a := prepare_gives c receiver args a _ _ _ h
  have hl := (prepare_grows c receiver args s hh).done h
  exact ⟨⟨hext.trans hl.scopes, hl.records⟩, hunder.later hl.scopes⟩

end Calls

/-- What holds of a loop that is evaluated whole. -/
structure EvaluatesApart (host : Host) (scope : ScopeId) (labels : List String) (init : ForInit)
    (test update : Option Expr) (body : Stmt) : Prop where
  apart : ∀ es w, Begun host scope labels init test update body es w → w.scopes.Apart es
  /-- After a turn that goes on the bindings are copied as the turn has left them. -/
  copies : ∀ e es w w₁ w₂, Begun host scope labels init test update body (e :: es) w →
    evalTest host e test w = .done true w₁ →
    loopBody labels (body.exec host e []) w₁ = .done true w₂ →
    w₂.scopes.Copies (w₂.scopes.copy e).2 e (w₂.scopes.copy e).1
  /-- No turn begins in another way: the loop ends in its initializer or in a turn that has begun. -/
  ends : ∀ w, scope < w.scopes.all.size →
    (Stmt.forLoop init test update body).exec host scope labels w ≠ .exhausted →
    (∃ e c w₁ w₂, Run.edit (Edit.newScope scope) w = .done e w₁ ∧
      init.exec host e w₁ = .abrupt c w₂ ∧
      (Stmt.forLoop init test update body).exec host scope labels w = .abrupt c w₂) ∨
    ∃ e es w', Begun host scope labels init test update body (e :: es) w' ∧
      (Stmt.forLoop init test update body).exec host scope labels w =
        (evalTurns host labels test update body 1 e >>= fun _ => pure .undefined) w'

/-- What holds of the loops of a plan that copy their bindings: there are so many of them. -/
structure RunsApart (host : Host) (plan : Plan) (loops : Nat) : Prop where
  count : countCopies plan.code = loops
  /-- A copy is where a loop is continued. -/
  continued : ∀ k next, plan.get? k = some (.copyScope next) → ∃ o labels onBreak start,
    plan.get? o = some (.enterLoop labels .loop (some k) onBreak start)
  rounds : ∀ base isAsync l around start es ss t w,
    Rounds host (.running plan base isAsync) l around start es ss t w →
    RoundsApart host l around start es ss t w

/-- What holds of all loops with a `let` or `const` head. -/
structure Host.KeepsTurnsApart (host : Host) : Prop where
  /-- A call of a closure sees what is visible from where the closure was made. -/
  called : ∀ (c : Closure) receiver args s w w', c.scope < w.scopes.all.size →
    c.enter host receiver args w = .done s w' → ∀ e ∈ w.scopes.chain c.scope, e ∈ w'.scopes.chain s
  evaluated : ∀ scope labels init test update body, init.isScoped = true →
    EvaluatesApart host scope labels init test update body
  planned : ∀ inAsync params body plan, buildPlan inAsync params body = .ok plan →
    RunsApart host plan (bodyOwnLoops inAsync body)

/-- Each turn of a loop has an environment of its own, with the bindings as the turn before has left them,
and no code inside of one of them touches another one. -/
theorem turns_apart (fuel : Nat) : (Host.withFuel fuel).KeepsTurnsApart where
  called c receiver args s w w' hc h e he := by
    obtain ⟨hl, hunder⟩ := enter_under c receiver args (withFuel_grows fuel) hc h
    exact hunder.mem_chain (hl.scopes.chain hc ▸ he)
  evaluated scope labels init test update body hscoped :=
    have hh := withFuel_grows fuel
    ⟨fun _ _ h => (h.environments hh).areApart, fun _ _ _ _ _ h => h.copies hh,
      fun _ => exec_begun hscoped⟩
  planned inAsync params body plan h := by
    obtain ⟨M, hM⟩ := buildPlan_mapped h
    obtain ⟨C, hC⟩ := buildPlan_coloured h
    refine ⟨buildPlan_copies h, fun k next hk => ?_, fun base isAsync l around start es ss t w hr =>
      hr.apart hM hC (withFuel_proper fuel) (withFuel_grows fuel)⟩
    obtain ⟨s, hs, rfl, -⟩ := Turning.of_copyScope hM hC hk
    exact ⟨_, _, _, _, hs.enter⟩

/-- A loop that yields in its body, up to its second turn: the environment of that is a copy of the first
one, made after the generator was resumed. -/
theorem turns_apart_second : ∃ plan l w, buildPlan false [] [.forLoop
      (.declare .let [.mk (.ident "i") (some (.bool true))]) none none (.expr (.yield none))] = .ok plan ∧
    ∃ t, Rounds (Host.withFuel 8) (.running plan 0 false) l [] 3 [2, 1] [2, 1] t w ∧
      RoundsApart (Host.withFuel 8) l [] 3 [2, 1] [2, 1] t w := by
  let head : Stmt := .declare .let [.mk (.ident "i") (some (.bool true))]
  let plan : Plan := ⟨[.ret none, .popScope 0, .exitLoop 1, .jump 6, .copyScope 3, .store none 4,
    .yield none 5, .enterLoop [] .loop (some 4) 1 3, .evaluate head 7, .pushScope [] 8], 9, []⟩
  have hbuilt : buildPlan false [] [.forLoop (.declare .let [.mk (.ident "i") (some (.bool true))])
      none none (.expr (.yield none))] = .ok plan := rfl
  let g (ip : Nat) (scopes : List ScopeId) (loops : List LoopScope) : Instance :=
    { Instance.running plan 0 false with ip, scopes, loops }
  let world (scopes : List Scope) : World :=
    { World.blank with scopes := ⟨(default :: scopes).toArray⟩ }
  let bound : Scope := ⟨.insert .empty "i" ⟨.bool true, .let, true⟩, some 0⟩
  let l : LoopScope := ⟨[], .loop, some 4, 1, 1, 0⟩
  have hdeclare : (g 8 [1] []).dispatch (Host.withFuel 8) (.evaluate head 7)
      (world [⟨.empty, some 0⟩]) = .done (.goOn (g 7 [1] [])) (world [bound]) := by cbv
  have hwalk : Walk (Host.withFuel 8) (.running plan 0 false) (.goOn (g 7 [1] [])) (world [bound]) :=
    ((Walk.start (.next .undefined) (w := .blank) (by decide)).step
      (.dispatch (i := .pushScope [] 8) rfl rfl)).step (.dispatch rfl hdeclare)
  have hentered : Rounds (Host.withFuel 8) (.running plan 0 false) l [] 3 [1] []
      (.goOn (g 3 [1] [l])) (world [bound]) := .enters hwalk rfl rfl rfl rfl
  have hfirst : Rounds (Host.withFuel 8) (.running plan 0 false) l [] 3 [1] [1]
      (.goOn (g 6 [1] [l])) (world [bound]) :=
    hentered.begins ⟨rfl, rfl⟩ (.dispatch rfl rfl) List.suffix_rfl
  have hyielded : Rounds (Host.withFuel 8) (.running plan 0 false) l [] 3 [1] [1]
      (.stop (g 5 [1] [l]) (.yielded .undefined)) (world [bound]) :=
    hfirst.goes (fun h => absurd h.2 (by decide)) (fun h => by obtain ⟨-, next, h⟩ := h; cases h)
      (.dispatch rfl rfl) List.suffix_rfl
  have hresumed : Rounds (Host.withFuel 8) (.running plan 0 false) l [] 3 [1] [1]
      (.goOn (g 4 [1] [l])) (world [bound]) :=
    hyielded.goes id id (.resume (a := .next .undefined) rfl ⟨rfl, rfl, rfl, rfl, rfl, .inl rfl⟩ rfl
      (.refl _) rfl) List.suffix_rfl
  have hcopied : Rounds (Host.withFuel 8) (.running plan 0 false) l [] 3 [2, 1] [1]
      (.goOn (g 3 [2] [l])) (world [bound, bound]) :=
    hresumed.copies ⟨rfl, 3, rfl⟩ (.dispatch rfl rfl) List.suffix_rfl
  have hsecond : Rounds (Host.withFuel 8) (.running plan 0 false) l [] 3 [2, 1] [2, 1]
      (.goOn (g 6 [2] [l])) (world [bound, bound]) :=
    hcopied.begins ⟨rfl, rfl⟩ (.dispatch rfl rfl) List.suffix_rfl
  exact ⟨plan, l, _, hbuilt, _, hsecond,
    ((turns_apart 8).planned _ _ _ _ hbuilt).rounds _ _ _ _ _ _ _ _ _ hsecond⟩

end Resumable
