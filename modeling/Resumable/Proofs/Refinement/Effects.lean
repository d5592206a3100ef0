import Resumable.Proofs.Plan.StackMap
import Resumable.Proofs.Refinement.Structured

/-!
Expressions in plans. The code of an effect follows the evaluation of the expression, through the
replies to its `yield` as well, and the code of a condition goes where its value says.
-/

set_option autoImplicit false

namespace Resumable

open Taped (lift emit)

/-- Whether an instance runs this plan among these constructs, with nothing on its way. -/
structure Instance.Ready (plan : Plan) (around : List Breakable) (g : Instance) : Prop where
  plan_eq : g.plan = plan
  executing : g.status = .executing
  delegation : g.delegation = none
  awaiting : g.awaiting = none
  caught : g.caught = none
  loops : g.loops.map LoopScope.breakable = around
  continues : ∀ l ∈ g.loops, l.kind = .loop → l.onContinue.isSome = true
  nested : g.Nested

def writeSlot (scope : ScopeId) (slot : Option String) (v : Value) : RunOn Taped Unit :=
  match slot with
  | none => return ()
  | some name => writeName scope name v

theorem effect_eval (host : HostOn Taped) (scope : ScopeId) {e : Expr} {slot : Option String}
    {operand : Option Expr} (h : e.effectParts = (slot, .yield operand)) :
    e.eval host scope none = do
      let v ← (Expr.yield operand).eval host scope none
      writeSlot scope slot v
      return v := by
  unfold Expr.effectParts at h
  split at h
  · cases h
    cases operand <;> rfl
  · cases h
    cases operand <;> simp [writeSlot]

theorem delegates_of_effect {e : Expr} {slot : Option String} {operand : Option Expr}
    (h : e.effectParts = (slot, .yieldStar operand)) : e.delegates = true := by
  unfold Expr.effectParts at h
  split at h
  · cases h
    cases operand <;> simp [Expr.delegates, Expr.suspends]
  · cases h
    cases operand <;> simp [Expr.delegates, Expr.suspends]

theorem delegates_seq {items : List Expr} :
    (Expr.seq items).delegates = items.any Expr.delegates := by
  have h : ∀ items, listSuspends false items = items.flatMap (Expr.suspends false) := by
    intro items
    induction items with
    | nil => rfl
    | cons e es ih => simp [listSuspends, ih]
  simp [Expr.delegates, Expr.suspends, h, List.any_flatMap]
  rfl

section Sequences

variable {σ : Type} [HasWorld σ] (host : HostOn σ) (scope : ScopeId) (last : Value)

theorem evalSeq_cons (e : Expr) (es : List Expr) : evalSeq host scope last (e :: es) =
    e.eval host scope none >>= fun v => evalSeq host scope v es := rfl

theorem evalSeq_singleton (e : Expr) :
    evalSeq host scope last [e] = e.eval host scope none :=
  bind_pure _

theorem evalSeq_append (es ds : List Expr) : evalSeq host scope last (es ++ ds) =
    evalSeq host scope last es >>= fun v => evalSeq host scope v ds := by
  induction es generalizing last with
  | nil => rfl
  | cons e es ih => simp only [List.cons_append, evalSeq_cons, ih, bind_assoc]

end Sequences

theorem Follows.yielded {α : Type} {host : Host} {g g₀ : Instance} {v : Value}
    {f : Reply → RunOn Taped α} {next : α → Play} {P : Abrupt → Prop} (hP : ∀ e, P (.fatal e))
    (h : ∀ r : Reply, Follows host g P
      (onward host (Instance.resumed host { g₀ with status := .executing } r.action)) (f r) next) :
    Follows host g P (onward host (return .stop g₀ (.yielded v))) (emit v >>= f) next := by
  intro s
  have hplay : ∀ m, onward host (return .stop g₀ (.yielded v)) (1 + m) s =
      (emit v >>= fun r => onward host
        (Instance.resumed host { g₀ with status := .executing } r.action) m) s := by
    intro m
    rw [Nat.add_comm]
    rfl
  simp only [Bind.bind, RunOn.bind, emit] at hplay ⊢
  cases hs : s.script with
  | nil =>
    simp only [hs] at hplay
    exact ⟨hP _, 1, fun m => by rw [hplay, escape_fatal]; rfl⟩
  | cons r rest =>
    simp only [hs] at hplay
    exact (h r _).lead ⟨1, hplay⟩

theorem resumed_reply {host : Host} {g : Instance} (ha : g.awaiting = none)
    (hd : g.delegation = none) (r : Reply) :
    g.resumed host r.action =
      match r.method with
      | .next => g.storeResume host r.value
      | .throw => g.complete host (.throw r.value)
      | .ret => g.complete host (.ret r.value) := by
  obtain ⟨m, v⟩ := r
  cases g
  cases ha
  cases hd
  cases m <;> rfl

section Expressions

variable {plan : Plan} {host : Host} {around : List Breakable} {g : Instance}
  (hg : g.Ready plan around) (xs : List ScopeId) (ls : List LoopScope)

theorem holdsNone_get {ip : Nat} {i : Instr} (hplain : HoldsNone false plan.code)
    (h : plan.get? ip = some i) : i.holdsSuspend false = false :=
  hplain i (List.mem_of_getElem? h)

include hg

theorem Instance.Ready.instr {ip : Nat} {i : Instr} (h : plan.get? ip = some i) :
    (g.over xs ls ip).instr? = some i := by
  simp only [Instance.instr?, Instance.over, hg.plan_eq]
  exact h

/-- Exceptions and returns lead the same way from above all scopes and loops. -/
theorem Instance.Ready.escape_over (host : Host) {c : Abrupt} (hc : c.isJump = false) (ip : Nat) :
    c.isJump = false ∧ escape host (g.over xs ls ip) c = escape host g c := by
  refine ⟨hc, Resumable.escape_over hg.nested (leads_of_not_jump hc) xs ls ip fun l _ => ?_⟩
  cases c with
  | ret | throw | fatal => rfl
  | brk | cont => cases hc

theorem store_follows {slot : Option String} (ip next : Nat) (v : Value) :
    Follows host g (·.isJump = false) (onward host ((g.over xs ls ip).store host slot next v))
      (writeSlot (g.over xs ls 0).scope slot v) fun _ => playing host (g.over xs ls next) := by
  cases slot with
  | none => exact .here ()
  | some name =>
    have hlift : (writeSlot (g.over xs ls 0).scope (some name) v) =
        lift (writeName (g.over xs ls ip).scope name v) >>= fun _ => pure () := by
      rw [show lift (writeName (g.over xs ls ip).scope name v) =
        writeName (g.over xs ls ip).scope name v from
          (writeName_related lifted.toEvalRelation _ name v trivial).symm]
      exact (bind_pure _).symm
    rw [hlift]
    refine Follows.after (fun _ => .here ()) fun w c w' hc => hg.escape_over xs ls host (isJump_of_leavesCalls ?_) ip
    exact (writeName_related onlyThrows.toEvalRelation _ name v trivial).2 w c w' hc

theorem yield_follows (hh : host.Proper) (hplain : HoldsNone false plan.code)
    {slot : Option String} {operand : Option Expr} {store next : Nat}
    (hstore : plan.get? store = some (.store slot next))
    (hyield : plan.get? (store + 1) = some (.yield operand store)) :
    Follows host g (·.isJump = false) (playing host (g.over xs ls (store + 1)))
      (do let v ← (Expr.yield operand).eval (scripted host) (g.over xs ls 0).scope none
          writeSlot (g.over xs ls 0).scope slot v
          return v)
      fun _ => playing host (g.over xs ls next) := by
  have hs : operand.any (·.hasSuspend false) = false := holdsNone_get hplain hyield
  have heval : (Expr.yield operand).eval (scripted host) (g.over xs ls 0).scope none =
      lift (evalOption host (g.over xs ls (store + 1)).scope operand) >>= fun v =>
        emit v >>= Reply.act := by
    rw [← evalOption_scripted hh _ hs]
    cases operand <;> rfl
  rw [heval, bind_assoc]
  refine .step (hg.instr xs ls hyield) ?_
  refine .after (fun v => ?_) fun w c w' hc => hg.escape_over xs ls host (isJump_of_leavesCalls ?_) _
  · -- the reply finds the instance at the store
    rw [bind_assoc]
    refine .yielded (fun _ => rfl) fun r => ?_
    have hready : ({ (g.over xs ls (store + 1)).goto store with status := .executing } : Instance) =
        g.over xs ls store := by
      simp only [Instance.goto, Instance.over, ← hg.executing]
    rw [hready]
    rw [resumed_reply (g := g.over xs ls store) hg.awaiting hg.delegation]
    obtain ⟨m, v⟩ := r
    cases m with
    | next =>
      have hresume : (g.over xs ls store).storeResume host v =
          (g.over xs ls store).store host slot next v := by
        simp only [Instance.storeResume, hg.instr xs ls hstore]
      dsimp only
      rw [hresume]
      exact (store_follows hg xs ls store next v).bind fun _ => .here v
    | throw =>
      obtain ⟨hc, heq⟩ := hg.escape_over xs ls host (c := .throw v) rfl store
      rw [escape] at heq
      dsimp only
      rw [heq]
      exact .abrupt hc
    | ret =>
      obtain ⟨hc, heq⟩ := hg.escape_over xs ls host (c := .ret v) rfl store
      rw [escape] at heq
      dsimp only
      rw [heq]
      exact .abrupt hc
  · exact (evalOption_related hh.related (fun _ => trivial) _ operand fun _ => hh.suspends).2 w c w' hc

theorem evaluate_follows {α β : Type} {i : Instr} {ip : Nat} {y : Run β} {k : β → Run Turn}
    {f : β → RunOn Taped α} {next : α → Play} (hi : plan.get? ip = some i)
    (hd : (g.over xs ls ip).dispatch host i = (g.over xs ls ip).after host y k)
    (hy : y.OnlyThrows) (hk : ∀ v, Follows host g (·.isJump = false) (onward host (k v)) (f v) next) :
    Follows host g (·.isJump = false) (playing host (g.over xs ls ip)) (lift y >>= f) next := by
  refine .step (hg.instr xs ls hi) ?_
  rw [hd]
  exact .after hk fun w c w' hc => hg.escape_over xs ls host (isJump_of_leavesCalls (hy w c w' hc)) ip

variable (hh : host.Proper) (hplain : HoldsNone false plan.code)

include hh hplain

theorem EffectsLaid.follows {base next : Nat} {es : List Expr} {f : Fragment}
    (h : EffectsLaid false base next es f) (hl : Lies plan.get? base f.code)
    (hd : ∀ e ∈ es, e.delegates = false) (last : Value) :
    Follows host g (·.isJump = false) (playing host (g.over xs ls f.entry))
      (evalSeq (scripted host) (g.over xs ls 0).scope last es)
      fun _ => playing host (g.over xs ls next) := by
  induction h generalizing last with
  | nil => exact .here last
  | @plain base next e es rest _ he ih =>
    simp only [lies_append, lies_cons, Fragment.length_code] at hl
    rw [evalSeq_cons, e.eval_scripted hh _ none he]
    exact evaluate_follows hg xs ls hl.2.1 rfl (eval_onlyThrows hh _ none e) fun v =>
      ih hl.1 (fun e he => hd e (by simp [he])) v
  | @suspend base next e d slot es rest i _ _ hparts hsimple hi ih =>
    simp only [lies_append, lies_cons, Fragment.length_code] at hl
    have ih := ih hl.1 fun e he => hd e (by simp [he])
    have he := hd e (by simp)
    cases d with
    | yield operand =>
      cases hi
      rw [evalSeq_cons, effect_eval _ _ hparts]
      exact (yield_follows hg xs ls hh hplain hl.2.1 hl.2.2.1).bind ih
    | yieldStar operand =>
      rw [delegates_of_effect hparts] at he
      cases he
    | await => cases hsimple
    | _ => cases hi
  | @seq base next items es rest first _ _ _ ih ih' =>
    simp only [lies_append, Fragment.length_code] at hl
    have hitems : ∀ e ∈ items, e.delegates = false := by
      have h := hd (.seq items) (by simp)
      rw [delegates_seq] at h
      simpa using h
    exact (ih' hl.2 hitems .undefined).bind fun v => ih hl.1 (fun e he => hd e (by simp [he])) v

theorem ConditionLaid.follows {base onTrue onFalse : Nat} {e : Expr} {f : Fragment}
    (h : ConditionLaid false base onTrue onFalse e f) (hl : Lies plan.get? base f.code)
    (hd : e.delegates = false) :
    Follows host g (·.isJump = false) (playing host (g.over xs ls f.entry))
      (e.eval (scripted host) (g.over xs ls 0).scope none)
      fun v => playing host (g.over xs ls (if v.truthy then onTrue else onFalse)) := by
  have hbranch : ∀ e : Expr, plan.get? base = some (.branch e onTrue onFalse) →
      Follows host g (·.isJump = false) (playing host (g.over xs ls base))
        (e.eval (scripted host) (g.over xs ls 0).scope none)
        fun v => playing host (g.over xs ls (if v.truthy then onTrue else onFalse)) := by
    intro e hi
    rw [e.eval_scripted hh _ none (holdsNone_get hplain hi), ← bind_pure (lift _)]
    exact evaluate_follows hg xs ls hi rfl (eval_onlyThrows hh _ none e) fun v => .pure
  cases h with
  | plain => exact hbranch e hl.1
  | @seq items last first _ hlast hfirst =>
    obtain ⟨init, rfl⟩ := List.getLast?_eq_some_iff.1 hlast
    rw [List.dropLast_concat] at hfirst
    have hinit : ∀ e ∈ init, e.delegates = false := by
      rw [delegates_seq] at hd
      simp only [List.any_eq_false, Bool.not_eq_true] at hd
      exact fun e he => hd e (List.mem_append_left _ he)
    have heval : (Expr.seq (init ++ [last])).eval (scripted host) (g.over xs ls 0).scope none =
        evalSeq (scripted host) (g.over xs ls 0).scope .undefined init >>= fun _ =>
          last.eval (scripted host) (g.over xs ls 0).scope none := by
      refine (evalSeq_append (scripted host) _ .undefined init [last]).trans ?_
      exact congrArg _ (funext fun v => evalSeq_singleton (scripted host) _ v last)
    rw [heval]
    exact (hfirst.follows hg xs ls hh hplain hl.2 hinit .undefined).bind fun v => hbranch last hl.1

theorem TestLaid.follows {base onTrue onFalse : Nat} {e : Option Expr} {f : Fragment}
    (h : TestLaid false base onTrue onFalse e f) (hl : Lies plan.get? base f.code)
    (hd : e.any Expr.delegates = false) :
    Follows host g (·.isJump = false) (playing host (g.over xs ls f.entry))
      (evalTest (scripted host) (g.over xs ls 0).scope e)
      fun go => playing host (g.over xs ls (if go then onTrue else onFalse)) := by
  cases h with
  | none => exact Follows.pure (v := true)
  | some h => exact (h.follows hg xs ls hh hplain hl hd).bind fun v => .pure

theorem UpdateLaid.follows {base next : Nat} {e : Option Expr} {f : Fragment}
    (h : UpdateLaid false base next e f) (hl : Lies plan.get? base f.code)
    (hd : e.any Expr.delegates = false) :
    Follows host g (·.isJump = false) (playing host (g.over xs ls f.entry))
      (evalOption (scripted host) (g.over xs ls 0).scope e)
      fun _ => playing host (g.over xs ls next) := by
  cases h with
  | none => exact .here _
  | @some e f h =>
    have h := h.follows hg xs ls hh hplain hl (by simpa using hd) .undefined
    rwa [evalSeq_singleton] at h

theorem InitLaid.follows {base next : Nat} {init : ForInit} {f : Fragment}
    (h : InitLaid false base next init f) (hl : Lies plan.get? base f.code)
    (hd : init.delegates = false) :
    Follows host g (·.isJump = false) (playing host (g.over xs ls f.entry))
      (init.exec (scripted host) (g.over xs ls 0).scope)
      fun _ => playing host (g.over xs ls next) := by
  cases h with
  | absent => exact .here ()
  | @expr e f h =>
    have h := h.follows hg xs ls hh hplain hl (by simpa [ForInit.delegates] using hd) .undefined
    rw [evalSeq_singleton] at h
    exact h.bind fun _ => .here ()
  | @declare kind ds hs =>
    have hlift : ForInit.exec (scripted host) (g.over xs ls 0).scope (.declare kind ds) =
        lift (declareAll host (g.over xs ls base).scope kind ds) :=
      declareAll_related (scripted_related hh) (fun _ => trivial) _ kind ds (by
        have hs : ds.any (·.hasSuspend false) = false := hs
        simp [hs])
    have hd : (g.over xs ls base).dispatch host (.evaluate (.declare kind ds) next) =
        (g.over xs ls base).after host (declareAll host (g.over xs ls base).scope kind ds)
          fun _ => return .goOn ((g.over xs ls base).goto next) := by
      funext w
      simp only [Instance.dispatch, Instance.after, Stmt.exec, Bind.bind, RunOn.bind,
        RunOn.attempt]
      cases declareAll host (g.over xs ls base).scope kind ds w <;> rfl
    rw [hlift, ← bind_pure (lift _)]
    refine evaluate_follows hg xs ls hl.1 hd ?_ fun _ => .here ()
    exact (declareAll_related hh.related (fun _ => trivial) _ kind ds fun _ => hh.suspends).2

end Expressions

end Resumable
