import Resumable.Proofs.Machine.Bounds
import Resumable.Proofs.Plan.Points

/-!
What an instance hands over. Most of what a step does neither delegates nor waits: `Turn.Proceeds` says
so of it once, and what is left are the few places where an instance stops in the middle. Main statement:
`slice_handsOut`: what an instance of a synchronous plan hands out to wait for is like a promise, unless
it is what an iterator has answered.
-/

set_option autoImplicit false

namespace Resumable

open RunOn (Gives)

/-- Whether a turn goes on in the same plan, delegating and awaiting the same as before, or ends the
instance. -/
def Turn.Proceeds (plan : Plan) (d : Option Delegation) (a : Option AwaitKind) : Turn → Prop
  | .goOn g => g.plan = plan ∧ g.delegation = d ∧ g.awaiting = a
  | .pause _ p => p.isFinal = true

section Plain

variable (host : Host) {g : Instance}

theorem unwindThrough_proceeds (signal : Signal) (frames : List Frame) :
    Gives (Turn.Proceeds g.plan g.delegation g.awaiting) (g.unwindThrough host signal frames) := by
  induction frames generalizing g signal with
  | nil =>
    cases signal with
    | ret | throw => exact .pure rfl
    | jump => exact .pure ⟨rfl, rfl, rfl⟩
  | cons f outer ih =>
    unfold Instance.unwindThrough
    cases signal.landing? (outer.length + 1) with
    | some j => exact .pure ⟨rfl, rfl, rfl⟩
    | none =>
      dsimp only
      cases f.kind.receive signal with
      | handle | finalize => exact .pure ⟨rfl, rfl, rfl⟩
      | pass => exact ih signal
      | close iterator =>
        have ih := ih (g := { g.cut f.scopes f.loops with frames := outer })
        refine .bind fun r => ?_
        cases r with
        | ok => exact ih signal
        | error c =>
          cases c with
          | throw v => exact ih (.throw v)
          | fatal e => exact .pure rfl
          | ret | brk | cont => exact ih signal

theorem unwind_proceeds (signal : Signal) :
    Gives (Turn.Proceeds g.plan g.delegation g.awaiting) (g.unwind host signal) :=
  unwindThrough_proceeds host signal g.frames

theorem jump_proceeds (label : Option String) (isContinue : Bool) :
    Gives (Turn.Proceeds g.plan g.delegation g.awaiting) (g.jump host label isContinue) := by
  unfold Instance.jump
  cases jumpAmong label isContinue g.loops with
  | some j => exact unwind_proceeds host _
  | none => exact .bind fun e => unwind_proceeds host _

theorem complete_proceeds (c : Abrupt) :
    Gives (Turn.Proceeds g.plan g.delegation g.awaiting) (g.complete host c) := by
  cases c with
  | ret | throw => exact unwind_proceeds host _
  | brk | cont => exact jump_proceeds host _ _
  | fatal => exact .pure rfl

theorem after_proceeds {α : Type} (x : Run α) {next : α → Run Turn}
    (hn : ∀ a, Gives (Turn.Proceeds g.plan g.delegation g.awaiting) (next a)) :
    Gives (Turn.Proceeds g.plan g.delegation g.awaiting) (g.after host x next) := by
  refine .bind fun r => ?_
  cases r with
  | ok a => exact hn a
  | error c => exact complete_proceeds host c

theorem after_goOn_proceeds {α : Type} (x : Run α) {next : α → Instance}
    (hn : ∀ a, (next a).plan = g.plan ∧ (next a).delegation = g.delegation ∧
      (next a).awaiting = g.awaiting) :
    Gives (Turn.Proceeds g.plan g.delegation g.awaiting) (g.after host x fun a => return .goOn (next a)) :=
  after_proceeds host x fun a => .pure (hn a)

theorem store_proceeds (slot : Option String) (next : Nat) (v : Value) :
    Gives (Turn.Proceeds g.plan g.delegation g.awaiting) (g.store host slot next v) := by
  cases slot with
  | none => exact .pure ⟨rfl, rfl, rfl⟩
  | some name => exact after_goOn_proceeds host _ fun _ => ⟨rfl, rfl, rfl⟩

theorem storeResume_proceeds (v : Value) :
    Gives (Turn.Proceeds g.plan g.delegation g.awaiting) (g.storeResume host v) := by
  unfold Instance.storeResume
  split
  · exact store_proceeds host _ _ v
  -- at the three instructions that suspend it is the next one that stores
  iterate 3
    · split
      · exact store_proceeds (g := g.goto _) host _ _ v
      · exact .exhausted
  · exact .exhausted

theorem delegateDone_proceeds (v : Value) :
    Gives (Turn.Proceeds g.plan none g.awaiting) (g.delegateDone host v) := by
  unfold Instance.delegateDone
  split
  · exact unwind_proceeds (g := g.endDelegation) host _
  · exact storeResume_proceeds (g := g.endDelegation) host v

theorem delegateMissing_proceeds (iterator : Value) (m : Method) (v : Value) :
    Gives (Turn.Proceeds g.plan g.delegation g.awaiting) (g.delegateMissing host iterator m v) := by
  cases m with
  | next | ret => exact unwind_proceeds host _
  | throw => exact after_proceeds host _ fun _ => .bind fun e => unwind_proceeds host _

theorem bindElement_proceeds (v : Value) :
    Gives (Turn.Proceeds g.plan g.delegation g.awaiting) (g.bindElement host v) := by
  unfold Instance.bindElement
  split
  · exact .bind fun scope =>
      after_goOn_proceeds (g := g.pushScope scope) host _ fun _ => ⟨rfl, rfl, rfl⟩
  · exact .pure ⟨rfl, rfl, rfl⟩

theorem exitTry_proceeds (next : Nat) (close : Bool) :
    Gives (Turn.Proceeds g.plan g.delegation g.awaiting) (g.exitTry host next close) := by
  unfold Instance.exitTry
  cases g.frames with
  | nil => exact .pure ⟨rfl, rfl, rfl⟩
  | cons f outer =>
    dsimp only
    split
    · exact .pure ⟨rfl, rfl, rfl⟩
    · exact .pure ⟨rfl, rfl, rfl⟩
    · exact .pure ⟨rfl, rfl, rfl⟩
    · split
      · exact after_goOn_proceeds (g := { g with frames := outer, ip := next }) host _
          fun _ => ⟨rfl, rfl, rfl⟩
      · exact .pure ⟨rfl, rfl, rfl⟩

theorem endFinally_proceeds (next : Nat) :
    Gives (Turn.Proceeds g.plan g.delegation g.awaiting) (g.endFinally host next) := by
  unfold Instance.endFinally
  split
  · exact unwind_proceeds (g := g.popFrame) host _
  · exact .pure ⟨rfl, rfl, rfl⟩

theorem bindCatch_proceeds (param : Option Pattern) (next : Nat) :
    Gives (Turn.Proceeds g.plan g.delegation g.awaiting) (g.bindCatch host param next) := by
  refine .bind fun scope => ?_
  cases param with
  | none => exact .pure ⟨rfl, rfl, rfl⟩
  | some p =>
    exact after_goOn_proceeds (g := { g.pushScope scope with caught := none }) host _
      fun _ => ⟨rfl, rfl, rfl⟩

theorem dispatch_proceeds {i : Instr} (hs : i.isSuspend = false)
    (hm : ∀ kind pattern body exit isAsync, i ≠ .moveNext kind pattern body exit isAsync) :
    Gives (Turn.Proceeds g.plan g.delegation g.awaiting) (g.dispatch host i) := by
  cases i with
  | evaluate | branch | openIterator => exact after_goOn_proceeds host _ fun _ => ⟨rfl, rfl, rfl⟩
  | store => exact storeResume_proceeds host _
  | jump | enterTry | popScope | enterLoop | exitLoop => exact .pure ⟨rfl, rfl, rfl⟩
  | exitTry next close => exact exitTry_proceeds host next close
  | bindCatch param next => exact bindCatch_proceeds host param next
  | endFinally next => exact endFinally_proceeds host next
  | pushScope functions =>
    exact .bind fun scope =>
      after_goOn_proceeds (g := g.pushScope scope) host _ fun _ => ⟨rfl, rfl, rfl⟩
  | copyScope =>
    refine .bind fun scope => .pure ?_
    unfold Instance.replaceScope
    split <;> exact ⟨rfl, rfl, rfl⟩
  | brk | cont => exact jump_proceeds host _ _
  | ret | throw => exact after_proceeds host _ fun _ => unwind_proceeds host _
  | yield | yieldStar | await => cases hs
  | moveNext => exact absurd rfl (hm _ _ _ _ _)

end Plain

/-- Whether an instance waits for what the iterator of a `for await` loop has answered, at which nobody
has looked yet. -/
def Instance.AwaitsAnswer (g : Instance) : Prop :=
  g.awaiting = some .result ∧
    ∃ kind pattern body exit, g.instr? = some (.moveNext kind pattern body exit true)

/-- Whether a turn goes on in the same plan, and whether what it hands out to wait for is promise-like in
the world that it leaves. -/
def Turn.HandsOut (plan : Plan) (w : World) : Turn → Prop
  | .goOn g => g.plan = plan
  | .pause g (.stop (.awaiting v)) => w.heap.isPromiseLike v = true ∨ g.AwaitsAnswer
  | .pause _ _ => True

def HandsOut (plan : Plan) (x : Run Turn) : Prop := ∀ w t w', x w = .done t w' → t.HandsOut plan w'

namespace HandsOut

variable {α : Type} {plan : Plan} {x : Run α}

theorem of_proceeds {d : Option Delegation} {a : Option AwaitKind} {x : Run Turn}
    (h : Gives (Turn.Proceeds plan d a) x) : HandsOut plan x := by
  intro w t w' hx
  have ht := h w t w' hx
  cases t with
  | goOn g => exact ht.1
  | pause g p =>
    cases p with
    | delegate => trivial
    | stop s =>
      cases s with
      | awaiting => cases ht
      | yielded | returned | threw | failed => trivial

theorem pure {t : Turn} (h : ∀ w, t.HandsOut plan w) : HandsOut plan (Pure.pure t) := by
  intro w t' w' hx
  cases hx
  exact h w

theorem bind {f : α → Run Turn} (h : ∀ a, HandsOut plan (f a)) : HandsOut plan (x >>= f) := by
  intro w t w' hx
  simp only [Bind.bind, RunOn.bind] at hx
  cases hw : x w with
  | done a w₁ =>
    rw [hw] at hx
    exact h a w₁ t w' hx
  | abrupt | exhausted =>
    rw [hw] at hx
    cases hx

theorem read {f : Heap → Run Turn} (h : ∀ w t w', f w.heap w = .done t w' → t.HandsOut plan w') :
    HandsOut plan (Run.heap >>= f) := fun w t w' hx => h w t w' hx

theorem after (host : Host) {g : Instance} (x : Run α) {next : α → Run Turn}
    (hn : ∀ a, HandsOut g.plan (next a)) : HandsOut g.plan (g.after host x next) := by
  refine bind fun r => ?_
  cases r with
  | ok a => exact hn a
  | error c => exact of_proceeds (complete_proceeds host c)

end HandsOut

section Stops

variable (host : Host) {g : Instance}

theorem delegateResult_handsOut (result : Value) :
    HandsOut g.plan (g.delegateResult host result) := by
  refine .read fun w t w' hx => ?_
  split at hx
  · rename_i hlike
    cases hx
    exact .inl hlike
  · cases hmal : malformed? w.heap result with
    | some e =>
      rw [hmal] at hx
      cases hx
      trivial
    | none =>
      rw [hmal] at hx
      dsimp only at hx
      split at hx
      · exact HandsOut.of_proceeds (delegateDone_proceeds host _) w t w' hx
      · cases hx
        trivial

theorem passOn_handsOut (m : Method) (v : Value) : HandsOut g.plan (g.passOn host m v) := by
  unfold Instance.passOn
  cases g.delegation with
  | none => exact .of_proceeds (storeResume_proceeds host v)
  | some d =>
    obtain ⟨record, received, native⟩ := d
    let waiting : Instance := { g with delegation := some ⟨record, m, native⟩ }
    cases native with
    | some inner => exact .pure fun _ => trivial
    | none =>
      refine .bind fun r => ?_
      rcases r with c | _ | result
      · exact .of_proceeds (complete_proceeds (g := waiting.endDelegation) host c)
      · exact .of_proceeds (delegateMissing_proceeds (g := waiting.endDelegation) host _ m v)
      · exact delegateResult_handsOut (g := waiting) host result

theorem startDelegation_handsOut (iterable : Value) :
    HandsOut g.plan (g.startDelegation host iterable) :=
  .bind fun _ => .after host _ fun record => .bind fun h =>
    let native := if g.isAsync then none else h.nativeGenerator? record.iterator
    passOn_handsOut (g := { g with delegation := some ⟨record, .next, native⟩ }) host _ _

theorem iteratorResult_handsOut (result : Value) :
    HandsOut g.plan (g.iteratorResult host result) := by
  refine .read fun w t w' hx => ?_
  cases hmal : malformed? w.heap result with
  | some e =>
    rw [hmal] at hx
    cases hx
    trivial
  | none =>
    rw [hmal] at hx
    dsimp only at hx
    split at hx
    · cases hi : g.instr? with
      | none =>
        rw [hi] at hx
        cases hx
        exact rfl
      | some i =>
        rw [hi] at hx
        cases i <;>
          · cases hx
            exact rfl
    · split at hx
      · rename_i hlike
        cases hx
        exact .inl (Bool.and_eq_true_iff.1 hlike).2
      · exact HandsOut.of_proceeds (bindElement_proceeds host _) w t w' hx

theorem moveNext_handsOut {kind : Option VarKind} {pattern : Pattern} {body exit : Nat}
    {isAsync : Bool} (hi : g.instr? = some (.moveNext kind pattern body exit isAsync)) :
    HandsOut g.plan (g.moveNext host isAsync) := by
  unfold Instance.moveNext
  cases g.iterator? with
  | none => exact .of_proceeds (.bind fun e => unwind_proceeds host _)
  | some record =>
    refine .bind fun r => ?_
    cases r with
    | error c => exact .of_proceeds (complete_proceeds (g := g.popFrame) host c)
    | ok result =>
      cases isAsync with
      | true => exact .pure fun _ => .inr ⟨rfl, _, _, _, _, hi⟩
      | false => exact iteratorResult_handsOut host result

theorem dispatch_handsOut {i : Instr} (hi : g.instr? = some i)
    (hsync : i.suspendKind? ≠ some .await) : HandsOut g.plan (g.dispatch host i) := by
  cases i with
  | yield => exact .after host _ fun v => .pure fun _ => trivial
  | await => exact absurd rfl hsync
  | yieldStar => exact .after host _ fun v => startDelegation_handsOut host v
  | moveNext => exact moveNext_handsOut host hi
  | _ => exact .of_proceeds (dispatch_proceeds host rfl (by simp))

theorem settled_handsOut (awaiting : Option AwaitKind) (s : Settlement) :
    HandsOut g.plan (g.settled host awaiting s) := by
  cases s with
  | fulfilled v =>
    cases awaiting with
    | none => exact .of_proceeds (storeResume_proceeds host v)
    | some kind =>
      cases kind with
      | value => exact .of_proceeds (storeResume_proceeds host v)
      | delegate => exact delegateResult_handsOut host v
      | result => exact iteratorResult_handsOut host v
      | element => exact .of_proceeds (bindElement_proceeds host v)
  | rejected v =>
    cases awaiting with
    | none => exact .of_proceeds (unwind_proceeds host _)
    | some kind =>
      cases kind with
      | value | element => exact .of_proceeds (unwind_proceeds host _)
      | delegate => exact passOn_handsOut host _ v
      | result => exact .of_proceeds (unwind_proceeds (g := g.popFrame) host _)

theorem resumed_handsOut (a : Action) : HandsOut g.plan (g.resumed host a) := by
  cases a with
  | settled s => exact settled_handsOut (g := { g with awaiting := none }) host _ s
  | delegateDone v => exact .of_proceeds (delegateDone_proceeds (g := { g with awaiting := none }) host v)
  | delegateThrew v =>
    exact .of_proceeds (unwind_proceeds (g := { g with awaiting := none, delegation := none }) host _)
  | next v => exact passOn_handsOut (g := { g with awaiting := none }) host .next v
  | throw v | ret v =>
    unfold Instance.resumed
    dsimp only
    split
    · exact passOn_handsOut (g := { g with awaiting := none }) host _ v
    · exact .of_proceeds (unwind_proceeds (g := { g with awaiting := none }) host _)

end Stops

section Slices

variable {host : Host} {g g' : Instance} {v : Value} {w w' : World} {n : Nat}

/-- A step that goes on goes on in the same plan, so the promise is kept up to the next stop. -/
theorem execute_handsOut (hsync : AwaitsIn false g.plan.code)
    (he : g.execute host n w = .done (g', .stop (.awaiting v)) w') :
    w'.heap.isPromiseLike v = true ∨ g'.AwaitsAnswer := by
  induction n generalizing g w with
  | zero => cases he
  | succ n ih =>
    unfold Instance.execute at he
    cases hi : g.instr? with
    | none =>
      rw [hi] at he
      cases he
    | some i =>
      have hawait : i.suspendKind? ≠ some .await := fun h => by
        cases hsync i (List.mem_of_getElem? hi) h
      simp only [hi, bind, RunOn.bind] at he
      cases hd : g.dispatch host i w with
      | abrupt | exhausted =>
        rw [hd] at he
        cases he
      | done t w₁ =>
        rw [hd] at he
        have ht := dispatch_handsOut host hi hawait w t w₁ hd
        cases t with
        | goOn g₁ => exact ih (by rwa [show g₁.plan = g.plan from ht]) he
        | pause g₁ p =>
          cases he
          exact ht

theorem runOn_handsOut {plan : Plan} {t : Turn} (hsync : AwaitsIn false plan.code)
    (ht : t.HandsOut plan w) (he : Instance.runOn host n t w = .done (g', .stop (.awaiting v)) w') :
    w'.heap.isPromiseLike v = true ∨ g'.AwaitsAnswer := by
  cases t with
  | goOn g => exact execute_handsOut (by rwa [show g.plan = plan from ht]) he
  | pause g p =>
    cases he
    exact ht

/-- Whatever else an instance of a synchronous plan does in a slice, it does not end it waiting for
what is no promise, unless that is the answer of an iterator. -/
theorem slice_handsOut (hsync : AwaitsIn false g.plan.code) {a : Action}
    (he : g.slice host n a w = .done (g', .stop (.awaiting v)) w') :
    w'.heap.isPromiseLike v = true ∨ g'.AwaitsAnswer := by
  unfold Instance.slice at he
  cases hs : g.status with
  | suspendedStart =>
    rw [hs] at he
    refine runOn_handsOut (show AwaitsIn false g.plan.code from hsync) ?_ he
    cases a <;> first | exact rfl | trivial
  | suspendedYield | executing | completed =>
    rw [hs] at he
    simp only [bind, RunOn.bind] at he
    cases hr : Instance.resumed host { g with status := .executing } a w with
    | done t w₁ =>
      rw [hr] at he
      have ht := resumed_handsOut (g := { g with status := .executing }) host a w t w₁ hr
      exact runOn_handsOut (show AwaitsIn false g.plan.code from hsync) ht he
    | abrupt | exhausted =>
      rw [hr] at he
      cases he

end Slices

end Resumable
