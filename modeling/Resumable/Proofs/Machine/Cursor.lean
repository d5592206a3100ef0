import Mathlib
import Resumable.Call
import Resumable.Realm
import Resumable.Proofs.Machine.Handover
import Resumable.Proofs.Machine.Runs

/-!
Where an instance stands when it is resumed. What it is resumed with is stored at a store instruction, or
at the one after a suspend instruction; nowhere else can it go on. Main statement:
`buildPlan_keeps_cursor`: in every run of a plan that is built it stands there whenever a value is to be
stored, and at the `yield*` as long as it delegates, provided that settlements come only to those that
wait for them.
-/

set_option autoImplicit false

namespace Resumable

open RunOn (Gives)

namespace Instance

/-- Whether the value that an instance is resumed with can be stored where it stands: at a store
instruction, or at a suspend instruction before one. -/
def CanStore (g : Instance) : Prop :=
  (∃ slot past, g.instr? = some (.store slot past)) ∨
  ∃ i next slot past, g.instr? = some i ∧ i.isSuspend = true ∧ i.targets = [next] ∧
    g.plan.get? next = some (.store slot past)

def AtYieldStar (g : Instance) : Prop := ∃ e next, g.instr? = some (.yieldStar e next)

/-- Whether the instance stands at the step of a loop over an iterator. -/
def AtMove (g : Instance) : Prop :=
  ∃ kind pattern body exit isAsync, g.instr? = some (.moveNext kind pattern body exit isAsync)

theorem AtMove.not_canStore {g : Instance} (h : g.AtMove) : ¬ g.CanStore := by
  obtain ⟨kind, pattern, body, exit, isAsync, hi⟩ := h
  rintro (⟨slot, past, hs⟩ | ⟨i, next, slot, past, hs, hsuspend, -⟩)
  · cases hi.symm.trans hs
  · cases hi.symm.trans hs
    cases hsuspend

theorem canStore_of_suspend {g : Instance} (hp : g.plan.Closed) {i : Instr} (hi : g.instr? = some i)
    (hs : i.isSuspend = true) : g.CanStore := by
  obtain ⟨next, slot, past, htargets, hstore⟩ := hp.stores i (List.mem_of_getElem? hi) hs
  exact .inr ⟨i, next, slot, past, hi, hs, htargets, hstore⟩

theorem AtYieldStar.canStore {g : Instance} (hp : g.plan.Closed) (h : g.AtYieldStar) :
    g.CanStore := by
  obtain ⟨e, next, hi⟩ := h
  exact canStore_of_suspend hp hi rfl

/-- Behind a suspend instruction a closed plan has the store. -/
theorem goto_canStore {g : Instance} (hp : g.plan.Closed) {i : Instr} {next : Nat}
    (hi : g.instr? = some i) (hs : i.isSuspend = true) (ht : i.targets = [next]) :
    (g.goto next).CanStore := by
  obtain ⟨next', slot, past, htargets, hstore⟩ := hp.stores i (List.mem_of_getElem? hi) hs
  cases ht.symm.trans htargets
  exact .inl ⟨slot, past, hstore⟩

end Instance

section Opened

/-! The functions of the machine that store what an instance is resumed with, with the store itself left
open. -/

variable (host : Host) (k : Instance → Value → Run Turn)

namespace Instance

def delegateDoneBy (g : Instance) (v : Value) : Run Turn :=
  if g.isReturning then g.endDelegation.unwind host (.ret v) else k g.endDelegation v

def delegateResultBy (g : Instance) (result : Value) : Run Turn := do
  let h ← Run.heap
  if h.isPromiseLike result then
    return .stop { g with awaiting := some .delegate } (.awaiting result)
  match malformed? h result with
  | some e => return .stop g.endDelegation (.failed e)
  | none =>
    let v := h.property result "value"
    if (h.property result "done").truthy then g.delegateDoneBy host k v
    else return .stop g (.yielded v)

def passOnBy (g : Instance) (m : Method) (v : Value) : Run Turn := do
  match g.delegation with
  | none => k g v
  | some d =>
    let g := { g with delegation := some { d with received := m } }
    match d.native with
    | some inner => return .pause g (.delegate inner (.ofMethod m v))
    | none =>
      match ← (d.record.forward host m v).attempt with
      | .ok (some result) => g.delegateResultBy host k result
      | .ok none => g.endDelegation.delegateMissing host d.record.iterator m v
      | .error c => g.endDelegation.complete host c

def startDelegationBy (g : Instance) (iterable : Value) : Run Turn := do
  let asyncOnly := (← Run.heap).isAsyncOnly iterable
  let opened := if g.isAsync || asyncOnly then IteratorRecord.ofAsync host iterable
    else IteratorRecord.ofValue host iterable
  g.after host opened fun record => do
    let native := (← Run.heap).nativeGenerator? record.iterator
    let native := if g.isAsync then none else native
    let g := { g with delegation := some ⟨record, .next, native⟩ }
    g.passOnBy host k .next .undefined

def settledBy (g : Instance) (awaiting : Option AwaitKind) : Settlement → Run Turn
  | .fulfilled v =>
    match awaiting with
    | some .delegate => g.delegateResultBy host k v
    | some .result => g.iteratorResult host v
    | some .element => g.bindElement host v
    | some .value | none => k g v
  | .rejected v =>
    match awaiting with
    | some .delegate => g.passOnBy host k .throw v
    | some .result => g.popFrame.unwind host (.throw v)
    | some .element | some .value | none => g.unwind host (.throw v)

def resumedBy (g : Instance) (a : Action) : Run Turn :=
  let awaiting := g.awaiting
  let g := { g with awaiting := none }
  match a with
  | .settled s => g.settledBy host k awaiting s
  | .delegateDone v => g.delegateDoneBy host k v
  | .delegateThrew v => g.delegateThrew host v
  | .next v => g.passOnBy host k .next v
  | .throw v =>
    if g.delegation.isSome then g.passOnBy host k .throw v else g.unwind host (.throw v)
  | .ret v => if g.delegation.isSome then g.passOnBy host k .ret v else g.unwind host (.ret v)

def dispatchBy (g : Instance) (i : Instr) : Run Turn :=
  match i with
  | .store _ _ => k g .undefined
  | .yieldStar operand _ =>
    g.after host (operand.eval host g.scope none) (g.startDelegationBy host k)
  | i => g.dispatch host i

end Instance

theorem resumedBy_storeResume (g : Instance) (a : Action) :
    g.resumedBy host (Instance.storeResume host) a = g.resumed host a := by
  cases a with
  | settled s => cases s <;> rfl
  | next | throw | ret | delegateDone | delegateThrew => rfl

theorem dispatchBy_storeResume (g : Instance) (i : Instr) :
    g.dispatchBy host (Instance.storeResume host) i = g.dispatch host i := by
  cases i <;> rfl

end Opened

/-- Whether a run that stores what an instance is resumed with does so only where it can be stored:
what the store would do elsewhere makes no difference. -/
def StoresInPlace (host : Host) (f : (Instance → Value → Run Turn) → Run Turn) : Prop :=
  ∀ k, (∀ g v, Instance.CanStore g → k g v = g.storeResume host v) → f k = f (Instance.storeResume host)

namespace StoresInPlace

variable {host : Host} {α : Type}

theorem const (x : Run Turn) : StoresInPlace host fun _ => x := fun _ _ => rfl

theorem here {g : Instance} (hg : g.CanStore) (v : Value) : StoresInPlace host fun k => k g v :=
  fun _ hk => hk g v hg

theorem bind {x : Run α} {f : (Instance → Value → Run Turn) → α → Run Turn}
    (h : ∀ a, StoresInPlace host fun k => f k a) : StoresInPlace host fun k => x >>= f k := by
  intro k hk
  exact congrArg (x >>= ·) (funext fun a => h a k hk)

theorem after {g : Instance} {x : Run α} {next : (Instance → Value → Run Turn) → α → Run Turn}
    (h : ∀ a, StoresInPlace host fun k => next k a) :
    StoresInPlace host fun k => g.after host x (next k) := by
  refine bind fun r => ?_
  cases r with
  | ok a => exact h a
  | error c => exact const _

end StoresInPlace

section Stores

variable {host : Host} {g : Instance}

theorem delegateDoneBy_inPlace (hg : g.CanStore) (v : Value) :
    StoresInPlace host fun k => g.delegateDoneBy host k v := by
  unfold Instance.delegateDoneBy
  split
  · exact .const _
  · exact .here (g := g.endDelegation) hg v

theorem delegateResultBy_inPlace (hg : g.CanStore) (result : Value) :
    StoresInPlace host fun k => g.delegateResultBy host k result := by
  refine .bind fun h => ?_
  split
  · exact .const _
  · cases malformed? h result with
    | some e => exact .const _
    | none =>
      dsimp only
      split
      · exact delegateDoneBy_inPlace hg _
      · exact .const _

theorem passOnBy_inPlace (hg : g.CanStore) (m : Method) (v : Value) :
    StoresInPlace host fun k => g.passOnBy host k m v := by
  unfold Instance.passOnBy
  cases g.delegation with
  | none => exact .here hg v
  | some d =>
    obtain ⟨record, received, native⟩ := d
    cases native with
    | some inner => exact .const _
    | none =>
      refine .bind fun r => ?_
      rcases r with c | _ | result
      · exact .const _
      · exact .const _
      · exact delegateResultBy_inPlace
          (g := { g with delegation := some ⟨record, m, none⟩ }) hg result

theorem startDelegationBy_inPlace (hg : g.CanStore) (iterable : Value) :
    StoresInPlace host fun k => g.startDelegationBy host k iterable := by
  refine .bind fun _ => .after fun record => .bind fun h => ?_
  let native := if g.isAsync then none else h.nativeGenerator? record.iterator
  exact passOnBy_inPlace (g := { g with delegation := some ⟨record, .next, native⟩ }) hg _ _

theorem dispatchBy_inPlace (hp : g.plan.Closed) {i : Instr} (hi : g.instr? = some i) :
    StoresInPlace host fun k => g.dispatchBy host k i := by
  cases i with
  | store slot past => exact .here (.inl ⟨slot, past, hi⟩) _
  | yieldStar e next =>
    exact .after fun v => startDelegationBy_inPlace (Instance.AtYieldStar.canStore hp ⟨e, next, hi⟩) v
  | _ => exact .const _

end Stores

/-- Whether an action is one that an instance can be waiting for. What settles comes to an instance that
waits for it, or to one that has just been resumed and neither delegates nor asks an iterator; the value
of a call, or of a delegation that has ended, does not come while an iterator is asked. -/
def Instance.Expects (g : Instance) : Action → Prop
  | .settled (.fulfilled _) => g.awaiting.isSome = true ∨ (g.delegation = none ∧ ¬ g.AtMove)
  | .settled (.rejected _) => g.awaiting.isSome = true ∨ g.delegation = none
  | .next _ | .delegateDone _ => ¬ g.AtMove
  | .throw _ | .ret _ | .delegateThrew _ => True

/-- Whether the instance waits for an iterator that a loop has asked. -/
def AwaitKind.inLoop : AwaitKind → Bool
  | .result | .element => true
  | .value | .delegate => false

/-- Where an instance stands after a pause. -/
structure Instance.Poised (g : Instance) : Prop where
  /-- It waits for an iterator at the step that has asked it. -/
  looping : g.awaiting.any AwaitKind.inLoop = true → g.AtMove
  storing : g.awaiting.any AwaitKind.inLoop = false → g.CanStore
  /-- While it delegates it stands at the instruction that has started that, and awaits nothing else. -/
  delegating : g.delegation.isSome = true →
    g.AtYieldStar ∧ ∀ kind, g.awaiting = some kind → kind = .delegate

/-- Whether a pause hands out something to wait for. -/
def Pause.awaits : Pause → Bool
  | .stop (.awaiting _) => true
  | .stop _ | .delegate _ _ => false

/-- Whether a turn that goes on neither delegates nor awaits, and one that pauses stands as it should,
and awaits something only if it hands that out. -/
def Turn.Poised : Turn → Prop
  | .goOn g => g.delegation = none ∧ g.awaiting = none
  | .pause g p => p.isFinal = false → g.Poised ∧ g.awaiting.isSome = p.awaits

/-- What is left of that when the instance is resumed: it may no longer wait for anything. -/
structure Instance.Placed (g : Instance) : Prop where
  awaits : ∀ kind, g.awaiting = some kind → (kind.inLoop = true ↔ g.AtMove)
  stands : ¬ g.AtMove → g.CanStore
  delegates : g.delegation.isSome = true →
    g.AtYieldStar ∧ ∀ kind, g.awaiting = some kind → kind = .delegate

section Resuming

variable {host : Host} {g g' : Instance}

theorem Instance.Poised.placed (h : g.Poised) (hb : g.MayBecome g')
    (hd : g'.delegation = g.delegation) : g'.Placed := by
  have hinstr : g'.instr? = g.instr? := by rw [Instance.instr?, Instance.instr?, hb.plan_eq, hb.ip_eq]
  have hmove : g'.AtMove ↔ g.AtMove := by rw [Instance.AtMove, Instance.AtMove, hinstr]
  have hstore : g'.CanStore ↔ g.CanStore := by
    rw [Instance.CanStore, Instance.CanStore, hinstr, hb.plan_eq]
  have hkind {kind : AwaitKind} (hk : g'.awaiting = some kind) : g.awaiting = some kind := by
    obtain ha | ha := hb.awaiting_eq
    · rwa [ha] at hk
    · rw [ha] at hk
      cases hk
  refine ⟨fun kind hk => ?_, fun hn => ?_, fun hs => ?_⟩
  · rw [hmove]
    refine ⟨fun hl => h.looping (by rw [hkind hk]; exact hl), fun hm => ?_⟩
    cases hl : kind.inLoop with
    | true => rfl
    | false => exact absurd (h.storing (by rw [hkind hk]; exact hl)) hm.not_canStore
  · rw [hstore]
    cases hl : g.awaiting.any AwaitKind.inLoop with
    | true => exact absurd (hmove.2 (h.looping hl)) hn
    | false => exact h.storing hl
  · rw [hd] at hs
    obtain ⟨hat, hkinds⟩ := h.delegating hs
    exact ⟨by rwa [Instance.AtYieldStar, hinstr], fun kind hk => hkinds kind (hkind hk)⟩

theorem Instance.Placed.canStore (h : g.Placed) {kind : AwaitKind} (hk : g.awaiting = some kind)
    (hl : kind.inLoop = false) : g.CanStore :=
  h.stands fun hm => by rw [(h.awaits kind hk).2 hm] at hl; cases hl

theorem Instance.Placed.delegating (hp : g.plan.Closed) (h : g.Placed)
    (hd : g.delegation.isSome = true) : g.CanStore :=
  (h.delegates hd).1.canStore hp

theorem settledBy_inPlace (h : g.Placed) {s : Settlement} (he : g.Expects (.settled s)) :
    StoresInPlace host fun k =>
      ({ g with awaiting := none } : Instance).settledBy host k g.awaiting s := by
  cases hk : g.awaiting with
  | none =>
    cases s with
    | fulfilled v =>
      refine .here (g := { g with awaiting := none }) (h.stands ?_) v
      rw [Instance.Expects, hk] at he
      exact (he.resolve_left (by rintro ⟨⟩)).2
    | rejected v => exact .const _
  | some kind =>
    have hstore (hl : kind.inLoop = false) := h.canStore hk hl
    cases s with
    | fulfilled v =>
      cases kind with
      | value => exact .here (g := { g with awaiting := none }) (hstore rfl) v
      | delegate => exact delegateResultBy_inPlace (g := { g with awaiting := none }) (hstore rfl) v
      | result | element => exact .const _
    | rejected v =>
      cases kind with
      | delegate => exact passOnBy_inPlace (g := { g with awaiting := none }) (hstore rfl) _ v
      | value | result | element => exact .const _

/-- What an instance expects is stored where it can be. -/
theorem resumedBy_inPlace (hp : g.plan.Closed) (h : g.Placed) {a : Action} (he : g.Expects a) :
    StoresInPlace host fun k => g.resumedBy host k a := by
  cases a with
  | settled s => exact settledBy_inPlace h he
  | delegateDone v => exact delegateDoneBy_inPlace (g := { g with awaiting := none }) (h.stands he) v
  | delegateThrew v => exact .const _
  | next v => exact passOnBy_inPlace (g := { g with awaiting := none }) (h.stands he) _ v
  | throw v | ret v =>
    unfold Instance.resumedBy
    dsimp only
    split
    · rename_i hd
      exact passOnBy_inPlace (g := { g with awaiting := none }) (h.delegating (g := g) hp hd) _ v
    · exact .const _

end Resuming

section Pauses

variable {host : Host} {g : Instance}

theorem poised_of_proceeds {plan : Plan} {x : Run Turn} (h : Gives (Turn.Proceeds plan none none) x) :
    Gives Turn.Poised x := by
  intro w t w' hx
  have ht := h w t w' hx
  cases t with
  | goOn g => exact ht.2
  | pause g p => exact fun hp => by cases (show p.isFinal = true from ht).symm.trans hp

theorem poised_of_idle (hd : g.delegation = none) (ha : g.awaiting = none) {x : Run Turn}
    (h : Gives (Turn.Proceeds g.plan g.delegation g.awaiting) x) : Gives Turn.Poised x := by
  rw [hd, ha] at h
  exact poised_of_proceeds h

theorem Instance.CanStore.poised (h : g.CanStore) (hd : g.delegation.isSome = true → g.AtYieldStar)
    (ha : g.awaiting = none ∨ g.awaiting = some .delegate) : g.Poised := by
  refine ⟨fun hl => ?_, fun _ => h, fun hs => ⟨hd hs, fun kind hk => ?_⟩⟩
  · obtain ha | ha := ha <;> · rw [ha] at hl; cases hl
  · obtain ha | ha := ha
    · rw [ha] at hk
      cases hk
    · rw [ha] at hk
      cases hk
      rfl

theorem delegateResult_poised (hg : g.CanStore) (hd : g.delegation.isSome = true → g.AtYieldStar)
    (ha : g.awaiting = none) (result : Value) :
    Gives Turn.Poised (g.delegateResult host result) := by
  refine .bind fun h => ?_
  split
  · exact .pure fun _ => ⟨Instance.CanStore.poised
      (g := { g with awaiting := some .delegate }) hg hd (.inr rfl), rfl⟩
  · cases malformed? h result with
    | some e => exact .pure fun hf => by cases hf
    | none =>
      dsimp only
      split
      · have hdone := delegateDone_proceeds host (g := g) (h.property result "value")
        exact poised_of_proceeds (ha ▸ hdone)
      · exact .pure fun _ => ⟨hg.poised hd (.inl ha), congrArg Option.isSome ha⟩

theorem passOn_poised (hp : g.plan.Closed) (hd : g.delegation.isSome = true → g.AtYieldStar)
    (ha : g.awaiting = none) (m : Method) (v : Value) :
    Gives Turn.Poised (g.passOn host m v) := by
  unfold Instance.passOn
  cases hdel : g.delegation with
  | none => exact poised_of_idle hdel ha (storeResume_proceeds host v)
  | some d =>
    have hat := hd (by rw [hdel]; rfl)
    obtain ⟨record, received, native⟩ := d
    let waiting : Instance := { g with delegation := some ⟨record, m, native⟩ }
    cases native with
    | some inner =>
      exact .pure fun _ =>
        ⟨Instance.CanStore.poised (g := waiting) (hat.canStore hp) (fun _ => hat) (.inl ha),
          congrArg Option.isSome ha⟩
    | none =>
      refine .bind fun r => ?_
      rcases r with c | _ | result
      · exact poised_of_idle (g := waiting.endDelegation) rfl ha (complete_proceeds host c)
      · exact poised_of_idle (g := waiting.endDelegation) rfl ha (delegateMissing_proceeds host _ m v)
      · exact delegateResult_poised (g := waiting) (hat.canStore hp) (fun _ => hat) ha result

theorem startDelegation_poised (hp : g.plan.Closed) (hat : g.AtYieldStar) (hd : g.delegation = none)
    (ha : g.awaiting = none) (iterable : Value) :
    Gives Turn.Poised (g.startDelegation host iterable) := by
  refine .bind fun _ => .bind fun r => ?_
  cases r with
  | error c => exact poised_of_idle hd ha (complete_proceeds host c)
  | ok record =>
    refine .bind fun h => ?_
    let native := if g.isAsync then none else h.nativeGenerator? record.iterator
    exact passOn_poised (g := { g with delegation := some ⟨record, .next, native⟩ }) hp
      (fun _ => hat) ha _ _

theorem Instance.AtMove.poised (h : g.AtMove) (hd : g.delegation = none) {kind : AwaitKind}
    (hl : kind.inLoop = true) : ({ g with awaiting := some kind } : Instance).Poised := by
  refine ⟨fun _ => h, fun hn => ?_, fun hs => ?_⟩
  · cases hl.symm.trans hn
  · rw [show ({ g with awaiting := some kind } : Instance).delegation = none from hd] at hs
    cases hs

theorem iteratorResult_poised (hat : g.AtMove) (hd : g.delegation = none) (ha : g.awaiting = none)
    (result : Value) : Gives Turn.Poised (g.iteratorResult host result) := by
  refine .bind fun h => ?_
  cases malformed? h result with
  | some e => exact .pure fun hf => by cases hf
  | none =>
    dsimp only
    split
    · obtain ⟨kind, pattern, body, exit, isAsync, hi⟩ := hat
      rw [hi]
      exact .pure ⟨hd, ha⟩
    · split
      · exact .pure fun _ => ⟨hat.poised hd rfl, rfl⟩
      · exact poised_of_idle hd ha (bindElement_proceeds host _)

theorem moveNext_poised (hat : g.AtMove) (hd : g.delegation = none) (ha : g.awaiting = none)
    (isAsync : Bool) : Gives Turn.Poised (g.moveNext host isAsync) := by
  unfold Instance.moveNext
  cases g.iterator? with
  | none => exact .bind fun e => poised_of_idle hd ha (unwind_proceeds host _)
  | some record =>
    refine .bind fun r => ?_
    cases r with
    | error c => exact poised_of_idle (g := g.popFrame) hd ha (complete_proceeds host c)
    | ok result =>
      dsimp only
      split
      · exact .pure fun _ => ⟨hat.poised hd rfl, rfl⟩
      · exact iteratorResult_poised hat hd ha result

theorem stop_poised {next : Nat} (hg : (g.goto next).CanStore) (hd : g.delegation = none)
    {awaiting : Option AwaitKind} (ha : awaiting.any AwaitKind.inLoop = false) :
    ({ g.goto next with awaiting } : Instance).Poised := by
  refine ⟨fun hl => ?_, fun _ => hg, fun hs => ?_⟩
  · cases ha.symm.trans hl
  · rw [show ({ g.goto next with awaiting } : Instance).delegation = none from hd] at hs
    cases hs

theorem dispatch_poised (hp : g.plan.Closed) (hd : g.delegation = none) (ha : g.awaiting = none)
    {i : Instr} (hi : g.instr? = some i) : Gives Turn.Poised (g.dispatch host i) := by
  have hafter {α : Type} (x : Run α) {next : α → Run Turn} (hn : ∀ a, Gives Turn.Poised (next a)) :
      Gives Turn.Poised (g.after host x next) := by
    refine .bind fun r => ?_
    cases r with
    | ok a => exact hn a
    | error c => exact poised_of_idle hd ha (complete_proceeds host c)
  cases i with
  | yield operand next =>
    have hnext : (g.goto next).CanStore := Instance.goto_canStore hp hi rfl rfl
    exact hafter _ fun v => .pure fun _ =>
      ⟨stop_poised hnext hd (by rw [ha]; rfl), congrArg Option.isSome ha⟩
  | await operand next =>
    have hnext : (g.goto next).CanStore := Instance.goto_canStore hp hi rfl rfl
    exact hafter _ fun v => .pure fun _ => ⟨stop_poised hnext hd rfl, rfl⟩
  | yieldStar operand next =>
    exact hafter _ fun v => startDelegation_poised hp ⟨operand, next, hi⟩ hd ha v
  | moveNext => exact moveNext_poised ⟨_, _, _, _, _, hi⟩ hd ha _
  | _ => exact poised_of_idle hd ha (dispatch_proceeds host rfl (by simp))

theorem Instance.Placed.idle (h : g.Placed) {kind : AwaitKind} (hk : g.awaiting = some kind)
    (hne : kind ≠ .delegate) : g.delegation = none := by
  cases hd : g.delegation with
  | none => rfl
  | some d => exact absurd ((h.delegates (by rw [hd]; rfl)).2 kind hk) hne

theorem settled_poised (hp : g.plan.Closed) (h : g.Placed) {s : Settlement}
    (he : g.Expects (.settled s)) :
    Gives Turn.Poised (({ g with awaiting := none } : Instance).settled host g.awaiting s) := by
  let free : Instance := { g with awaiting := none }
  cases hk : g.awaiting with
  | none =>
    have hd : g.delegation = none := by
      cases s with
      | fulfilled v =>
        rw [Instance.Expects, hk] at he
        exact (he.resolve_left (by rintro ⟨⟩)).1
      | rejected v =>
        rw [Instance.Expects, hk] at he
        exact he.resolve_left (by rintro ⟨⟩)
    cases s with
    | fulfilled v => exact poised_of_idle (g := free) hd rfl (storeResume_proceeds host v)
    | rejected v => exact poised_of_idle (g := free) hd rfl (unwind_proceeds host _)
  | some kind =>
    have hidle := h.idle hk
    have hmove (hl : kind.inLoop = true) : free.AtMove := (h.awaits kind hk).1 hl
    have hstar (hd : free.delegation.isSome = true) : free.AtYieldStar := (h.delegates hd).1
    cases s with
    | fulfilled v =>
      cases kind with
      | value => exact poised_of_idle (g := free) (hidle (by simp)) rfl (storeResume_proceeds host v)
      | delegate => exact delegateResult_poised (g := free) (h.canStore hk rfl) hstar rfl v
      | result => exact iteratorResult_poised (g := free) (hmove rfl) (hidle (by simp)) rfl v
      | element => exact poised_of_idle (g := free) (hidle (by simp)) rfl (bindElement_proceeds host v)
    | rejected v =>
      cases kind with
      | value | element =>
        exact poised_of_idle (g := free) (hidle (by simp)) rfl (unwind_proceeds host _)
      | result =>
        exact poised_of_idle (g := free.popFrame) (hidle (by simp)) rfl (unwind_proceeds host _)
      | delegate => exact passOn_poised (g := free) hp hstar rfl _ v

theorem resumed_poised (hp : g.plan.Closed) (h : g.Placed) {a : Action} (he : g.Expects a) :
    Gives Turn.Poised (g.resumed host a) := by
  let free : Instance := { g with awaiting := none }
  have hstar (hd : free.delegation.isSome = true) : free.AtYieldStar := (h.delegates hd).1
  cases a with
  | settled s => exact settled_poised hp h he
  | delegateDone v => exact poised_of_proceeds (delegateDone_proceeds (g := free) host v)
  | delegateThrew v =>
    exact poised_of_idle (g := free.endDelegation) rfl rfl (unwind_proceeds host _)
  | next v => exact passOn_poised (g := free) hp hstar rfl _ v
  | throw v | ret v =>
    unfold Instance.resumed
    dsimp only
    split
    · exact passOn_poised (g := free) hp hstar rfl _ v
    · rename_i hd
      have hd : free.delegation = none := Option.not_isSome_iff_eq_none.1 hd
      exact poised_of_idle (g := free) hd rfl (unwind_proceeds host _)

end Pauses

/-- The turns of an instance in those of its runs in which each resumption is expected. Between a pause
and the next resumption it may have been told to wait no longer. -/
inductive WaitedFor (host : Host) (first : Instance) : Turn → Prop where
  | start (a : Action) : WaitedFor host first (first.started a)
  | dispatch {g : Instance} {i : Instr} {t : Turn} {w w' : World} : WaitedFor host first (.goOn g) →
    g.instr? = some i → g.dispatch host i w = .done t w' → WaitedFor host first t
  | resume {g g' : Instance} {p : Pause} {a : Action} {t : Turn} {w w' : World} :
    WaitedFor host first (.pause g p) → p.isFinal = false → g.MayBecome g' →
    g'.delegation = g.delegation → g'.Expects a → g'.resumed host a w = .done t w' →
    WaitedFor host first t

section WaitedFor

variable {host : Host} {first : Instance} {t : Turn}

theorem WaitedFor.reached (h : WaitedFor host first t) : Reached host first t := by
  induction h with
  | start a => exact .start a
  | dispatch _ hi hd ih => exact ih.dispatch hi hd
  | resume _ hp hb _ _ hr ih => exact ih.resume hp hb hr

theorem WaitedFor.poised {plan : Plan} {base : ScopeId} {isAsync : Bool} (hp : plan.Closed)
    (h : WaitedFor host (.running plan base isAsync) t) : t.Poised := by
  induction h with
  | start a =>
    cases a with
    | throw | ret => exact fun hf => by cases hf
    | next | settled | delegateDone | delegateThrew => exact ⟨rfl, rfl⟩
  | @dispatch g i t w w' hs hi hd ih =>
    have hplan : g.plan = plan := (hs.reached.within hp).plan_eq
    exact dispatch_poised (hplan ▸ hp) ih.1 ih.2 hi w t w' hd
  | @resume g g' p a t w w' hs hf hb hsame he hr ih =>
    have hplan : g'.plan = plan := hb.plan_eq.trans (hs.reached.within hp).plan_eq
    exact resumed_poised (hplan ▸ hp) ((ih hf).1.placed hb hsame) he w t w' hr

end WaitedFor

/-- Whether a turn, and all that can come next, keeps to the places where values are stored. -/
structure Turn.KeepsCursor (host : Host) (t : Turn) : Prop where
  /-- An instruction stores only where a value can be stored. -/
  dispatches : ∀ g i, t = .goOn g → g.instr? = some i →
    StoresInPlace host fun k => g.dispatchBy host k i
  /-- So does a resumption that the instance expects. -/
  resumes : ∀ g p g' a, t = .pause g p → p.isFinal = false → g.MayBecome g' →
    g'.delegation = g.delegation → g'.Expects a → StoresInPlace host fun k => g'.resumedBy host k a
  /-- An instance that delegates when it pauses stands at the `yield*`. -/
  delegates : ∀ g p, t = .pause g p → p.isFinal = false → g.delegation.isSome = true → g.AtYieldStar

theorem WaitedFor.keepsCursor {host : Host} {plan : Plan} {base : ScopeId} {isAsync : Bool} {t : Turn}
    (hp : plan.Closed) (ht : WaitedFor host (.running plan base isAsync) t) : t.KeepsCursor host := by
  have hpoised := ht.poised hp
  have hplan : t.subject.plan = plan := (ht.reached.within hp).plan_eq
  refine ⟨?_, ?_, ?_⟩
  · rintro g i rfl hi
    exact dispatchBy_inPlace (hplan ▸ hp) hi
  · rintro g p g' a rfl hf hb hd he
    have hplan' : g'.plan = plan := hb.plan_eq.trans hplan
    exact resumedBy_inPlace (hplan' ▸ hp) ((hpoised hf).1.placed hb hd) he
  · rintro g p rfl hf hd
    exact ((hpoised hf).1.delegating hd).1

/-- In every run of a plan that is built, as long as the instance is resumed with what it expects, a value
is stored only at a store or at a suspend instruction before one, and an instance that delegates stands
at the `yield*` that it delegates for. -/
theorem buildPlan_keeps_cursor {inAsync : Bool} {params : List Pattern} {body : List Stmt} {plan : Plan}
    (hb : buildPlan inAsync params body = .ok plan) (host : Host) (base : ScopeId) (isAsync : Bool)
    {t : Turn} (ht : WaitedFor host (.running plan base isAsync) t) : t.KeepsCursor host :=
  ht.keepsCursor (buildPlan_closed hb)

/-- A `yield` that stands first: the generator stops at its store. -/
theorem buildPlan_keeps_cursor_yield :
    let plan : Plan := ⟨[.ret none, .store none 0, .yield none 1], 2, []⟩
    let stopped := (Instance.running plan 0 false).goto 1
    buildPlan false [] [.expr (.yield none)] = .ok plan ∧
      WaitedFor (.withFuel 1) (.running plan 0 false) (.stop stopped (.yielded .undefined)) ∧
      (Turn.stop stopped (.yielded .undefined)).KeepsCursor (.withFuel 1) := by
  intro plan stopped
  have hb : buildPlan false [] [.expr (.yield none)] = .ok plan := rfl
  have hs : WaitedFor (.withFuel 1) (.running plan 0 false) (.stop stopped (.yielded .undefined)) :=
    .dispatch (w := World.blank) (.start (.next .undefined)) rfl rfl
  exact ⟨hb, hs, buildPlan_keeps_cursor hb (.withFuel 1) 0 false hs⟩

/-- A generator delegates to `it` and yields after that. A settlement that nobody waits for leaves the
delegation behind: the generator stops at the second `yield`, and still delegates. -/
theorem buildPlan_leaves_delegation :
    let body : List Stmt :=
      [.expr (.yieldStar (some (.ident "it"))), .expr (.yield (some (.ident "it")))]
    let it : Object := ⟨none, ⟨[("next", ⟨.obj 1, true, true⟩), ("done", ⟨.bool false, true, true⟩),
      (WellKnown.iterator.key, ⟨.obj 1, true, true⟩)]⟩, .ordinary⟩
    ∃ plan, buildPlan false [] body = .ok plan ∧ ∃ w₁ w₂ g,
      resumeOne (.withFuel 8) 0 (.next .undefined) { World.blank with
        heap := ⟨#[it, ⟨none, .empty, .function (.native .self)⟩]⟩
        scopes := ⟨#[⟨⟨[("it", ⟨.obj 0, .let, true⟩)]⟩, none⟩]⟩
        instances := #[.start plan 0 false] } = .done (.stop (.yielded .undefined)) w₁ ∧
      resumeOne (.withFuel 8) 0 (.settled (.fulfilled .undefined)) w₁ =
        .done (.stop (.yielded (.obj 0))) w₂ ∧
      w₂.instances[0]? = some g ∧ g.status = .suspendedYield ∧ g.delegation.isSome = true ∧
      g.instr? = some (.store none 0) :=
  ⟨_, rfl, _, _, _, by cbv, by cbv, by cbv, rfl, rfl, rfl⟩

end Resumable
