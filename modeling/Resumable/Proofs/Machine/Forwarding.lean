import Mathlib
import Resumable.Proofs.Closing.Uses
import Resumable.Proofs.Machine.Bounds
import Resumable.Proofs.Machine.Finally

/-!
Delegation to an iterator that is not a generator of the machine itself. `Passed` is the protocol,
told without the machine: what is asked of the iterator when one call is passed on, and what the
answer means. Main statement: `delegation_follows_protocol`: from the step that opens the iterator on,
through any sequence of calls, a generator follows the protocol and asks for nothing else.
-/

set_option autoImplicit false

namespace Resumable

open RunOn (Gives)

/-- A call of a generator, and the world in which it is made. -/
structure OuterCall where
  method : Method
  value : Value
  world : World

structure InnerCall where
  method : Method
  args : List Value

/-- The call of an iterator as which a call of the generator is passed on. -/
def OuterCall.passedOn (c : OuterCall) : InnerCall := ⟨c.method, [c.value]⟩

/-- What becomes of a delegation when a call has been passed on. -/
inductive Fate where
  | yields (v : Value)
  | gives (v : Value)
  | ends (c : Abrupt)

/-- What the result of a call means. -/
inductive Means (h : Heap) : Method → Value → Fate → Prop where
  | notAnObject {m : Method} {result : Value} : result.isObject = false →
    Means h m result (.ends (.fatal (.notAnObject (h.typeof result))))
  | noDone {m : Method} {id : ObjectId} : h.hasProperty id "done" = false →
    Means h m (.obj id) (.ends (.fatal .noDone))
  | notDone {m : Method} {id : ObjectId} : h.hasProperty id "done" = true →
    (h.property (.obj id) "done").truthy = false →
    Means h m (.obj id) (.yields (h.property (.obj id) "value"))
  | done {m : Method} {id : ObjectId} : (h.property (.obj id) "done").truthy = true → m ≠ .ret →
    Means h m (.obj id) (.gives (h.property (.obj id) "value"))
  | returned {id : ObjectId} : (h.property (.obj id) "done").truthy = true →
    Means h .ret (.obj id) (.ends (.ret (h.property (.obj id) "value")))

/-- What is called for a method: the `next` that the iterator had when it was opened, and any other
method that it has now. -/
def IteratorRecord.callee (r : IteratorRecord) (h : Heap) : Method → Value
  | .next => r.next
  | .throw => h.property r.iterator "throw"
  | .ret => h.property r.iterator "return"

/-- The message of the error if a method cannot be called. -/
def Method.complaint : Method → String
  | .next => "iterator.next is not a function"
  | .throw => "throw is not a function"
  | .ret => "return is not a function"

/-- Throws a new error. -/
inductive Complains (message : String) (w : World) : Abrupt → World → Prop where
  | mk {e : ObjectId} {w' : World} : Edit.newError .typeError message w = (e, w') →
    Complains message w (.throw (.obj e)) w'

section Protocol

variable (host : Host) (r : IteratorRecord)

/-- The end of a delegation to an iterator without a method `throw`: the iterator is closed, and
unless that fails itself, the lack of the method is an error. -/
inductive GivesUp (w : World) : List InnerCall → Abrupt → World → Prop where
  | absent {c : Abrupt} {w' : World} : (r.callee w.heap .ret).isNullish = true →
    Complains "The iterator does not provide a 'throw' method" w c w' → GivesUp w [] c w'
  | notCallable {c : Abrupt} {w' : World} : (r.callee w.heap .ret).isNullish = false →
    w.heap.isCallable (r.callee w.heap .ret) = false → Complains Method.ret.complaint w c w' →
    GivesUp w [] c w'
  | closed {result : Value} {c : Abrupt} {w₁ w' : World} :
    w.heap.isCallable (r.callee w.heap .ret) = true →
    host.call (r.callee w.heap .ret) r.iterator [] w = .done result w₁ → result.isObject = true →
    Complains "The iterator does not provide a 'throw' method" w₁ c w' → GivesUp w [⟨.ret, []⟩] c w'
  | notAnObject {result : Value} {c : Abrupt} {w₁ w' : World} :
    w.heap.isCallable (r.callee w.heap .ret) = true →
    host.call (r.callee w.heap .ret) r.iterator [] w = .done result w₁ → result.isObject = false →
    Complains "iterator result is not an object" w₁ c w' → GivesUp w [⟨.ret, []⟩] c w'
  | threw {c : Abrupt} {w' : World} : w.heap.isCallable (r.callee w.heap .ret) = true →
    host.call (r.callee w.heap .ret) r.iterator [] w = .abrupt c w' → GivesUp w [⟨.ret, []⟩] c w'

/-- One call passed on: the calls that the iterator gets, and what becomes of the delegation. -/
inductive Passed (w : World) : Method → Value → List InnerCall → Fate → World → Prop where
  | answered {m : Method} {v result : Value} {fate : Fate} {w' : World} :
    w.heap.isCallable (r.callee w.heap m) = true →
    host.call (r.callee w.heap m) r.iterator [v] w = .done result w' → Means w'.heap m result fate →
    Passed w m v [⟨m, [v]⟩] fate w'
  | threw {m : Method} {v : Value} {c : Abrupt} {w' : World} :
    w.heap.isCallable (r.callee w.heap m) = true →
    host.call (r.callee w.heap m) r.iterator [v] w = .abrupt c w' →
    Passed w m v [⟨m, [v]⟩] (.ends c) w'
  | notCallable {m : Method} {v : Value} {c : Abrupt} {w' : World} :
    w.heap.isCallable (r.callee w.heap m) = false →
    (m = .next ∨ (r.callee w.heap m).isNullish = false) → Complains m.complaint w c w' →
    Passed w m v [] (.ends c) w'
  | noReturn {v : Value} : (r.callee w.heap .ret).isNullish = true →
    Passed w .ret v [] (.ends (.ret v)) w
  | noThrow {v : Value} {calls : List InnerCall} {c : Abrupt} {w' : World} :
    (r.callee w.heap .throw).isNullish = true → GivesUp host r w calls c w' →
    Passed w .throw v calls (.ends c) w'

/-- A sequence of calls passed on: the calls that the iterator gets in all, and what becomes of the
delegation at last. -/
inductive Exchanges : List OuterCall → List InnerCall → Fate → World → Prop where
  | first {c : OuterCall} {calls : List InnerCall} {fate : Fate} {w : World} :
    Passed host r c.world c.method c.value calls fate w → Exchanges [c] calls fate w
  | later {cs : List OuterCall} {c : OuterCall} {log calls : List InnerCall} {v : Value}
    {fate : Fate} {w₀ w : World} : Exchanges cs log (.yields v) w₀ →
    Passed host r c.world c.method c.value calls fate w →
    Exchanges (cs ++ [c]) (log ++ calls) fate w

end Protocol

/-- Whether a method, if it can be called and gives a result, gives no promise. -/
def IteratorRecord.AnswersPlainly (host : Host) (r : IteratorRecord) (m : Method) (v : Value)
    (w : World) : Prop :=
  w.heap.isCallable (r.callee w.heap m) = true → ∀ result w',
    host.call (r.callee w.heap m) r.iterator [v] w = .done result w' →
      w'.heap.isPromiseLike result = false

def Fate.follow (host : Host) (g : Instance) : Fate → Run Turn
  | .yields v => return .stop g (.yielded v)
  | .gives v => g.endDelegation.storeResume host v
  | .ends c => g.endDelegation.complete host c

section Answers

variable {host : Host} {r : IteratorRecord} {w w' : World} {m : Method} {v : Value}
  {calls : List InnerCall} {fate : Fate} {c : Abrupt}

theorem isNullish_of_isCallable {h : Heap} {f : Value} (hf : h.isCallable f = true) :
    f.isNullish = false := by
  cases f <;> first | rfl | cases hf

theorem complains (message : String) (w : World) : ∃ c w', Complains message w c w' :=
  ⟨_, _, .mk rfl⟩

theorem Complains.throwType {α : Type} {message : String} (h : Complains message w c w') :
    (Run.throwType message : Run α) w = .abrupt c w' := by
  obtain ⟨h⟩ := h
  simp only [Run.throwType, Run.throwNew, bind, RunOn.bind, liftM, monadLift, MonadLift.monadLift,
    Run.edit, HasWorld.world, id, h]
  rfl

section Methods

variable {f : Value} {key : String}

theorem method?_absent (h : (w.heap.property f key).isNullish = true) :
    (method? f key : Run (Option Value)) w = .done none w := by
  simp [method?, bind, RunOn.bind, Run.heap, Run.read, HasWorld.world, h]
  rfl

theorem method?_found (h : w.heap.isCallable (w.heap.property f key) = true) :
    (method? f key : Run (Option Value)) w = .done (some (w.heap.property f key)) w := by
  simp [method?, bind, RunOn.bind, Run.heap, Run.read, HasWorld.world, h,
    isNullish_of_isCallable h]
  rfl

theorem method?_notCallable (hn : (w.heap.property f key).isNullish = false)
    (hc : w.heap.isCallable (w.heap.property f key) = false)
    (h : Complains (key ++ " is not a function") w c w') :
    (method? f key : Run (Option Value)) w = .abrupt c w' := by
  have hthrow : (Run.throwType (toString key ++ toString " is not a function") : Run PUnit) w =
      .abrupt c w' := h.throwType
  simp [method?, bind, RunOn.bind, Run.heap, Run.read, HasWorld.world, hn, hc, hthrow]

end Methods

theorem forward_found (h : w.heap.isCallable (r.callee w.heap m) = true) :
    r.forward host m v w =
      (do return some (← host.call (r.callee w.heap m) r.iterator [v]) : Run _) w := by
  cases m with
  | next =>
    simp only [IteratorRecord.callee] at h ⊢
    simp [IteratorRecord.forward, IteratorRecord.callNext, bind, RunOn.bind, Run.heap, Run.read,
      HasWorld.world, h]
  | throw | ret =>
    simp only [IteratorRecord.callee] at h ⊢
    simp only [IteratorRecord.forward, Method.name, bind, RunOn.bind, method?_found h]

theorem forward_absent (hm : m ≠ .next) (h : (r.callee w.heap m).isNullish = true) :
    r.forward host m v w = .done none w := by
  cases m with
  | next => exact absurd rfl hm
  | throw | ret =>
    simp only [IteratorRecord.callee] at h
    simp only [IteratorRecord.forward, Method.name, bind, RunOn.bind, method?_absent h]
    rfl

theorem forward_notCallable (hc : w.heap.isCallable (r.callee w.heap m) = false)
    (hn : m = .next ∨ (r.callee w.heap m).isNullish = false)
    (h : Complains m.complaint w c w') : r.forward host m v w = .abrupt c w' := by
  cases m with
  | next =>
    simp only [IteratorRecord.callee] at hc
    have hthrow : (Run.throwType "iterator.next is not a function" : Run PUnit) w = .abrupt c w' :=
      h.throwType
    simp [IteratorRecord.forward, IteratorRecord.callNext, bind, RunOn.bind, Run.heap, Run.read,
      HasWorld.world, hc, hthrow]
  | throw | ret =>
    have hn := hn.resolve_left (by rintro ⟨⟩)
    simp only [IteratorRecord.callee] at hn hc
    simp only [IteratorRecord.forward, Method.name, bind, RunOn.bind, method?_notCallable hn hc h]

theorem exists_means (h : Heap) (m : Method) (result : Value) : ∃ fate, Means h m result fate := by
  cases result with
  | obj id =>
    cases hdone : h.hasProperty id "done" with
    | false => exact ⟨_, .noDone hdone⟩
    | true =>
      cases htruthy : (h.property (.obj id) "done").truthy with
      | false => exact ⟨_, .notDone hdone htruthy⟩
      | true =>
        by_cases hm : m = .ret
        · subst hm
          exact ⟨_, .returned htruthy⟩
        · exact ⟨_, .done htruthy hm⟩
  | undefined | null | bool | num | str | sym => exact ⟨_, .notAnObject rfl⟩

theorem hasProperty_of_truthy {h : Heap} {id : ObjectId} {key : String}
    (ht : (h.property (.obj id) key).truthy = true) : h.hasProperty id key = true := by
  rw [Heap.hasProperty]
  cases hp : h.property? id key with
  | some v => rfl
  | none =>
    simp only [Heap.property, hp, Option.getD_none] at ht
    cases ht

theorem delegateResult_follow {g : Instance} {d : Delegation} {result : Value}
    (hd : g.delegation = some d) (hm : d.received = m)
    (hplain : w.heap.isPromiseLike result = false) (h : Means w.heap m result fate) :
    g.delegateResult host result w = fate.follow host g w := by
  have hreturning : g.isReturning = decide (m = .ret) := by
    simp [Instance.isReturning, hd, hm]
  have hbad (e : Fatal) (he : malformed? w.heap result = some e) :
      g.delegateResult host result w = (Fate.ends (.fatal e)).follow host g w := by
    simp [Instance.delegateResult, bind, RunOn.bind, Run.heap, Run.read, HasWorld.world, hplain, he]
    rfl
  have hgood (hm : malformed? w.heap result = none) : g.delegateResult host result w =
      (if (w.heap.property result "done").truthy then
        g.delegateDone host (w.heap.property result "value")
      else return .stop g (.yielded (w.heap.property result "value"))) w := by
    simp [Instance.delegateResult, bind, RunOn.bind, Run.heap, Run.read, HasWorld.world, hplain, hm]
  cases h with
  | notAnObject hobject =>
    refine hbad _ ?_
    cases result with
    | obj => cases hobject
    | undefined | null | bool | num | str | sym => rfl
  | noDone hdone => exact hbad _ (by simp [malformed?, hdone])
  | notDone hdone htruthy =>
    rw [hgood (by simp [malformed?, hdone]), htruthy]
    rfl
  | done htruthy hne =>
    rw [hgood (by simp [malformed?, hasProperty_of_truthy htruthy]), htruthy, if_pos rfl,
      Instance.delegateDone, hreturning, decide_eq_false hne]
    rfl
  | returned htruthy =>
    rw [hgood (by simp [malformed?, hasProperty_of_truthy htruthy]), htruthy, if_pos rfl,
      Instance.delegateDone, hreturning]
    rfl

theorem callReturn_abrupt {iterator : Value}
    (h : callReturn host iterator w = .abrupt c w') :
    closeIterator host iterator false w = .abrupt c w' := by
  simp only [closeIterator, bind, RunOn.bind, RunOn.attempt, h]
  cases c <;> rfl

/-- An iterator without a method `throw` is closed before the delegation fails. -/
theorem delegateMissing_follow {g : Instance} (h : GivesUp host r w calls c w') :
    g.delegateMissing host r.iterator .throw v w = g.complete host c w' := by
  have hfailed (hclose : callReturn host r.iterator w = .abrupt c w') :
      g.delegateMissing host r.iterator .throw v w = g.complete host c w' := by
    simp only [Instance.delegateMissing, Instance.after, bind, RunOn.bind, RunOn.attempt,
      callReturn_abrupt hclose]
  have hclosed {w₁ : World} (hclose : closeIterator host r.iterator false w = .done () w₁)
      (hmissing : Complains "The iterator does not provide a 'throw' method" w₁ c w') :
      g.delegateMissing host r.iterator .throw v w = g.complete host c w' := by
    obtain ⟨he⟩ := hmissing
    rw [Instance.delegateMissing, after_done hclose]
    simp only [bind, RunOn.bind, liftM, monadLift, MonadLift.monadLift, Run.edit, HasWorld.world,
      id, he]
    rfl
  have hcloses := closesOnce host r.iterator w
  cases h with
  | absent hnull hmissing => exact hclosed (hcloses.absent hnull false) hmissing
  | notCallable hn hc hthrow =>
    refine hfailed ?_
    simp only [callReturn, bind, RunOn.bind, method?_notCallable hn hc hthrow]
  | closed hc hcall hobject hmissing =>
    exact hclosed (hcloses.returned _ _ _ rfl (isNullish_of_isCallable hc) hc hcall hobject false)
      hmissing
  | notAnObject hc hcall hobject hthrow =>
    refine hfailed ?_
    simp only [IteratorRecord.callee] at hc hcall
    have hthrow : (Run.throwType "iterator result is not an object" : Run PUnit) _ = .abrupt c w' :=
      hthrow.throwType
    simp [callReturn, bind, RunOn.bind, method?_found hc, hcall, hobject, hthrow]
  | threw hc hcall =>
    refine hfailed ?_
    simp only [IteratorRecord.callee] at hc hcall
    simp only [callReturn, bind, RunOn.bind, method?_found hc, hcall]

theorem exists_givesUp (hcall : w.heap.isCallable (r.callee w.heap .ret) = true →
      host.call (r.callee w.heap .ret) r.iterator [] w ≠ .exhausted) :
    ∃ calls c w', GivesUp host r w calls c w' := by
  cases hc : w.heap.isCallable (r.callee w.heap .ret) with
  | true =>
    cases hr : host.call (r.callee w.heap .ret) r.iterator [] w with
    | done result w₁ =>
      cases hobject : result.isObject with
      | true =>
        obtain ⟨c, w', hmissing⟩ :=
          complains "The iterator does not provide a 'throw' method" w₁
        exact ⟨_, _, _, .closed hc hr hobject hmissing⟩
      | false =>
        obtain ⟨c, w', hthrow⟩ := complains "iterator result is not an object" w₁
        exact ⟨_, _, _, .notAnObject hc hr hobject hthrow⟩
    | abrupt c w₁ => exact ⟨_, _, _, .threw hc hr⟩
    | exhausted => exact absurd hr (hcall hc)
  | false =>
    cases hn : (r.callee w.heap .ret).isNullish with
    | true =>
      obtain ⟨c, w', hmissing⟩ := complains "The iterator does not provide a 'throw' method" w
      exact ⟨_, _, _, .absent hn hmissing⟩
    | false =>
      obtain ⟨c, w', hthrow⟩ := complains Method.ret.complaint w
      exact ⟨_, _, _, .notCallable hn hc hthrow⟩

end Answers

section Steps

variable {host : Host} {g : Instance} {d : Delegation} {w w' : World} {m : Method} {v : Value}
  {calls : List InnerCall} {fate : Fate}

theorem passOn_apply (hd : g.delegation = some d) (hnative : d.native = none) :
    g.passOn host m v w = (do
      match ← (d.record.forward host m v).attempt with
      | .ok (some result) =>
        Instance.delegateResult host { g with delegation := some { d with received := m } } result
      | .ok none => g.endDelegation.delegateMissing host d.record.iterator m v
      | .error c => g.endDelegation.complete host c : Run Turn) w := by
  simp only [Instance.passOn, hd, hnative]
  rfl

theorem passOn_follow (hd : g.delegation = some d) (hnative : d.native = none)
    (hplain : d.record.AnswersPlainly host m v w) (h : Passed host d.record w m v calls fate w') :
    g.passOn host m v w =
      fate.follow host { g with delegation := some { d with received := m } } w' := by
  have hpass : g.passOn host m v w = _ := passOn_apply hd hnative
  have hfailed {c : Abrupt} (hf : d.record.forward host m v w = .abrupt c w') :
      g.passOn host m v w = g.endDelegation.complete host c w' := by
    rw [hpass]
    simp only [bind, RunOn.bind, RunOn.attempt, hf]
  cases h with
  | answered hc hcall hmeans =>
    rw [hpass]
    simp only [bind, RunOn.bind, RunOn.attempt, forward_found hc, hcall]
    exact delegateResult_follow rfl rfl (hplain hc _ _ hcall) hmeans
  | threw hc hcall =>
    refine hfailed ?_
    simp only [forward_found hc, bind, RunOn.bind, hcall]
  | notCallable hc hn hthrow => exact hfailed (forward_notCallable hc hn hthrow)
  | noReturn hnull =>
    have habsent : d.record.forward host .ret v w = .done none w := forward_absent (by rintro ⟨⟩) hnull
    rw [hpass]
    simp only [bind, RunOn.bind, RunOn.attempt, habsent]
    rfl
  | noThrow hnull hgives =>
    have habsent : d.record.forward host .throw v w = .done none w := forward_absent (by rintro ⟨⟩) hnull
    rw [hpass]
    simp only [bind, RunOn.bind, RunOn.attempt, habsent]
    exact delegateMissing_follow hgives

theorem exists_passed {t : Turn} {w₁ : World} (hd : g.delegation = some d)
    (hnative : d.native = none) (h : g.passOn host m v w = .done t w₁) :
    ∃ calls fate w', Passed host d.record w m v calls fate w' := by
  cases hc : w.heap.isCallable (d.record.callee w.heap m) with
  | true =>
    cases hcall : host.call (d.record.callee w.heap m) d.record.iterator [v] w with
    | done result w' =>
      obtain ⟨fate, hmeans⟩ := exists_means w'.heap m result
      exact ⟨_, _, _, .answered hc hcall hmeans⟩
    | abrupt c w' => exact ⟨_, _, _, .threw hc hcall⟩
    | exhausted =>
      simp only [Instance.passOn, hd, hnative, bind, RunOn.bind, RunOn.attempt, forward_found hc,
        hcall] at h
      cases h
  | false =>
    by_cases hn : m = .next ∨ (d.record.callee w.heap m).isNullish = false
    · obtain ⟨c, w', hthrow⟩ := complains m.complaint w
      exact ⟨_, _, _, .notCallable hc hn hthrow⟩
    · simp only [not_or, Bool.not_eq_false] at hn
      obtain ⟨hm, hnull⟩ := hn
      cases m with
      | next => exact absurd rfl hm
      | ret => exact ⟨_, _, _, .noReturn hnull⟩
      | throw =>
        have habsent : d.record.forward host .throw v w = .done none w := forward_absent nofun hnull
        have hends : w.heap.isCallable (d.record.callee w.heap .ret) = true →
            host.call (d.record.callee w.heap .ret) d.record.iterator [] w ≠ .exhausted := by
          intro hc hcall
          have hclose : callReturn host d.record.iterator w = .exhausted := by
            simp only [IteratorRecord.callee] at hc hcall
            simp only [callReturn, bind, RunOn.bind, method?_found hc, hcall]
          simp only [Instance.passOn, hd, hnative, bind, RunOn.bind, RunOn.attempt, habsent,
            Instance.delegateMissing, Instance.after, closeIterator, hclose] at h
          cases h
        obtain ⟨calls, c, w', hgives⟩ := exists_givesUp hends
        exact ⟨_, _, _, .noThrow hnull hgives⟩

theorem resumed_delegating (hd : g.delegation = some d) :
    g.resumed host (.ofMethod m v) = Instance.passOn host { g with awaiting := none } m v := by
  cases m with
  | next => rfl
  | throw | ret => simp [Action.ofMethod, Instance.resumed, hd]

def Turn.hasYielded : Turn → Bool
  | .pause _ (.stop (.yielded _)) => true
  | .goOn _ | .pause _ _ => false

theorem Delivered.hasYielded {s : Signal} {fs : List Frame} {t : Turn}
    (h : Delivered host s fs t) : t.hasYielded = false := by
  cases h with
  | arrived _ h => cases h <;> rfl
  | failed => rfl

theorem complete_hasYielded (c : Abrupt) :
    Gives (fun t => t.hasYielded = false) (g.complete host c) := by
  have hunwind (s : Signal) : Gives (fun t => t.hasYielded = false) (g.unwind host s) :=
    fun w t w' h => (unwind_delivered s w t w' h).hasYielded
  have hjump (label : Option String) (isContinue : Bool) :
      Gives (fun t => t.hasYielded = false) (g.jump host label isContinue) := by
    unfold Instance.jump
    cases jumpAmong label isContinue g.loops with
    | some j => exact hunwind _
    | none => exact .bind fun _ => hunwind _
  cases c with
  | ret | throw => exact hunwind _
  | brk | cont => exact hjump _ _
  | fatal => exact .pure rfl

theorem store_hasYielded (slot : Option String) (next : Nat) :
    Gives (fun t => t.hasYielded = false) (g.store host slot next v) := by
  cases slot with
  | none => exact .pure rfl
  | some name =>
    refine .bind fun r => ?_
    cases r with
    | ok => exact .pure rfl
    | error c => exact complete_hasYielded c

end Steps

/-- The iterator to which an instance delegates, opened. -/
def Instance.openDelegate (host : Host) (g : Instance) (iterable : Value) : Run IteratorRecord := do
  let asyncOnly := (← Run.heap).isAsyncOnly iterable
  if g.isAsync || asyncOnly then IteratorRecord.ofAsync host iterable
  else IteratorRecord.ofValue host iterable

theorem startDelegation_foreign {host : Host} {g : Instance} {iterable : Value} {r : IteratorRecord}
    {w w' : World} (hopen : g.openDelegate host iterable w = .done r w')
    (hnative : w'.heap.nativeGenerator? r.iterator = none) :
    g.startDelegation host iterable w =
      Instance.passOn host { g with delegation := some ⟨r, .next, none⟩ } .next .undefined w' := by
  have hstart : g.startDelegation host iterable w =
      g.after host (g.openDelegate host iterable) (fun record => do
        let native := (← Run.heap).nativeGenerator? record.iterator
        let native := if g.isAsync then none else native
        Instance.passOn host { g with delegation := some ⟨record, .next, native⟩ } .next
          .undefined) w := rfl
  rw [hstart, after_done hopen]
  simp only [bind, RunOn.bind, Run.heap, Run.read, HasWorld.world, id, hnative, ite_self]

/-- A delegation of an instance to an iterator, from the instruction that opens it in the world `w₀`
on, through calls of the generator, each made while the generator waits for the next one. The
iterator is no generator of the machine, and its methods give no promises. -/
inductive Delegates (host : Host) (g : Instance) (r : IteratorRecord) (w₀ : World) :
    List OuterCall → Turn → World → Prop where
  | start {operand : Expr} {next : Nat} {iterable : Value} {t : Turn} {w w₁ w' : World} :
    g.instr? = some (.yieldStar operand next) →
    operand.eval host g.scope none w = .done iterable w₁ →
    g.openDelegate host iterable w₁ = .done r w₀ → w₀.heap.nativeGenerator? r.iterator = none →
    r.AnswersPlainly host .next .undefined w₀ →
    g.dispatch host (.yieldStar operand next) w = .done t w' → Delegates host g r w₀ [] t w'
  | call {outer : List OuterCall} {g' : Instance} {v : Value} {c : OuterCall} {t : Turn}
    {w w' : World} : Delegates host g r w₀ outer (.stop g' (.yielded v)) w →
    r.AnswersPlainly host c.method c.value c.world →
    Instance.resumed host { g'.settle (.stop (.yielded v)) with status := .executing }
      (.ofMethod c.method c.value) c.world = .done t w' →
    Delegates host g r w₀ (outer ++ [c]) t w'

/-- What a generator does with the fate of its delegation. The value of a `yield*` is what the store
behind it writes; a completion goes out through the frames around the `yield*`. -/
inductive Ensues (host : Host) (g : Instance) (d : Delegation) (w : World) :
    Fate → Turn → World → Prop where
  | yields {v : Value} :
    Ensues host g d w (.yields v) (.stop { g with delegation := some d } (.yielded v)) w
  | gives {v : Value} {operand : Expr} {next past : Nat} {slot : Option String} {t : Turn}
    {w' : World} : g.instr? = some (.yieldStar operand next) →
    g.plan.get? next = some (.store slot past) →
    (g.endDelegation.goto next).store host slot past v w = .done t w' →
    Ensues host g d w (.gives v) t w'
  | returns {v : Value} {t : Turn} {w' : World} :
    g.endDelegation.unwind host (.ret v) w = .done t w' → Delivered host (.ret v) g.frames t →
    Ensues host g d w (.ends (.ret v)) t w'
  | throws {v : Value} {t : Turn} {w' : World} :
    g.endDelegation.unwind host (.throw v) w = .done t w' → Delivered host (.throw v) g.frames t →
    Ensues host g d w (.ends (.throw v)) t w'
  | fails {e : Fatal} : Ensues host g d w (.ends (.fatal e)) (.stop g.endDelegation (.failed e)) w

section Runs

variable {host : Host} {g : Instance} {r : IteratorRecord} {w₀ w w' : World} {t : Turn}
  {outer : List OuterCall}

/-- As long as the delegation goes on, each call of the generator is one call of the iterator. -/
theorem Passed.yields {m : Method} {v x : Value} {calls : List InnerCall}
    (h : Passed host r w m v calls (.yields x) w') : calls = [⟨m, [v]⟩] := by
  cases h with
  | answered => rfl

theorem Passed.calls {m : Method} {v : Value} {calls : List InnerCall} {fate : Fate}
    (h : Passed host r w m v calls fate w') : calls = [⟨m, [v]⟩] ∨ ∃ c, fate = .ends c := by
  cases h with
  | answered => exact .inl rfl
  | threw | notCallable | noReturn | noThrow => exact .inr ⟨_, rfl⟩

theorem Exchanges.log {cs : List OuterCall} {log : List InnerCall} {fate : Fate}
    (h : Exchanges host r cs log fate w') :
    ∃ earlier c calls, cs = earlier ++ [c] ∧ log = earlier.map (·.passedOn) ++ calls ∧
      Passed host r c.world c.method c.value calls fate w' := by
  induction h with
  | @first c calls _ _ h => exact ⟨[], c, calls, rfl, rfl, h⟩
  | @later cs c _ calls _ _ _ _ _ h ih =>
    obtain ⟨earlier, d, last, rfl, rfl, hlast⟩ := ih
    refine ⟨earlier ++ [d], c, calls, rfl, ?_, h⟩
    rw [hlast.yields]
    simp [OuterCall.passedOn]

theorem Passed.ends_cases (hh : host.Proper) {m : Method} {v : Value} {calls : List InnerCall}
    {c : Abrupt} (h : Passed host r w m v calls (.ends c) w') :
    (∃ x, c = .ret x) ∨ (∃ x, c = .throw x) ∨ ∃ e, c = .fatal e := by
  have hthrown {c : Abrupt} (hc : c.leavesCalls = true) :
      (∃ x, c = .ret x) ∨ (∃ x, c = .throw x) ∨ ∃ e, c = .fatal e := by
    cases c with
    | throw x => exact .inr (.inl ⟨x, rfl⟩)
    | fatal e => exact .inr (.inr ⟨e, rfl⟩)
    | ret | brk | cont => cases hc
  have hcomplains {message : String} {w : World} (h : Complains message w c w') :
      (∃ x, c = .ret x) ∨ (∃ x, c = .throw x) ∨ ∃ e, c = .fatal e := by
    cases h with
    | mk => exact .inr (.inl ⟨_, rfl⟩)
  cases h with
  | answered _ _ hm =>
    cases hm with
    | notAnObject | noDone => exact .inr (.inr ⟨_, rfl⟩)
    | returned => exact .inl ⟨_, rfl⟩
  | threw _ hcall => exact hthrown (hh.call _ _ _ _ _ _ hcall)
  | notCallable _ _ h => exact hcomplains h
  | noReturn => exact .inl ⟨_, rfl⟩
  | noThrow _ h =>
    cases h with
    | absent _ h | notCallable _ _ h | closed _ _ _ h | notAnObject _ _ _ h => exact hcomplains h
    | threw _ hcall => exact hthrown (hh.call _ _ _ _ _ _ hcall)

section At

variable {operand : Expr} {next past : Nat} {slot : Option String}
  (hi : g.instr? = some (.yieldStar operand next))
  (hstore : g.plan.get? next = some (.store slot past))

include hi hstore

theorem storeResume_yieldStar (v : Value) :
    g.endDelegation.storeResume host v = (g.endDelegation.goto next).store host slot past v := by
  have hi : g.endDelegation.instr? = some (.yieldStar operand next) := hi
  have hstore : g.endDelegation.plan.get? next = some (.store slot past) := hstore
  rw [Instance.storeResume, hi]
  dsimp only
  rw [hstore]

theorem follow_hasYielded {d : Delegation} {fate : Fate} (hfate : ∀ v, fate ≠ .yields v)
    (h : fate.follow host { g with delegation := some d } w = .done t w') :
    t.hasYielded = false := by
  cases fate with
  | yields v => exact absurd rfl (hfate v)
  | gives v =>
    have h : g.endDelegation.storeResume host v w = .done t w' := h
    rw [storeResume_yieldStar hi hstore] at h
    exact store_hasYielded slot past _ _ _ h
  | ends c => exact complete_hasYielded c _ _ _ h

theorem follow_ensues {d : Delegation} {fate : Fate}
    (hends : ∀ c, fate = .ends c → (∃ x, c = .ret x) ∨ (∃ x, c = .throw x) ∨ ∃ e, c = .fatal e)
    (h : fate.follow host { g with delegation := some d } w = .done t w') :
    Ensues host g d w fate t w' := by
  cases fate with
  | yields v =>
    cases h
    exact .yields
  | gives v =>
    refine .gives hi hstore ?_
    rw [← storeResume_yieldStar hi hstore]
    exact h
  | ends c =>
    have h : g.endDelegation.complete host c w = .done t w' := h
    obtain ⟨x, rfl⟩ | ⟨x, rfl⟩ | ⟨e, rfl⟩ := hends c rfl
    · have hd : Delivered host (.ret x) g.endDelegation.frames t := unwind_delivered _ _ _ _ h
      exact .returns h hd
    · have hd : Delivered host (.throw x) g.endDelegation.frames t := unwind_delivered _ _ _ _ h
      exact .throws h hd
    · cases h
      exact .fails

/-- The calls of a generator that delegates are the exchanges of the protocol. -/
theorem Delegates.exchanges (hstatus : g.status = .executing) (hawaiting : g.awaiting = none)
    (h : Delegates host g r w₀ outer t w') :
    ∃ log fate w₁ m, Exchanges host r (⟨.next, .undefined, w₀⟩ :: outer) log fate w₁ ∧
      fate.follow host { g with delegation := some ⟨r, m, none⟩ } w₁ = .done t w' := by
  -- each call finds the instance as the last one left it, up to the method that was passed on last
  have hnext {g' : Instance} {d : Delegation} {m : Method} {v : Value} {w w' : World} {t : Turn}
      (hg' : g' = { g with delegation := some d }) (hr : d.record = r) (hnative : d.native = none)
      (hplain : r.AnswersPlainly host m v w) (hpass : g'.passOn host m v w = .done t w') :
      ∃ calls fate w₁, Passed host r w m v calls fate w₁ ∧
        fate.follow host { g with delegation := some ⟨r, m, none⟩ } w₁ = .done t w' := by
    subst hg' hr
    obtain ⟨calls, fate, w₁, hp⟩ := exists_passed rfl hnative hpass
    rw [passOn_follow rfl hnative hplain hp, hnative] at hpass
    exact ⟨calls, fate, w₁, hp, hpass⟩
  induction h with
  | start hi' heval hopen hnative hplain hd =>
    cases hi.symm.trans hi'
    have hstart := (after_done heval).symm.trans hd
    rw [startDelegation_foreign hopen hnative] at hstart
    obtain ⟨calls, fate, w₁, hp, hfollow⟩ := hnext rfl rfl rfl hplain hstart
    exact ⟨_, fate, w₁, .next, .first hp, hfollow⟩
  | @call outer g' v c t w w' _ hplain hr ih =>
    obtain ⟨log, fate, w₁, m, hex, hfollow⟩ := ih
    cases fate with
    | gives | ends =>
      have hy := follow_hasYielded hi hstore (by simp) hfollow
      cases hy
    | yields x =>
      cases hfollow
      rw [resumed_delegating rfl] at hr
      rw [← hstatus, ← hawaiting] at hr
      obtain ⟨calls, fate, w₁, hp, hfollow⟩ := hnext rfl rfl rfl hplain hr
      exact ⟨_, fate, w₁, c.method, hex.later hp, hfollow⟩

end At

theorem Delegates.instr (h : Delegates host g r w₀ outer t w') :
    ∃ operand next, g.instr? = some (.yieldStar operand next) := by
  induction h with
  | start hi => exact ⟨_, _, hi⟩
  | call _ _ _ ih => exact ih

/-- A generator that delegates to another iterator follows the protocol, call by call, and the
iterator gets no other calls. -/
theorem delegation_follows_protocol (hh : host.Proper) (hvalid : g.plan.validate = .ok ())
    (hstatus : g.status = .executing) (hawaiting : g.awaiting = none)
    (h : Delegates host g r w₀ outer t w') :
    ∃ log fate w₁ m, Exchanges host r (⟨.next, .undefined, w₀⟩ :: outer) log fate w₁ ∧
      Ensues host g ⟨r, m, none⟩ w₁ fate t w' ∧
      ∃ earlier c calls, ⟨.next, .undefined, w₀⟩ :: outer = earlier ++ [c] ∧
        log = earlier.map (·.passedOn) ++ calls ∧
        (calls = [c.passedOn] ∨ ∃ a, fate = .ends a) := by
  obtain ⟨operand, next, hi⟩ := h.instr
  obtain ⟨next', slot, past, htargets, hstore⟩ :=
    (validate_iff_closed.1 hvalid).stores _ (List.mem_of_getElem? hi) rfl
  cases htargets
  obtain ⟨log, fate, w₁, m, hex, hfollow⟩ := h.exchanges hi hstore hstatus hawaiting
  obtain ⟨earlier, c, calls, hcs, hlog, hp⟩ := hex.log
  refine ⟨log, fate, w₁, m, hex, follow_ensues hi hstore ?_ hfollow, earlier, c, calls, hcs, hlog,
    hp.calls⟩
  rintro a rfl
  exact hp.ends_cases hh

/-- An iterator without a method `return`, which is asked for two elements: a `return` of the
generator ends it at the `yield*`. -/
theorem delegation_follows_protocol_return :
    let plan : Plan := ⟨[.ret none, .store none 0, .yieldStar (.ident "it") 1], 2, []⟩
    let g : Instance := .running plan 0 false
    let r : IteratorRecord := ⟨.obj 0, .obj 1, false, false⟩
    let it : Object := ⟨none, ⟨[("done", ⟨.bool false, true, true⟩), ("next", ⟨.obj 1, true, true⟩),
      (WellKnown.iterator.key, ⟨.obj 1, true, true⟩)]⟩, .ordinary⟩
    let w : World := { World.blank with
      heap := ⟨#[it, ⟨none, .empty, .function (.native .self)⟩]⟩
      scopes := ⟨#[⟨⟨[("it", ⟨.obj 0, .let, true⟩)]⟩, none⟩]⟩ }
    let turn : Turn := .stop g (.returned .null)
    let outer : List OuterCall := [⟨.next, .bool true, w⟩, ⟨.ret, .null, w⟩]
    plan.validate = .ok () ∧ Delegates (.withFuel 8) g r w outer turn w ∧
      ∃ log fate w₁ m, Exchanges (.withFuel 8) r (⟨.next, .undefined, w⟩ :: outer) log fate w₁ ∧
        Ensues (.withFuel 8) g ⟨r, m, none⟩ w₁ fate turn w := by
  intro plan g r it w turn outer
  have hplain (v : Value) : r.AnswersPlainly (.withFuel 8) .next v w := by
    intro _ result w' h
    cases h
    cbv
  have hmissing : r.AnswersPlainly (.withFuel 8) .ret .null w := by
    intro h
    have hc : w.heap.isCallable (r.callee w.heap .ret) = false := by cbv
    cases hc.symm.trans h
  let waiting : Instance := { g with delegation := some ⟨r, .next, none⟩ }
  have heval : (Expr.ident "it").eval (Host.withFuel 8) g.scope none w = .done (.obj 0) w := by cbv
  have hopen : g.openDelegate (.withFuel 8) (.obj 0) w = .done r w := by cbv
  have hnative : w.heap.nativeGenerator? r.iterator = none := by cbv
  have hdispatch : g.dispatch (.withFuel 8) (.yieldStar (.ident "it") 1) w =
      .done (.stop waiting (.yielded .undefined)) w := by cbv
  have hnext : waiting.resumed (.withFuel 8) (.next (.bool true)) w =
      .done (.stop waiting (.yielded .undefined)) w := by cbv
  have hreturn : waiting.resumed (.withFuel 8) (.ret .null) w = .done turn w := by cbv
  have hstart : Delegates (.withFuel 8) g r w [] (.stop waiting (.yielded .undefined)) w :=
    .start rfl heval hopen hnative (hplain _) hdispatch
  have hcalled := hstart.call (c := ⟨.next, .bool true, w⟩) (hplain _) hnext
  have hends : Delegates (.withFuel 8) g r w outer turn w :=
    hcalled.call (c := ⟨.ret, .null, w⟩) hmissing hreturn
  refine ⟨rfl, hends, ?_⟩
  obtain ⟨log, fate, w₁, m, hex, hensues, -⟩ :=
    delegation_follows_protocol (withFuel_proper 8) rfl rfl rfl hends
  exact ⟨log, fate, w₁, m, hex, hensues⟩

end Runs

end Resumable
