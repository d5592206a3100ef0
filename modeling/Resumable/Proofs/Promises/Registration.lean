import Resumable.Proofs.Promises.Settlement

/-!
What is told to wait for a promise: the handlers that `then` is given, and the activations that await a
value. Each waits for just that promise, behind all that waits already. Main statements:
`then_registers`, `await_registers`.
-/

set_option autoImplicit false

namespace Resumable

/-- A promise with one more reaction, which a settled one does not keep. -/
def PromiseState.awaitedBy (r : Reaction) : PromiseState → PromiseState
  | .pending rs => .pending (rs ++ [r])
  | .settled s => .settled s

/-- Whether a reaction has been added to those of a promise, or queued if that has settled. Nothing else
is queued, and other promises are what they were. -/
structure World.Registers (w w' : World) (p : ObjectId) (state : PromiseState) (r : Reaction) : Prop where
  before : w.heap.promise? (.obj p) = some state
  after : w'.heap.promise? (.obj p) = some (state.awaitedBy r)
  jobs : w'.jobs = w.jobs ++ (state.reacts p r).map (·.2)
  others : ∀ q s, q ≠ p → w.heap.promise? (.obj q) = some s → w'.heap.promise? (.obj q) = some s

section Reactions

variable {w : World} {p q : ObjectId} {state : PromiseState}

theorem addReaction_registers (r : Reaction) (hp : w.heap.promise? (.obj p) = some state) :
    w.Registers (Promise.addReaction p r w).2 p state r := by
  cases state with
  | pending rs =>
    rw [addReaction_pending r hp]
    refine ⟨hp, (Heap.promise?_setState hp).trans (if_pos rfl), (List.append_nil _).symm, ?_⟩
    intro q s hq hs
    exact (Heap.promise?_setState hp).trans ((if_neg hq.symm).trans hs)
  | settled s =>
    rw [addReaction_settled r hp]
    exact ⟨hp, hp, rfl, fun _ _ _ hs => hs⟩

theorem Heap.callable?_setState {h : Heap} {s : PromiseState} (hp : h.promise? (.obj p) = some state)
    (f : Value) :
    (h.modify p fun o => { o with role := .promise s }).callable? f = h.callable? f := by
  cases f with
  | obj i =>
    show ((h.modify p _).get? i).bind Object.callable? = (h.get? i).bind Object.callable?
    rw [Heap.get?_modify]
    split
    · rename_i heq
      subst heq
      obtain ⟨o, ho, hrole⟩ := Heap.promise?_eq_some.1 hp
      rw [ho]
      show none = o.callable?
      rw [Object.callable?, hrole]
    · rfl
  | _ => rfl

theorem addReaction_functions (r : Reaction) (hp : w.heap.promise? (.obj p) = some state) (f : Value) :
    (Promise.addReaction p r w).2.heap.callable? f = w.heap.callable? f ∧
      (Promise.addReaction p r w).2.latches = w.latches := by
  cases state with
  | pending rs =>
    rw [addReaction_pending r hp]
    exact ⟨Heap.callable?_setState hp f, rfl⟩
  | settled s =>
    rw [addReaction_settled r hp]
    exact ⟨rfl, rfl⟩

theorem newPromise_promise? (w : World) (p : ObjectId) :
    (Edit.newPromise w).2.heap.promise? (.obj p) =
      if p = (Edit.newPromise w).1 then some (.pending []) else w.heap.promise? (.obj p) :=
  Heap.promise?_alloc

theorem newPromise_get? (w : World) : w.heap.get? (Edit.newPromise w).1 = none := Heap.get?_size

theorem newPromise_ne (hp : w.heap.promise? (.obj p) = some state) : p ≠ (Edit.newPromise w).1 := by
  rintro rfl
  rw [Heap.promise?_eq, newPromise_get?] at hp
  cases hp

theorem settle_promise? (s : Settlement) (hp : w.heap.promise? (.obj p) = some state) :
    ∃ state', (Promise.settle p s w).2.heap.promise? (.obj p) = some state' := by
  cases state with
  | pending rs =>
    rw [settle_eq s hp]
    exact ⟨_, (Heap.promise?_setState hp).trans (if_pos rfl)⟩
  | settled s' =>
    rw [settle_apply, hp]
    exact ⟨_, hp⟩

/-- However it is resolved, a promise remains one. -/
theorem resolve_promise? (v : Value) (hp : w.heap.promise? (.obj p) = some state) :
    ∃ state', (Promise.resolve p v w).2.heap.promise? (.obj p) = some state' := by
  by_cases hself : v.object? = some p
  · obtain ⟨e, w₁, hmade⟩ : ∃ e w₁,
      Edit.newError .typeError "A promise cannot be resolved with itself." w = (e, w₁) := ⟨_, _, rfl⟩
    have hkept : w₁.heap.promise? (.obj p) = some state := by
      obtain rfl := congrArg Prod.snd hmade
      exact (promise?_alloc_other rfl).trans hp
    have hresolve : Promise.resolve p v w = Promise.reject p (.obj e) w₁ := by
      simp only [Promise.resolve, if_pos hself, bind, StateT.bind, hmade]
    rw [hresolve]
    exact settle_promise? _ hkept
  · cases hlike : w.heap.isPromiseLike v with
    | false =>
      rw [resolve_plain hself hlike]
      exact settle_promise? _ hp
    | true =>
      obtain ⟨x, hx⟩ : ∃ x, Promise.newResolvers p w = x := ⟨_, rfl⟩
      obtain ⟨-, -, -, -, -, hsame⟩ := newResolvers_pair hx
      have hheap : Edit.heap w = (w.heap, w) := rfl
      have hresolve : (Promise.resolve p v w).2.heap = x.2.heap := by
        simp only [Promise.resolve, if_neg hself, bind, StateT.bind, hheap, hlike, if_true, hx]
        rfl
      rw [hresolve, hsame]
      exact ⟨state, hp⟩

end Reactions

section Waiting

variable {w : World} {p : ObjectId} {state : PromiseState}

/-- The promise that `then` gives is a new one with a pair of functions of its own, which the reaction
calls. -/
structure World.Derives (w w' : World) (p : ObjectId) (state : PromiseState)
    (onFulfilled onRejected : Value) (derived : ObjectId) : Prop where
  fresh : w.heap.get? derived = none
  pending : w'.heap.promise? (.obj derived) = some (.pending [])
  latches : w'.latches = w.latches.push false
  registers : ∃ resolve reject : Value,
    w'.heap.callable? resolve = some (.native (.resolve derived w.latches.size)) ∧
    w'.heap.callable? reject = some (.native (.reject derived w.latches.size)) ∧
    w.Registers w' p state (.handlers (Promise.handler? w'.heap onFulfilled)
      (Promise.handler? w'.heap onRejected) resolve reject)

theorem derive_derives (onFulfilled onRejected : Value)
    (hp : w.heap.promise? (.obj p) = some state) :
    ∃ (derived : ObjectId) (w' : World), Promise.derive p onFulfilled onRejected w = (derived, w') ∧
      w.Derives w' p state onFulfilled onRejected derived := by
  obtain ⟨derived, w₁, hmade⟩ : ∃ i w₁, Edit.newPromise w = (i, w₁) := ⟨_, _, rfl⟩
  obtain ⟨r, w₂, hpair⟩ : ∃ r w₂, Promise.newResolvers derived w₁ = (r, w₂) := ⟨_, _, rfl⟩
  have hfirst := congrArg Prod.fst hmade
  have hsecond := congrArg Prod.snd hmade
  dsimp only at hfirst hsecond
  have hne : p ≠ derived := hfirst ▸ newPromise_ne hp
  have hnew (q : ObjectId) : w₁.heap.promise? (.obj q) =
      if q = derived then some (.pending []) else w.heap.promise? (.obj q) := by
    rw [← hfirst, ← hsecond]
    exact newPromise_promise? w q
  have hjobs : w₁.jobs = w.jobs := hsecond ▸ rfl
  have hlatches : w₁.latches = w.latches := hsecond ▸ rfl
  obtain ⟨hresolve, hreject, hlatches₂, hjobs₂, -, hsame⟩ := newResolvers_pair hpair
  have hp₂ : w₂.heap.promise? (.obj p) = some state := by rw [hsame, hnew, if_neg hne, hp]
  obtain ⟨reaction, hreaction⟩ : ∃ x, x = Reaction.handlers (Promise.handler? w₂.heap onFulfilled)
    (Promise.handler? w₂.heap onRejected) r.resolve r.reject := ⟨_, rfl⟩
  have hregisters := addReaction_registers reaction hp₂
  have hfunctions := addReaction_functions reaction hp₂
  have hderive : Promise.derive p onFulfilled onRejected w =
      (derived, (Promise.addReaction p reaction w₂).2) := by
    rw [hreaction]
    simp only [Promise.derive, bind, StateT.bind, hmade, hpair]
    rfl
  obtain ⟨w', hw'⟩ : ∃ w', (Promise.addReaction p reaction w₂).2 = w' := ⟨_, rfl⟩
  rw [hw'] at hderive hregisters hfunctions
  have hsize : w₁.latches.size = w.latches.size := by rw [hlatches]
  have hhandler (f : Value) : Promise.handler? w'.heap f = Promise.handler? w₂.heap f := by
    rw [Promise.handler?, Promise.handler?, Heap.isCallable, Heap.isCallable, (hfunctions f).1]
  rw [← hhandler, ← hhandler] at hreaction
  rw [hreaction] at hregisters
  refine ⟨derived, w', hderive, ?_, ?_, ?_, r.resolve, r.reject, ?_, ?_, hp, hregisters.after, ?_, ?_⟩
  · rw [← hfirst]
    exact newPromise_get? w
  · exact hregisters.others derived _ hne.symm ((hsame _).trans ((hnew _).trans (if_pos rfl)))
  · rw [(hfunctions .undefined).2, hlatches₂, hlatches]
  · rw [(hfunctions _).1, hresolve, hsize]
  · rw [(hfunctions _).1, hreject, hsize]
  · rw [hregisters.jobs, hjobs₂, hjobs]
  · intro q s hq hs
    have hother : q ≠ derived := hfirst ▸ newPromise_ne hs
    exact hregisters.others q s hq ((hsame q).trans ((hnew q).trans ((if_neg hother).trans hs)))

/-- The handlers in the arguments of a built-in function that lets them wait. -/
def Native.handlers? (args : List Value) : Native → Option (Value × Value)
  | .promiseThen => some (args.headD .undefined, args.getD 1 .undefined)
  | .promiseCatch => some (.undefined, args.headD .undefined)
  | _ => none

/-- A call of `then` or `catch` lets the handlers that it is given wait for the promise. -/
theorem then_registers (fuel : Nat) {n : Native} {f : Value} {args : List Value}
    {onFulfilled onRejected : Value} (hf : w.heap.callable? f = some (.native n))
    (hn : n.handlers? args = some (onFulfilled, onRejected))
    (hp : w.heap.promise? (.obj p) = some state) :
    ∃ (derived : ObjectId) (w' : World),
      callWithin (fuel + 1) f (.obj p) args w = .done (.obj derived) w' ∧
      w.Derives w' p state onFulfilled onRejected derived := by
  obtain ⟨derived, w', hderive, hderives⟩ := derive_derives onFulfilled onRejected hp
  refine ⟨derived, w', ?_, hderives⟩
  have hpromise : w.heap.isPromise (.obj p) = true := by rw [Heap.isPromise, hp]; rfl
  have hthen : Native.thenPromise (.obj p) onFulfilled onRejected w = .done (.obj derived) w' := by
    have hheap : (Run.heap : Run Heap) w = .done w.heap w := rfl
    have hrun : (liftM (Promise.derive p onFulfilled onRejected) : Run ObjectId) w =
        .done derived w' :=
      congrArg (fun r : ObjectId × World => Outcome.done r.1 r.2) hderive
    simp only [Native.thenPromise, bind, RunOn.bind, hheap, hpromise, hrun]
    rfl
  rw [callWithin_native fuel hf]
  cases n with
  | promiseThen | promiseCatch =>
    cases hn
    exact hthen
  | _ => cases hn

/-- An activation that awaits a promise waits for that; for any other value it waits for a new promise that
is resolved with it. -/
theorem await_registers (v : Value) (k : Continuation) :
    ∃ (p : ObjectId) (w₁ : World) (state : PromiseState),
      w₁.Registers (Promise.await v k w).2 p state (.resume k) ∧
      (v = .obj p ∧ w₁ = w ∨ w.heap.isPromise v = false ∧ w.heap.get? p = none ∧
        w₁ = (Promise.resolve p v (Edit.newPromise w).2).2) := by
  have hawait : Promise.await v k w =
      Promise.addReaction (Promise.ofValue v w).1 (.resume k) (Promise.ofValue v w).2 := rfl
  cases hv : w.heap.isPromise v with
  | true =>
    obtain ⟨state, hstate⟩ := Option.isSome_iff_exists.1 hv
    cases v with
    | obj p =>
      have hsame : Promise.ofValue (.obj p) w = (p, w) := by
        have hheap : Edit.heap w = (w.heap, w) := rfl
        simp only [Promise.ofValue, bind, StateT.bind, hheap, Value.object?, hv]
        rfl
      rw [hawait, hsame]
      exact ⟨p, w, state, addReaction_registers _ hstate, .inl ⟨rfl, rfl⟩⟩
    | _ => cases hstate
  | false =>
    obtain ⟨p, w₁, hmade⟩ : ∃ p w₁, Edit.newPromise w = (p, w₁) := ⟨_, _, rfl⟩
    have hnew : w₁.heap.promise? (.obj p) = some (.pending []) := by
      obtain rfl := congrArg Prod.fst hmade
      obtain rfl := congrArg Prod.snd hmade
      exact (newPromise_promise? w _).trans (if_pos rfl)
    have hofValue : Promise.ofValue v w = (p, (Promise.resolve p v w₁).2) := by
      have hheap : Edit.heap w = (w.heap, w) := rfl
      simp only [Promise.ofValue, bind, StateT.bind, hheap, hv]
      cases v.object? with
      | none | some =>
        exact congrArg (fun r : ObjectId × World => (r.1, (Promise.resolve r.1 v r.2).2)) hmade
    obtain ⟨state, hstate⟩ := resolve_promise? v hnew
    rw [hawait, hofValue, hmade]
    refine ⟨p, _, state, addReaction_registers _ hstate, .inr ⟨rfl, ?_, rfl⟩⟩
    obtain rfl := congrArg Prod.fst hmade
    exact newPromise_get? w

end Waiting

end Resumable
