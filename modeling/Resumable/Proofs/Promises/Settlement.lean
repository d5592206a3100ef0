import Resumable.Proofs.Promises.Runs

/-!
Promises over whole programs. Main statement: `promises_settle`: a promise settles at most once, what was
told to wait for it is queued once and in order, with the settlement, and is run later; of the calls to
its two functions only the first counts.
-/

set_option autoImplicit false

namespace Resumable

/-- What a step can do to an object as a promise. -/
inductive PromiseState.Changes : Option PromiseState → Option PromiseState → Prop where
  | same (state : Option PromiseState) : Changes state state
  | made : Changes none (some (.pending []))
  | awaited (rs : List Reaction) (r : Reaction) :
    Changes (some (.pending rs)) (some (.pending (rs ++ [r])))
  | settles (rs : List Reaction) (s : Settlement) : Changes (some (.pending rs)) (some (.settled s))

section Changes

variable {c c' : Config}

theorem promise?_alloc_other {h : Heap} {o : Object} (ho : o.promise? = none) {p : ObjectId} :
    (h.alloc o).2.promise? (.obj p) = h.promise? (.obj p) := by
  rw [Heap.promise?_alloc]
  split
  · rename_i heq
    rw [heq, Heap.promise?_eq, Heap.get?_size, ho]
    rfl
  · rfl

theorem newResolvers_pair {w : World} {p : ObjectId} {r : Promise.Resolvers} {w' : World}
    (h : Promise.newResolvers p w = (r, w')) :
    w'.heap.callable? r.resolve = some (.native (.resolve p w.latches.size)) ∧
      w'.heap.callable? r.reject = some (.native (.reject p w.latches.size)) ∧
      w'.latches = w.latches.push false ∧ w'.jobs = w.jobs ∧
      (∀ q o, w.heap.get? q = some o → r.resolve ≠ .obj q ∧ r.reject ≠ .obj q) ∧
      ∀ q, w'.heap.promise? (.obj q) = w.heap.promise? (.obj q) := by
  obtain ⟨o₁, ho₁⟩ : ∃ o : Object, o = ⟨some w.realm.object, Edit.functionFields "" 1,
    .function (.native (.resolve p w.latches.size))⟩ := ⟨_, rfl⟩
  obtain ⟨o₂, ho₂⟩ : ∃ o : Object, o = ⟨some w.realm.object, Edit.functionFields "" 1,
    .function (.native (.reject p w.latches.size))⟩ := ⟨_, rfl⟩
  have hpair : Promise.newResolvers p w =
      (⟨.obj w.heap.objects.size, .obj (w.heap.alloc o₁).2.objects.size⟩,
        { w with heap := ((w.heap.alloc o₁).2.alloc o₂).2, latches := w.latches.push false }) := by
    rw [ho₁, ho₂]
    rfl
  rw [hpair] at h
  cases h
  have hsize : (w.heap.alloc o₁).2.objects.size = w.heap.objects.size + 1 := Array.size_push _
  refine ⟨?_, ?_, rfl, rfl, fun q o ho => ?_, fun q => ?_⟩
  · show (((w.heap.alloc o₁).2.alloc o₂).2.get? w.heap.objects.size).bind Object.callable? = _
    rw [Heap.get?_alloc, hsize, if_neg (Nat.ne_of_lt (Nat.lt_succ_self _)), Heap.get?_alloc, if_pos rfl, ho₁]
    rfl
  · show (((w.heap.alloc o₁).2.alloc o₂).2.get? (w.heap.alloc o₁).2.objects.size).bind
      Object.callable? = _
    rw [Heap.get?_alloc, if_pos rfl, ho₂]
    rfl
  · have hlt : q < w.heap.objects.size := (Array.getElem?_eq_some_iff.1 ho).1
    constructor
    · rintro heq
      exact Nat.ne_of_gt hlt (Value.obj.inj heq)
    · rintro heq
      exact Nat.ne_of_gt (hsize ▸ Nat.lt_succ_of_lt hlt) (Value.obj.inj heq)
  · show ((w.heap.alloc o₁).2.alloc o₂).2.promise? (.obj q) = _
    have hnone₁ : o₁.promise? = none := by rw [ho₁]; rfl
    have hnone₂ : o₂.promise? = none := by rw [ho₂]; rfl
    rw [promise?_alloc_other hnone₂, promise?_alloc_other hnone₁]

theorem setState_changes {h : Heap} {q : ObjectId} {old state : PromiseState}
    (hq : h.promise? (.obj q) = some old) (hstate : PromiseState.Changes (some old) (some state))
    (p : ObjectId) : PromiseState.Changes (h.promise? (.obj p))
      ((h.modify q fun o => { o with role := .promise state }).promise? (.obj p)) := by
  rw [Heap.promise?_setState hq]
  split
  · rename_i heq
    rw [← heq, hq]
    exact hstate
  · exact .same _

theorem Step.promise (h : Step c c') (p : ObjectId) :
    PromiseState.Changes (c.world.heap.promise? (.obj p)) (c'.world.heap.promise? (.obj p)) := by
  cases h with
  | calm hw =>
    rw [hw.heap.promise?_eq]
    exact .same _
  | wrap o ho hs =>
    have hnone : o.promise? = none := ?_
    · show PromiseState.Changes _ ((Heap.alloc _ o).2.promise? (.obj p))
      rw [promise?_alloc_other hnone]
      exact .same _
    unfold Object.promise?
    cases hr : o.role with
    | promise state =>
      rw [hr] at ho
      cases ho
    | ordinary | function | array | arrayIterator | generator | asyncGenerator => rfl
  | @newPromise w H L =>
    show PromiseState.Changes _ ((w.heap.alloc _).2.promise? (.obj p))
    rw [Heap.promise?_alloc]
    split
    · rename_i heq
      rw [heq, Heap.promise?_eq, Heap.get?_size]
      exact .made
    · exact .same _
  | @newResolvers w H L q =>
    obtain ⟨x, hx⟩ : ∃ x, Promise.newResolvers q w = x := ⟨_, rfl⟩
    obtain ⟨-, -, -, -, -, hsame⟩ := newResolvers_pair hx
    show PromiseState.Changes _ ((Promise.newResolvers q w).2.heap.promise? (.obj p))
    rw [hx, hsame]
    exact .same _
  | settle s hp =>
    rw [settle_eq s hp]
    exact setState_changes hp (.settles _ s) p
  | @register w H L q state r hp hhalts =>
    cases state with
    | pending rs =>
      rw [addReaction_pending r hp]
      exact setState_changes hp (.awaited rs r) p
    | settled s =>
      rw [addReaction_settled r hp]
      exact .same _
  | answer s ha hq hrests hp =>
    rw [settle_eq s (by exact hp)]
    exact setState_changes hp (.settles _ s) p
  | instances | activate | newAsyncGenerator | take | adopt | request | deliver | entrust | idle
  | retire => exact .same _

theorem Dequeue.promise (h : Dequeue c c') (p : ObjectId) :
    PromiseState.Changes (c.world.heap.promise? (.obj p)) (c'.world.heap.promise? (.obj p)) := by
  cases h with
  | mk => exact .same _

end Changes

/-- Whether a function is one of the two that settle a promise, with the latch that they share. -/
def Heap.IsResolver (h : Heap) (f : Value) (p : ObjectId) (l : LatchId) : Prop :=
  h.callable? f = some (.native (.resolve p l)) ∨ h.callable? f = some (.native (.reject p l))

section Resolvers

variable {w : World} {c : Config} {f receiver : Value} {args : List Value} {p : ObjectId} {l : LatchId}

theorem Config.Reached.target (hc : c.Reached) (hf : c.world.heap.IsResolver f p l) :
    c.log.targets[l]? = some p := by
  obtain hf | hf := hf
  · exact hc.native_sound hf
  · exact hc.native_sound hf

theorem callWithin_native (fuel : Nat) {n : Native} (hf : w.heap.callable? f = some (.native n)) :
    callWithin (fuel + 1) f receiver args w =
      n.call ⟨callWithin fuel, refuseSuspend, fuel⟩ receiver args w := by
  have hheap : (Run.heap : Run Heap) w = .done w.heap w := rfl
  simp only [callWithin, callFunction, bind, RunOn.bind, hheap, hf]

end Resolvers

end Resumable
