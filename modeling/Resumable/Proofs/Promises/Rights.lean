import Mathlib.Algebra.BigOperators.Group.List.Basic
import Mathlib.Algebra.Order.Group.Multiset
import Mathlib.Tactic.Abel
import Resumable.Promise
import Resumable.Proofs.Eval.Calm

/-!
Rights: what only one party at a time may do, and where in the world each right lies while nobody uses
it. A promise has one right to settle it, an asynchronous activation one to resume it, an asynchronous
generator one to serve its requests.
-/

set_option autoImplicit false

namespace Resumable

inductive Right where
  | settle (promise : ObjectId)
  /-- To serve the next request of an asynchronous generator. -/
  | ready (id : AsyncGeneratorId)
  /-- To go on with the request that is being served. -/
  | serving (id : AsyncGeneratorId)
  /-- To resume an asynchronous activation. -/
  | own (inst : InstanceId)
  deriving DecidableEq

def gather {α : Type} (f : α → Multiset Right) (xs : List α) : Multiset Right := (xs.map f).sum

section Gather

variable {α : Type} {f : α → Multiset Right} {xs ys : List α} {a : α}

@[simp] theorem gather_nil : gather f [] = 0 := rfl

@[simp] theorem gather_cons : gather f (a :: xs) = f a + gather f xs := List.sum_cons

@[simp] theorem gather_append : gather f (xs ++ ys) = gather f xs + gather f ys := by
  simp [gather]

theorem gather_map {β : Type} (g : β → α) (xs : List β) :
    gather f (xs.map g) = gather (fun b => f (g b)) xs := by
  rw [gather, gather, List.map_map]
  rfl

theorem mem_gather {t : Right} : t ∈ gather f xs ↔ ∃ a ∈ xs, t ∈ f a := by
  induction xs with
  | nil => simp
  | cons a xs ih => simp [ih]

theorem gather_eq_zero (h : ∀ a ∈ xs, f a = 0) : gather f xs = 0 := by
  induction xs with
  | nil => rfl
  | cons a xs ih =>
    rw [gather_cons, h a List.mem_cons_self, ih fun b hb => h b (List.mem_cons_of_mem _ hb), add_zero]

theorem gather_congr (h : ∀ i : Nat, xs[i]?.elim 0 f = ys[i]?.elim 0 f) :
    gather f xs = gather f ys := by
  induction xs generalizing ys with
  | nil =>
    refine (gather_eq_zero fun a ha => ?_).symm
    obtain ⟨i, hi⟩ := List.getElem?_of_mem ha
    have := h i
    rw [hi] at this
    simpa using this.symm
  | cons a xs ih =>
    cases ys with
    | nil =>
      refine gather_eq_zero fun b hb => ?_
      obtain ⟨i, hi⟩ := List.getElem?_of_mem hb
      have := h i
      rw [hi] at this
      simpa using this
    | cons b ys =>
      have hhead : f a = f b := h 0
      rw [gather_cons, gather_cons, hhead, ih fun i => h (i + 1)]

theorem gather_modify {g : α → α} {i : Nat} (h : xs[i]? = some a) :
    gather f (xs.modify i g) + f a = gather f xs + f (g a) := by
  induction xs generalizing i with
  | nil => cases h
  | cons b xs ih =>
    cases i with
    | zero =>
      cases h
      simp only [List.modify_zero_cons, gather_cons]
      abel
    | succ i =>
      simp only [List.modify_succ_cons, gather_cons, add_assoc, ih h]

/-- A right that is there once lies in one place. -/
theorem gather_unique {t : Right} {b : α} {i j : Nat} (h : (gather f xs).Nodup) (hi : xs[i]? = some a)
    (hj : xs[j]? = some b) (ha : t ∈ f a) (hb : t ∈ f b) : i = j := by
  induction xs generalizing i j with
  | nil => cases hi
  | cons c xs ih =>
    rw [gather_cons, Multiset.nodup_add] at h
    obtain ⟨-, htail, hdisjoint⟩ := h
    cases i with
    | zero =>
      cases hi
      cases j with
      | zero => rfl
      | succ j =>
        have hmem : t ∈ gather f xs := mem_gather.2 ⟨b, List.mem_of_getElem? hj, hb⟩
        exact (Multiset.disjoint_left.1 hdisjoint ha hmem).elim
    | succ i =>
      cases j with
      | zero =>
        cases hj
        have hmem : t ∈ gather f xs := mem_gather.2 ⟨a, List.mem_of_getElem? hi, ha⟩
        exact (Multiset.disjoint_left.1 hdisjoint hb hmem).elim
      | succ j => rw [ih htail hi hj]

end Gather

def Continuation.rights : Continuation → Multiset Right
  | .unpark _ => 0
  | .asyncGenerator id => {.serving id}
  | .asyncFunction inst promise => {.own inst, .settle promise}

def Reaction.rights : Reaction → Multiset Right
  | .handlers _ _ _ _ => 0
  | .resume k => k.rights

def PromiseState.rights : PromiseState → Multiset Right
  | .pending reactions => gather Reaction.rights reactions
  | .settled _ => 0

def Job.rights : Job → Multiset Right
  | .react r _ => r.rights
  | .adopt _ _ _ _ => 0

def Object.rights (o : Object) : Multiset Right :=
  match o.role with
  | .promise state => state.rights
  | _ => 0

def Request.rights (r : Request) : Multiset Right := {.settle r.promise}

def AsyncGenerator.rights (a : AsyncGenerator) : Multiset Right :=
  .own a.inst ::ₘ gather Request.rights a.queue

/-- An open latch lets one of its two functions settle a promise; the targets are the promises of all
latches in order. -/
def latchRights : List ObjectId → List Bool → Multiset Right
  | promise :: targets, taken :: latches =>
    (if taken then 0 else {.settle promise}) + latchRights targets latches
  | [], _ | _ :: _, [] => 0

/-- The rights that lie in a world. -/
def World.rights (targets : List ObjectId) (w : World) : Multiset Right :=
  gather Object.rights w.heap.objects.toList + gather AsyncGenerator.rights w.asyncGenerators.toList +
    gather Job.rights w.jobs + latchRights targets w.latches.toList

section Latches

variable {targets : List ObjectId} {latches : List Bool} {l : LatchId} {p : ObjectId}

theorem latchRights_append (h : targets.length = latches.length) :
    latchRights (targets ++ [p]) (latches ++ [false]) = latchRights targets latches + {.settle p} := by
  induction targets generalizing latches with
  | nil =>
    cases latches with
    | nil => rfl
    | cons => cases h
  | cons q targets ih =>
    cases latches with
    | nil => cases h
    | cons taken latches =>
      simp only [List.cons_append, latchRights, ih (Nat.succ.inj h), add_assoc]

theorem latchRights_set (ht : targets[l]? = some p) (hl : latches[l]? = some false) :
    latchRights targets latches = .settle p ::ₘ latchRights targets (latches.set l true) := by
  induction targets generalizing latches l with
  | nil => cases ht
  | cons q targets ih =>
    cases latches with
    | nil => cases hl
    | cons taken latches =>
      cases l with
      | zero =>
        cases ht
        cases hl
        simp [latchRights]
      | succ l =>
        have ih := ih ht hl
        simp only [List.set_cons_succ, latchRights, ih]
        rw [Multiset.add_cons]

end Latches

section Places

variable {targets : List ObjectId} {w : World}

theorem gather_asyncGenerators_le :
    gather AsyncGenerator.rights w.asyncGenerators.toList ≤ w.rights targets :=
  (Multiset.le_add_left _ _).trans ((Multiset.le_add_right _ _).trans (Multiset.le_add_right _ _))

theorem own_mem_rights {id : AsyncGeneratorId} {a : AsyncGenerator}
    (h : w.asyncGenerators[id]? = some a) : .own a.inst ∈ w.rights targets := by
  refine Multiset.mem_of_le gather_asyncGenerators_le (mem_gather.2 ⟨a, ?_, ?_⟩)
  · rw [← Array.getElem?_toList] at h
    exact List.mem_of_getElem? h
  · exact Multiset.mem_cons_self _ _

theorem request_mem_rights {id : AsyncGeneratorId} {a : AsyncGenerator} {r : Request}
    (h : w.asyncGenerators[id]? = some a) (hr : r ∈ a.queue) : .settle r.promise ∈ w.rights targets := by
  refine Multiset.mem_of_le gather_asyncGenerators_le (mem_gather.2 ⟨a, ?_, ?_⟩)
  · rw [← Array.getElem?_toList] at h
    exact List.mem_of_getElem? h
  · exact Multiset.mem_cons_of_mem (mem_gather.2 ⟨r, hr, Multiset.mem_singleton_self _⟩)

theorem inst_unique {id id' : AsyncGeneratorId} {a a' : AsyncGenerator} (hw : (w.rights targets).Nodup)
    (h : w.asyncGenerators[id]? = some a) (h' : w.asyncGenerators[id']? = some a')
    (hinst : a'.inst = a.inst) : id' = id := by
  rw [← Array.getElem?_toList] at h h'
  refine gather_unique (t := .own a.inst) (Multiset.nodup_of_le gather_asyncGenerators_le hw) h' h ?_ ?_
  · rw [← hinst]
    exact Multiset.mem_cons_self _ _
  · exact Multiset.mem_cons_self _ _

end Places

section Changes

variable {targets : List ObjectId} {w w' : World}

theorem Object.rights_of_isInert {o : Object} (h : o.role.isInert = true) : o.rights = 0 := by
  unfold Object.rights
  cases hr : o.role with
  | promise state =>
    rw [hr] at h
    cases h
  | ordinary | function | array | arrayIterator | generator | asyncGenerator => rfl

theorem Heap.Extends.rights {h h' : Heap} (hh : h.Extends h') :
    gather Object.rights h'.objects.toList = gather Object.rights h.objects.toList := by
  refine gather_congr fun i => ?_
  have hnew := hh.new i
  have hold := hh.old i
  simp only [Heap.get?, ← Array.getElem?_toList] at hnew hold
  cases ho : h.objects.toList[i]? with
  | none =>
    cases ho' : h'.objects.toList[i]? with
    | none => rfl
    | some o' => exact Object.rights_of_isInert (hnew o' ho' ho)
  | some o =>
    obtain ⟨o', ho', hr⟩ := hold o ho
    rw [ho']
    show o'.rights = o.rights
    by_cases hi : o.role.isInert = true
    · rw [Object.rights_of_isInert hi, Object.rights_of_isInert (hr.isInert hi)]
    · rw [Object.rights, Object.rights, hr.eq (Bool.eq_false_iff.2 hi)]

theorem World.Calm.rights (h : w.Calm w') : w'.rights targets = w.rights targets := by
  rw [World.rights, World.rights, h.heap.rights, h.asyncGenerators, h.latches, h.jobs]

theorem alloc_rights (o : Object) :
    (Edit.alloc o w).2.rights targets = o.rights + w.rights targets := by
  show gather Object.rights (w.heap.objects.push o).toList +
    gather AsyncGenerator.rights w.asyncGenerators.toList + gather Job.rights w.jobs +
    latchRights targets w.latches.toList = _
  simp only [Array.toList_push, gather_append, gather_cons, gather_nil, World.rights]
  abel

theorem update_rights (targets : List ObjectId) {id : ObjectId} {o : Object} {f : Object → Object}
    (h : w.heap.get? id = some o) :
    (Edit.update id f w).2.rights targets + o.rights = w.rights targets + (f o).rights := by
  have ho : w.heap.objects.toList[id]? = some o := by rw [Array.getElem?_toList]; exact h
  have hmodify := gather_modify (f := Object.rights) (g := f) ho
  show gather Object.rights (w.heap.objects.modify id f).toList +
    gather AsyncGenerator.rights w.asyncGenerators.toList + gather Job.rights w.jobs +
    latchRights targets w.latches.toList + _ = _
  rw [Array.toList_modify]
  calc
    _ = (gather Object.rights (w.heap.objects.toList.modify id f) + o.rights) +
        gather AsyncGenerator.rights w.asyncGenerators.toList + gather Job.rights w.jobs +
        latchRights targets w.latches.toList := by abel
    _ = _ := by
      rw [hmodify, World.rights]
      abel

theorem jobs_rights (targets : List ObjectId) (w : World) (jobs : List Job) :
    World.rights targets { w with jobs := w.jobs ++ jobs } =
      gather Job.rights jobs + w.rights targets := by
  simp only [World.rights, gather_append]
  abel

theorem dequeue_rights {job : Job} {jobs : List Job} (h : w.jobs = job :: jobs) :
    w.rights targets = job.rights + World.rights targets { w with jobs } := by
  simp only [World.rights, h, gather_cons]
  abel

theorem newLatch_rights {p : ObjectId} (h : targets.length = w.latches.size) :
    (Edit.newLatch w).2.rights (targets ++ [p]) = .settle p ::ₘ w.rights targets := by
  show gather Object.rights w.heap.objects.toList + gather AsyncGenerator.rights w.asyncGenerators.toList +
    gather Job.rights w.jobs + latchRights (targets ++ [p]) (w.latches.push false).toList = _
  rw [Array.toList_push, latchRights_append (by rw [h, Array.length_toList]), World.rights,
    ← Multiset.singleton_add]
  abel

theorem takeLatch_rights {p : ObjectId} {l : LatchId} (ht : targets[l]? = some p)
    (hl : w.latches[l]? = some false) :
    w.rights targets = .settle p ::ₘ (Edit.takeLatch l w).2.rights targets := by
  have hl : w.latches.toList[l]? = some false := by rw [Array.getElem?_toList]; exact hl
  show _ = .settle p ::ₘ (gather Object.rights w.heap.objects.toList +
    gather AsyncGenerator.rights w.asyncGenerators.toList + gather Job.rights w.jobs +
    latchRights targets (w.latches.setIfInBounds l true).toList)
  rw [Array.toList_setIfInBounds, World.rights, latchRights_set ht hl, Multiset.add_cons]

theorem newAsyncGenerator_rights (inst : InstanceId) :
    (Edit.newAsyncGenerator inst w).2.rights targets = .own inst ::ₘ w.rights targets := by
  show gather Object.rights w.heap.objects.toList +
    gather AsyncGenerator.rights (w.asyncGenerators.push ⟨inst, [], false⟩).toList +
    gather Job.rights w.jobs + latchRights targets w.latches.toList = _
  simp only [Array.toList_push, gather_append, gather_cons, gather_nil, AsyncGenerator.rights,
    World.rights, ← Multiset.singleton_add]
  abel

theorem modifyAsyncGenerator_rights (targets : List ObjectId) {id : AsyncGeneratorId}
    {a : AsyncGenerator} {f : AsyncGenerator → AsyncGenerator} (h : w.asyncGenerators[id]? = some a) :
    (Edit.modifyAsyncGenerator id f w).2.rights targets + a.rights =
      w.rights targets + (f a).rights := by
  have ha : w.asyncGenerators.toList[id]? = some a := by rw [Array.getElem?_toList]; exact h
  have hmodify := gather_modify (f := AsyncGenerator.rights) (g := f) ha
  show gather Object.rights w.heap.objects.toList +
    gather AsyncGenerator.rights (w.asyncGenerators.modify id f).toList +
    gather Job.rights w.jobs + latchRights targets w.latches.toList + _ = _
  rw [Array.toList_modify]
  calc
    _ = gather Object.rights w.heap.objects.toList +
        (gather AsyncGenerator.rights (w.asyncGenerators.toList.modify id f) + a.rights) +
        gather Job.rights w.jobs + latchRights targets w.latches.toList := by abel
    _ = _ := by
      rw [hmodify, World.rights]
      abel

end Changes

end Resumable
