import Resumable.Proofs.Promises.Steps

/-!
What holds in every configuration that runs come to. Main definition: `Config.Valid`: whoever may settle
a promise finds it pending, whoever may resume an activation finds it waiting, and the log agrees with
what has been queued and what still waits.
-/

set_option autoImplicit false

namespace Resumable

section Heaps

variable {h h' : Heap} {p id : ObjectId} {o : Object}

theorem Heap.get?_alloc : (h.alloc o).2.get? id = if id = h.objects.size then some o else h.get? id :=
  Array.getElem?_push

theorem Heap.get?_modify {f : Object → Object} :
    (h.modify p f).get? id = if p = id then (h.get? id).map f else h.get? id :=
  Array.getElem?_modify

theorem Heap.get?_size : h.get? h.objects.size = none := by simp [Heap.get?]

theorem Heap.promise?_eq : h.promise? (.obj p) = (h.get? p).bind Object.promise? := rfl

theorem Object.promise?_eq_some {state : PromiseState} :
    o.promise? = some state ↔ o.role = .promise state := by
  unfold Object.promise?
  cases o.role <;> simp

theorem Object.callable?_eq_some {k : Callable} :
    o.callable? = some k ↔ o.role = .function k := by
  unfold Object.callable?
  cases o.role <;> simp

theorem Heap.promise?_eq_some {state : PromiseState} :
    h.promise? (.obj p) = some state ↔ ∃ o, h.get? p = some o ∧ o.role = .promise state := by
  rw [Heap.promise?_eq, Option.bind_eq_some_iff]
  simp only [Object.promise?_eq_some]

theorem Heap.Extends.promise?_eq (hh : h.Extends h') : h'.promise? (.obj p) = h.promise? (.obj p) := by
  have hinert {o : Object} (hi : o.role.isInert = true) : o.promise? = none := by
    unfold Object.promise?
    cases hr : o.role with
    | promise state =>
      rw [hr] at hi
      cases hi
    | ordinary | function | array | arrayIterator | generator | asyncGenerator => rfl
  rw [Heap.promise?_eq, Heap.promise?_eq]
  cases ho : h.get? p with
  | none =>
    cases ho' : h'.get? p with
    | none => rfl
    | some o' => exact hinert (hh.new p o' ho' ho)
  | some o =>
    obtain ⟨o', ho', hr⟩ := hh.old p o ho
    rw [ho']
    show o'.promise? = o.promise?
    by_cases hi : o.role.isInert = true
    · rw [hinert hi, hinert (hr.isInert hi)]
    · rw [Object.promise?, Object.promise?, hr.eq (Bool.eq_false_iff.2 hi)]

theorem Heap.promise?_alloc : (h.alloc o).2.promise? (.obj p) =
    if p = h.objects.size then o.promise? else h.promise? (.obj p) := by
  rw [Heap.promise?_eq, Heap.get?_alloc]
  split <;> rfl

theorem Heap.promise?_setState {q : ObjectId} {old s : PromiseState}
    (hp : h.promise? (.obj p) = some old) :
    (h.modify p fun o => { o with role := .promise s }).promise? (.obj q) =
      if p = q then some s else h.promise? (.obj q) := by
  rw [Heap.promise?_eq, Heap.get?_modify]
  split
  · rename_i heq
    subst heq
    obtain ⟨o, ho, -⟩ := Heap.promise?_eq_some.1 hp
    rw [ho]
    rfl
  · rfl

end Heaps

section Effects

variable {w : World} {p : ObjectId}

theorem forM_enqueue (s : Settlement) (rs : List Reaction) :
    (rs.forM fun r => Edit.enqueue (.react r s)) w =
      ((), { w with jobs := w.jobs ++ rs.map (.react · s) }) := by
  induction rs generalizing w with
  | nil =>
    show ((), w) = _
    simp
  | cons r rs ih =>
    have hstep : ((r :: rs).forM fun r => Edit.enqueue (.react r s)) w =
        (rs.forM fun r => Edit.enqueue (.react r s)) { w with jobs := w.jobs ++ [.react r s] } := rfl
    rw [hstep, ih]
    simp

theorem settle_apply (p : ObjectId) (s : Settlement) (w : World) :
    Promise.settle p s w = (match w.heap.promise? (.obj p) with
      | some (.pending reactions) => do
        Promise.setState p (.settled s)
        reactions.forM fun r => Edit.enqueue (.react r s)
      | some (.settled _) | none => return () : Edit Unit) w := rfl

theorem addReaction_apply (p : ObjectId) (r : Reaction) (w : World) :
    Promise.addReaction p r w = (match w.heap.promise? (.obj p) with
      | some (.pending reactions) => Promise.setState p (.pending (reactions ++ [r]))
      | some (.settled s) => Edit.enqueue (.react r s)
      | none => return () : Edit Unit) w := rfl

theorem settle_eq {rs : List Reaction} (s : Settlement)
    (h : w.heap.promise? (.obj p) = some (.pending rs)) :
    Promise.settle p s w = ((), { w with
      heap := w.heap.modify p fun o => { o with role := .promise (.settled s) }
      jobs := w.jobs ++ rs.map (.react · s) }) := by
  rw [settle_apply, h]
  exact forM_enqueue s rs

theorem addReaction_pending {rs : List Reaction} (r : Reaction)
    (h : w.heap.promise? (.obj p) = some (.pending rs)) :
    Promise.addReaction p r w = ((), { w with
      heap := w.heap.modify p fun o => { o with role := .promise (.pending (rs ++ [r])) } }) := by
  rw [addReaction_apply, h]
  rfl

theorem addReaction_settled {s : Settlement} (r : Reaction)
    (h : w.heap.promise? (.obj p) = some (.settled s)) :
    Promise.addReaction p r w = ((), { w with jobs := w.jobs ++ [.react r s] }) := by
  rw [addReaction_apply, h]
  rfl

end Effects

def queueOf (as : Array AsyncGenerator) (id : AsyncGeneratorId) : List Request :=
  (as[id]?.map AsyncGenerator.queue).getD []

/-- What rights refer to; there is only one of each. -/
structure Standing (R : Multiset Right) (h : Heap) (gs : Array Instance)
    (as : Array AsyncGenerator) : Prop where
  nodup : R.Nodup
  settle : ∀ p : ObjectId, .settle p ∈ R → ∃ rs, h.promise? (.obj p) = some (.pending rs)
  own : ∀ i : InstanceId, .own i ∈ R → ∃ g : Instance, gs[i]? = some g ∧ g.isAsync = true
  ready : ∀ id : AsyncGeneratorId, .ready id ∈ R →
    ∃ a : AsyncGenerator, as[id]? = some a ∧ a.running = true
  serving : ∀ id : AsyncGeneratorId, .serving id ∈ R →
    .ready id ∉ R ∧ ∃ a : AsyncGenerator, as[id]? = some a ∧ a.running = true ∧ a.queue ≠ []

/-- How asynchronous generators stand: one that is not at work has no requests, and the body of one
that is not being served neither executes nor awaits anything. -/
structure Attended (H R : Multiset Right) (gs : Array Instance) (as : Array AsyncGenerator) :
    Prop where
  idle : ∀ (id : AsyncGeneratorId) (a : AsyncGenerator), as[id]? = some a → a.running = false →
    a.queue = []
  inst : ∀ (id : AsyncGeneratorId) (a : AsyncGenerator), as[id]? = some a →
    ∃ g : Instance, gs[a.inst]? = some g ∧ g.isAsync = true ∧
      (.serving id ∉ H → g.status ≠ .executing) ∧ (.serving id ∉ R → g.awaiting = none)
  requests : ∀ (id : AsyncGeneratorId) (a : AsyncGenerator), as[id]? = some a →
    ∀ r ∈ a.queue, r.action.endsDelegate = false

/-- What was told to wait for a promise has been queued with its settlement, all of it and in order,
if the promise has settled; else it waits. -/
def Reactions (h : Heap) (registered : List (ObjectId × Reaction))
    (queued : List (Option ObjectId × Job)) : Prop :=
  ∀ p : ObjectId, match h.promise? (.obj p) with
    | some (.pending rs) => pick p registered = rs ∧ pick (some p) queued = []
    | some (.settled s) => pick (some p) queued = (pick p registered).map (.react · s)
    | none => pick p registered = [] ∧ pick (some p) queued = []

/-- The requests of a generator: all that were made have been answered or wait, and all that were
delivered have been answered except for the one that is being served. -/
structure Served (R : Multiset Right) (as : Array AsyncGenerator)
    (requested delivered answered : List (AsyncGeneratorId × Request)) : Prop where
  requested : ∀ id : AsyncGeneratorId, pick id requested = pick id answered ++ queueOf as id
  delivered : ∀ id : AsyncGeneratorId, pick id delivered = pick id answered ++
    if .serving id ∈ R then (queueOf as id).take 1 else []

/-- What holds in every configuration. -/
structure Config.Valid (c : Config) : Prop where
  standing : Standing c.rights c.world.heap c.world.instances c.world.asyncGenerators
  attended : Attended c.held c.rights c.world.instances c.world.asyncGenerators
  targets : c.log.targets.length = c.world.latches.size
  sound : ∀ (id : ObjectId) (o : Object), c.world.heap.get? id = some o →
    o.role.Sound c.world.instances c.world.asyncGenerators.size c.log.targets
  proper : ∀ (i : InstanceId) (g : Instance), c.world.instances[i]? = some g →
    g.Proper c.world.instances
  reactions : Reactions c.world.heap c.log.registered c.log.queued
  jobs : c.log.queued.map (·.2) = c.log.ran ++ c.world.jobs
  served : Served c.rights c.world.asyncGenerators c.log.requested c.log.delivered c.log.answered

section Standing

variable {R R' : Multiset Right} {h h' : Heap} {gs gs' : Array Instance}
  {as as' : Array AsyncGenerator}

theorem Standing.mono (hs : Standing R h gs as) (hR : R' ≤ R)
    (hp : ∀ p rs, .settle p ∈ R' → h.promise? (.obj p) = some (.pending rs) →
      ∃ rs, h'.promise? (.obj p) = some (.pending rs))
    (hg : ∀ (i : InstanceId) (g : Instance), gs[i]? = some g →
      ∃ g' : Instance, gs'[i]? = some g' ∧ g'.isAsync = g.isAsync)
    (ha : ∀ (id : AsyncGeneratorId) (a : AsyncGenerator), as[id]? = some a → a.running = true →
      ∃ a' : AsyncGenerator, as'[id]? = some a' ∧ (.ready id ∈ R' ∨ .serving id ∈ R' → a'.running = true) ∧
        (.serving id ∈ R' → a.queue ≠ [] → a'.queue ≠ [])) :
    Standing R' h' gs' as' where
  nodup := Multiset.nodup_of_le hR hs.nodup
  settle p hm := by
    obtain ⟨rs, hrs⟩ := hs.settle p (Multiset.mem_of_le hR hm)
    exact hp p rs hm hrs
  own i hm := by
    obtain ⟨g, hgi, hasync⟩ := hs.own i (Multiset.mem_of_le hR hm)
    obtain ⟨g', hg', hsame⟩ := hg i g hgi
    exact ⟨g', hg', hsame.trans hasync⟩
  ready id hm := by
    obtain ⟨a, hid, hr⟩ := hs.ready id (Multiset.mem_of_le hR hm)
    obtain ⟨a', ha', hr', -⟩ := ha id a hid hr
    exact ⟨a', ha', hr' (.inl hm)⟩
  serving id hm := by
    obtain ⟨hready, a, hid, hr, hq⟩ := hs.serving id (Multiset.mem_of_le hR hm)
    obtain ⟨a', ha', hr', hq'⟩ := ha id a hid hr
    exact ⟨fun h => hready (Multiset.mem_of_le hR h), a', ha', hr' (.inr hm), hq' hm hq⟩

theorem Standing.settle_cons {p : ObjectId} (hs : Standing R h gs as) (hp : .settle p ∉ R)
    (hpending : ∃ rs, h.promise? (.obj p) = some (.pending rs)) :
    Standing (.settle p ::ₘ R) h gs as where
  nodup := Multiset.nodup_cons.2 ⟨hp, hs.nodup⟩
  settle q hm := by
    obtain heq | hm := Multiset.mem_cons.1 hm
    · cases heq
      exact hpending
    · exact hs.settle q hm
  own i hm := hs.own i (by simpa using hm)
  ready id hm := hs.ready id (by simpa using hm)
  serving id hm := by
    obtain ⟨hr, ha⟩ := hs.serving id (by simpa using hm)
    exact ⟨by simpa using hr, ha⟩

theorem Standing.own_cons {i : InstanceId} {g : Instance} (hs : Standing R h gs as)
    (hi : .own i ∉ R) (hg : gs[i]? = some g) (hasync : g.isAsync = true) :
    Standing (.own i ::ₘ R) h gs as where
  nodup := Multiset.nodup_cons.2 ⟨hi, hs.nodup⟩
  settle p hm := hs.settle p (by simpa using hm)
  own j hm := by
    obtain heq | hm := Multiset.mem_cons.1 hm
    · cases heq
      exact ⟨g, hg, hasync⟩
    · exact hs.own j hm
  ready id hm := hs.ready id (by simpa using hm)
  serving id hm := by
    obtain ⟨hr, ha⟩ := hs.serving id (by simpa using hm)
    exact ⟨by simpa using hr, ha⟩

theorem Standing.ready_cons {id : AsyncGeneratorId} {a : AsyncGenerator} (hs : Standing R h gs as)
    (hready : .ready id ∉ R) (hserving : .serving id ∉ R) (ha : as[id]? = some a)
    (hr : a.running = true) : Standing (.ready id ::ₘ R) h gs as where
  nodup := Multiset.nodup_cons.2 ⟨hready, hs.nodup⟩
  settle p hm := hs.settle p (by simpa using hm)
  own i hm := hs.own i (by simpa using hm)
  ready j hm := by
    obtain heq | hm := Multiset.mem_cons.1 hm
    · cases heq
      exact ⟨a, ha, hr⟩
    · exact hs.ready j hm
  serving j hm := by
    have hm : .serving j ∈ R := by simpa using hm
    obtain ⟨hr, ha⟩ := hs.serving j hm
    refine ⟨fun h => ?_, ha⟩
    obtain heq | h := Multiset.mem_cons.1 h
    · cases heq
      exact hserving hm
    · exact hr h

theorem Standing.serving_cons {id : AsyncGeneratorId} {a : AsyncGenerator} (hs : Standing R h gs as)
    (hready : .ready id ∉ R) (hserving : .serving id ∉ R) (ha : as[id]? = some a)
    (hr : a.running = true) (hq : a.queue ≠ []) : Standing (.serving id ::ₘ R) h gs as where
  nodup := Multiset.nodup_cons.2 ⟨hserving, hs.nodup⟩
  settle p hm := hs.settle p (by simpa using hm)
  own i hm := hs.own i (by simpa using hm)
  ready j hm := hs.ready j (by simpa using hm)
  serving j hm := by
    obtain heq | hm := Multiset.mem_cons.1 hm
    · cases heq
      exact ⟨by simpa using hready, a, ha, hr, hq⟩
    · obtain ⟨hr, ha⟩ := hs.serving j hm
      exact ⟨by simpa using hr, ha⟩

theorem Standing.heap (hs : Standing R h gs as)
    (hp : ∀ p, h'.promise? (.obj p) = h.promise? (.obj p)) : Standing R h' gs as :=
  ⟨hs.nodup, fun p hm => by rw [hp]; exact hs.settle p hm, hs.own, hs.ready, hs.serving⟩

end Standing

section Parts

variable {H H' R R' : Multiset Right} {gs gs' : Array Instance} {as : Array AsyncGenerator}

theorem Attended.mono (ha : Attended H R gs as) (hH : ∀ id, .serving id ∉ H' → .serving id ∉ H)
    (hR : ∀ id, .serving id ∉ R' → .serving id ∉ R) : Attended H' R' gs as where
  idle := ha.idle
  inst id a hid := by
    obtain ⟨g, hg, hasync, hexec, hawait⟩ := ha.inst id a hid
    exact ⟨g, hg, hasync, fun h => hexec (hH id h), fun h => hawait (hR id h)⟩
  requests := ha.requests

theorem Served.congr {requested delivered answered : List (AsyncGeneratorId × Request)}
    (hs : Served R as requested delivered answered)
    (hR : ∀ id, .serving id ∈ R' ↔ .serving id ∈ R) : Served R' as requested delivered answered :=
  ⟨hs.requested, fun id => by simp only [hR]; exact hs.delivered id⟩

theorem Reactions.heap {h h' : Heap} {registered : List (ObjectId × Reaction)}
    {queued : List (Option ObjectId × Job)} (hr : Reactions h registered queued)
    (hp : ∀ p, h'.promise? (.obj p) = h.promise? (.obj p)) : Reactions h' registered queued := by
  intro p
  rw [hp]
  exact hr p

theorem Instance.Proper.mono {g : Instance} (hg : g.Proper gs)
    (hsync : ∀ i, IsSync gs i → IsSync gs' i) : g.Proper gs' :=
  ⟨hg.parked, fun j hj => ⟨(hg.delegate j hj).1, hsync j (hg.delegate j hj).2⟩, hg.started, hg.ended⟩

theorem Role.Sound.mono {n n' : Nat} {targets targets' : List ObjectId} {r : Role}
    (hr : r.Sound gs n targets) (hsync : ∀ i, IsSync gs i → IsSync gs' i) (hn : n ≤ n')
    (ht : ∀ (l : LatchId) (p : ObjectId), targets[l]? = some p → targets'[l]? = some p) :
    r.Sound gs' n' targets' := by
  match r with
  | .generator i => exact hsync i hr
  | .asyncGenerator id => exact Nat.lt_of_lt_of_le hr hn
  | .function (.native n) =>
    cases n with
    | resolve p l | reject p l => exact ht l p hr
    | _ => trivial
  | .function (.closure _) | .ordinary | .array _ | .arrayIterator _ _ _ _ | .promise _ => trivial

theorem Role.sound_of_isInert {n : Nat} {targets : List ObjectId} {r : Role}
    (hr : r.isInert = true) : r.Sound gs n targets := by
  match r with
  | .generator i | .asyncGenerator id => cases hr
  | .function (.native n) =>
    cases n with
    | resolve p l | reject p l => cases hr
    | _ => trivial
  | .function (.closure _) | .ordinary | .array _ | .arrayIterator _ _ _ _ | .promise _ => trivial

end Parts

end Resumable
