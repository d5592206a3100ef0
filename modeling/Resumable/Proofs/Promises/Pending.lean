import Resumable.Proofs.Promises.Activity

/-!
The steps of promises keep configurations valid: they are made, left to a pair of functions, waited for
and settled.
-/

set_option autoImplicit false

namespace Resumable

namespace Config.Valid

variable {w w' : World} {H : Multiset Right} {L : Log}

theorem newPromise (hv : Valid ⟨w, H, L⟩) :
    Valid ⟨(Edit.newPromise w).2, .settle w.heap.objects.size ::ₘ H, L⟩ := by
  let o : Object := ⟨some w.realm.promise, .empty, .promise (.pending [])⟩
  have hR : rights ⟨(Edit.newPromise w).2, .settle w.heap.objects.size ::ₘ H, L⟩ =
      .settle w.heap.objects.size ::ₘ rights ⟨w, H, L⟩ := by
    have halloc : (Edit.newPromise w).2.rights L.targets = o.rights + w.rights L.targets :=
      alloc_rights o
    have hzero : o.rights = 0 := rfl
    rw [rights, rights, halloc, hzero, zero_add, Multiset.cons_add]
  have hfresh : w.heap.promise? (.obj w.heap.objects.size) = none := by
    rw [Heap.promise?_eq, Heap.get?_size]
    rfl
  have hp (p : ObjectId) : (Edit.newPromise w).2.heap.promise? (.obj p) =
      if p = w.heap.objects.size then some (.pending []) else w.heap.promise? (.obj p) :=
    Heap.promise?_alloc
  constructor
  case standing =>
    rw [hR]
    refine (hv.standing.mono le_rfl (fun p rs _ h => ⟨rs, ?_⟩) (fun _ g hg => ⟨g, hg, rfl⟩)
      fun id a h hr => ⟨a, h, fun _ => hr, fun _ h => h⟩).settle_cons (fun hmem => ?_) ⟨[], ?_⟩
    · refine (hp p).trans ((if_neg fun heq => ?_).trans h)
      rw [heq, hfresh] at h
      cases h
    · obtain ⟨rs, hrs⟩ := hv.standing.settle _ hmem
      cases hfresh.symm.trans hrs
    · exact (hp _).trans (if_pos rfl)
  case attended =>
    rw [hR]
    exact hv.attended.mono (fun id h => by simpa using h) fun id h => by simpa using h
  case targets => exact hv.targets
  case sound =>
    intro id o' ho'
    have ho' := Heap.get?_alloc.symm.trans ho'
    split at ho'
    · cases ho'
      trivial
    · exact hv.sound id o' ho'
  case proper => exact hv.proper
  case reactions =>
    intro p
    have hr := hv.reactions p
    rw [hp]
    split
    · rename_i heq rs hrs
      split at hrs
      · rename_i heq
        cases hrs
        rw [heq, hfresh] at hr
        rw [heq]
        exact hr
      · rw [hrs] at hr
        exact hr
    · rename_i s hs
      split at hs
      · cases hs
      · rw [hs] at hr
        exact hr
    · rename_i hnone
      split at hnone
      · cases hnone
      · rw [hnone] at hr
        exact hr
  case jobs => exact hv.jobs
  case served =>
    rw [hR]
    exact hv.served.congr fun id => by simp

theorem newLatch {p : ObjectId} (hv : Valid ⟨w, .settle p ::ₘ H, L⟩) :
    Valid ⟨(Edit.newLatch w).2, H, { L with targets := L.targets ++ [p] }⟩ := by
  have hR : rights ⟨(Edit.newLatch w).2, H, { L with targets := L.targets ++ [p] }⟩ =
      rights ⟨w, .settle p ::ₘ H, L⟩ := by
    simp only [rights, newLatch_rights hv.targets, Multiset.add_cons, Multiset.cons_add]
  constructor
  case standing =>
    rw [hR]
    exact hv.standing
  case attended =>
    rw [hR]
    exact hv.attended.mono (fun id h => by simpa using h) fun id h => h
  case targets =>
    show (L.targets ++ [p]).length = (w.latches.push false).size
    rw [List.length_append, hv.targets, Array.size_push]
    rfl
  case sound =>
    refine fun id o ho => (hv.sound id o ho).mono (fun _ h => h) le_rfl fun l q h => ?_
    exact (List.getElem?_append_left (List.getElem?_eq_some_iff.1 h).1).trans h
  case proper => exact hv.proper
  case reactions => exact hv.reactions
  case jobs => exact hv.jobs
  case served =>
    rw [hR]
    exact hv.served

theorem newResolvers {p : ObjectId} (hv : Valid ⟨w, .settle p ::ₘ H, L⟩) :
    Valid ⟨(Promise.newResolvers p w).2, H, { L with targets := L.targets ++ [p] }⟩ := by
  have htarget : (L.targets ++ [p])[w.latches.size]? = some p := by
    rw [← hv.targets]
    exact List.getElem?_concat_length
  have hresolve := hv.newLatch.alloc (o := ⟨some w.realm.object, Edit.functionFields "" 1,
    .function (.native (.resolve p w.latches.size))⟩) rfl htarget
  exact hresolve.alloc (o := ⟨some w.realm.object, Edit.functionFields "" 1,
    .function (.native (.reject p w.latches.size))⟩) rfl htarget

theorem take {l : LatchId} {p : ObjectId} (hv : Valid ⟨w, H, L⟩) (ht : L.targets[l]? = some p)
    (hl : w.latches[l]? = some false) : Valid ⟨(Edit.takeLatch l w).2, .settle p ::ₘ H, L⟩ := by
  have hR : rights ⟨(Edit.takeLatch l w).2, .settle p ::ₘ H, L⟩ = rights ⟨w, H, L⟩ := by
    simp only [rights, takeLatch_rights ht hl, Multiset.add_cons, Multiset.cons_add]
  constructor
  case standing =>
    rw [hR]
    exact hv.standing
  case attended =>
    rw [hR]
    exact hv.attended.mono (fun id h => by simpa using h) fun id h => h
  case targets => exact hv.targets.trans (Array.size_setIfInBounds).symm
  case sound => exact hv.sound
  case proper => exact hv.proper
  case reactions => exact hv.reactions
  case jobs => exact hv.jobs
  case served =>
    rw [hR]
    exact hv.served

theorem sound_setState (hv : Valid ⟨w, H, L⟩) (p : ObjectId) (state : PromiseState) (id : ObjectId)
    (o : Object) (ho : (w.heap.modify p fun o => { o with role := .promise state }).get? id = some o) :
    o.role.Sound w.instances w.asyncGenerators.size L.targets := by
  rw [Heap.get?_modify] at ho
  split at ho
  · obtain ⟨o', -, rfl⟩ := Option.map_eq_some_iff.1 ho
    trivial
  · exact hv.sound id o ho

theorem settle {p : ObjectId} {rs : List Reaction} (s : Settlement)
    (hv : Valid ⟨w, .settle p ::ₘ H, L⟩) (hp : w.heap.promise? (.obj p) = some (.pending rs)) :
    Valid ⟨(Promise.settle p s w).2, H, { L with queued := L.queued ++ settledJobs p s rs }⟩ := by
  rw [settle_eq s hp]
  obtain ⟨o, ho, hrole⟩ := Heap.promise?_eq_some.1 hp
  have hR : rights ⟨w, .settle p ::ₘ H, L⟩ = .settle p ::ₘ rights ⟨{ w with
      heap := w.heap.modify p fun o => { o with role := .promise (.settled s) }
      jobs := w.jobs ++ rs.map (.react · s) }, H,
      { L with queued := L.queued ++ settledJobs p s rs }⟩ := by
    -- what lay in the promise lies in the queue
    have hupdate := update_rights L.targets
      (f := fun o => { o with role := .promise (.settled s) }) ho
    have hjobs : gather Job.rights (rs.map (.react · s)) = o.rights := by
      rw [gather_map, Object.rights, hrole]
      rfl
    have hafter := jobs_rights L.targets (Edit.update p
      (fun o => { o with role := .promise (.settled s) }) w).2 (rs.map (.react · s))
    rw [hjobs, add_comm, hupdate] at hafter
    have hzero : ({ o with role := .promise (.settled s) } : Object).rights = 0 := rfl
    rw [hzero, add_zero] at hafter
    rw [rights, rights, Multiset.cons_add]
    exact congrArg (fun R => Right.settle p ::ₘ (H + R)) hafter.symm
  have hstate (q : ObjectId) := Heap.promise?_setState (q := q) (s := .settled s) hp
  have hserving (id : AsyncGeneratorId) (R : Multiset Right) :
      .serving id ∈ Right.settle p ::ₘ R ↔ .serving id ∈ R := by simp
  have hstanding := hv.standing
  rw [hR] at hstanding
  constructor
  case standing =>
    refine hstanding.mono (Multiset.le_cons_self _ _) (fun q rs hq h => ⟨rs, ?_⟩)
      (fun _ g hg => ⟨g, hg, rfl⟩) fun id a h hr => ⟨a, h, fun _ => hr, fun _ h => h⟩
    refine (hstate q).trans ((if_neg fun heq => ?_).trans h)
    exact (Multiset.nodup_cons.1 hstanding.nodup).1 (heq ▸ hq)
  case attended =>
    refine hv.attended.mono (fun id h => by rwa [hserving]) fun id h => ?_
    rwa [hR, hserving]
  case targets => exact hv.targets
  case sound => exact hv.sound_setState p (.settled s)
  case proper => exact hv.proper
  case reactions =>
    intro q
    have hr := hv.reactions q
    rw [hstate, pick_append]
    by_cases heq : p = q
    · subst heq
      rw [hp] at hr
      rw [if_pos rfl]
      show _ = _
      rw [hr.2, settledJobs, pick_map_self, hr.1, List.nil_append]
    · rw [if_neg heq, settledJobs, pick_map_other (by simpa using heq), List.append_nil]
      exact hr
  case jobs =>
    show (L.queued ++ settledJobs p s rs).map (·.2) = L.ran ++ (w.jobs ++ rs.map (.react · s))
    rw [List.map_append, hv.jobs, settledJobs, List.map_map, List.append_assoc]
    rfl
  case served =>
    refine hv.served.congr fun id => ?_
    rw [hR, hserving]

theorem register {p : ObjectId} {state : PromiseState} {r : Reaction}
    (hv : Valid ⟨w, r.rights + H, L⟩) (hp : w.heap.promise? (.obj p) = some state)
    (hhalts : ∀ id, .serving id ∈ r.rights → w.Halts id) :
    Valid ⟨(Promise.addReaction p r w).2, H, { L with
      registered := L.registered ++ [(p, r)]
      queued := L.queued ++ state.reacts p r }⟩ := by
  have hattended {R : Multiset Right} (hR : R = rights ⟨w, r.rights + H, L⟩) :
      Attended H R w.instances w.asyncGenerators := by
    refine ⟨hv.attended.idle, fun id a ha => ?_, hv.attended.requests⟩
    obtain ⟨g, hg, hasync, hexec, hawait⟩ := hv.attended.inst id a ha
    refine ⟨g, hg, hasync, fun h => ?_, by rwa [hR]⟩
    by_cases hmem : .serving id ∈ r.rights
    · exact hhalts id hmem a g ha hg
    · exact hexec fun h' => (Multiset.mem_add.1 h').elim hmem h
  cases state with
  | pending rs =>
    show Valid ⟨_, H, { L with registered := L.registered ++ [(p, r)], queued := L.queued ++ [] }⟩
    rw [addReaction_pending r hp, List.append_nil]
    obtain ⟨o, ho, hrole⟩ := Heap.promise?_eq_some.1 hp
    have hR : rights ⟨{ w with
        heap := w.heap.modify p fun o => { o with role := .promise (.pending (rs ++ [r])) } }, H,
        { L with registered := L.registered ++ [(p, r)] }⟩ =
        rights ⟨w, r.rights + H, L⟩ := by
      have hupdate := update_rights L.targets
        (f := fun o => { o with role := .promise (.pending (rs ++ [r])) }) ho
      have hold : o.rights = gather Reaction.rights rs := by
        rw [Object.rights, hrole]
        rfl
      have hnew : ({ o with role := .promise (.pending (rs ++ [r])) } : Object).rights =
          r.rights + gather Reaction.rights rs := by
        show gather Reaction.rights (rs ++ [r]) = _
        simp [add_comm]
      rw [hold, hnew, ← add_assoc] at hupdate
      have hupdate := add_right_cancel hupdate
      refine (congrArg (fun R => H + R) hupdate).trans ?_
      show H + (w.rights L.targets + r.rights) = r.rights + H + w.rights L.targets
      abel
    have hstate (q : ObjectId) := Heap.promise?_setState (q := q) (s := .pending (rs ++ [r])) hp
    constructor
    case standing =>
      refine hv.standing.mono hR.le (fun q rs' _ h => ?_)
        (fun _ g hg => ⟨g, hg, rfl⟩) fun id a h hr => ⟨a, h, fun _ => hr, fun _ h => h⟩
      by_cases heq : p = q
      · exact ⟨_, (hstate q).trans (if_pos heq)⟩
      · exact ⟨rs', (hstate q).trans ((if_neg heq).trans h)⟩
    case attended => exact hattended hR
    case targets => exact hv.targets
    case sound => exact hv.sound_setState p _
    case proper => exact hv.proper
    case reactions =>
      intro q
      have hr := hv.reactions q
      rw [hstate, pick_append]
      by_cases heq : p = q
      · subst heq
        rw [hp] at hr
        rw [if_pos rfl, pick_self]
        exact ⟨by rw [hr.1], hr.2⟩
      · rw [if_neg heq, pick_other heq, List.append_nil]
        exact hr
    case jobs => exact hv.jobs
    case served => exact hv.served.congr fun id => by rw [hR]
  | settled s =>
    rw [addReaction_settled r hp]
    have hR : rights ⟨{ w with jobs := w.jobs ++ [.react r s] }, H, { L with
        registered := L.registered ++ [(p, r)], queued := L.queued ++ [(some p, .react r s)] }⟩ =
        rights ⟨w, r.rights + H, L⟩ := by
      simp only [rights, jobs_rights, gather_cons, gather_nil, add_zero, Job.rights]
      abel
    constructor
    case standing =>
      have hstanding := hv.standing
      rw [← hR] at hstanding
      exact hstanding
    case attended => exact hattended hR
    case targets => exact hv.targets
    case sound => exact hv.sound
    case proper => exact hv.proper
    case reactions =>
      intro q
      have hr := hv.reactions q
      by_cases heq : p = q
      · subst heq
        rw [hp] at hr ⊢
        show pick _ (_ ++ [_]) = (pick _ (_ ++ [_])).map _
        rw [pick_append, pick_append, pick_self, pick_self, hr, List.map_append]
        rfl
      · simp only [pick_append, pick_other heq, PromiseState.reacts,
          pick_other (show some p ≠ some q by simpa using heq), List.append_nil]
        exact hr
    case jobs =>
      show (L.queued ++ [(some p, Job.react r s)]).map (·.2) = L.ran ++ (w.jobs ++ [.react r s])
      rw [List.map_append, hv.jobs, List.append_assoc]
      rfl
    case served => exact hv.served.congr fun id => iff_of_eq (congrArg (Right.serving id ∈ ·) hR)

theorem adopt (hv : Valid ⟨w, H, L⟩) (thenable method resolve reject : Value) :
    Valid ⟨(Edit.enqueue (.adopt thenable method resolve reject) w).2, H,
      { L with queued := L.queued ++ [(none, .adopt thenable method resolve reject)] }⟩ := by
  have hR : rights ⟨(Edit.enqueue (.adopt thenable method resolve reject) w).2, H,
      { L with queued := L.queued ++ [(none, .adopt thenable method resolve reject)] }⟩ =
      rights ⟨w, H, L⟩ :=
    congrArg (fun R => H + R) ((jobs_rights _ _ _).trans (zero_add _))
  constructor
  case standing =>
    rw [hR]
    exact hv.standing
  case attended =>
    rw [hR]
    exact hv.attended
  case targets => exact hv.targets
  case sound => exact hv.sound
  case proper => exact hv.proper
  case reactions =>
    intro p
    show match w.heap.promise? (.obj p) with | _ => _
    simp only [pick_append, pick_other (show none ≠ some p from nofun), List.append_nil]
    exact hv.reactions p
  case jobs =>
    refine List.map_append.trans ?_
    rw [hv.jobs, List.append_assoc]
    rfl
  case served =>
    rw [hR]
    exact hv.served

end Config.Valid

end Resumable
