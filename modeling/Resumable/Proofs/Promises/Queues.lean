import Resumable.Proofs.Promises.Pending

/-!
The steps of queues keep configurations valid: requests to asynchronous generators, from the request to
the answer, and jobs.
-/

set_option autoImplicit false

namespace Resumable

namespace Config.Valid

variable {w w' : World} {H : Multiset Right} {L : Log}

theorem getElem?_modify_self {id : AsyncGeneratorId} {a : AsyncGenerator}
    {f : AsyncGenerator → AsyncGenerator} (ha : w.asyncGenerators[id]? = some a)
    (j : AsyncGeneratorId) :
    (w.asyncGenerators.modify id f)[j]? = if id = j then some (f a) else w.asyncGenerators[j]? := by
  rw [Array.getElem?_modify]
  split
  · rename_i heq
    rw [← heq, ha]
    rfl
  · rfl

theorem queueOf_modify {id : AsyncGeneratorId} {a : AsyncGenerator}
    {f : AsyncGenerator → AsyncGenerator} (ha : w.asyncGenerators[id]? = some a)
    (j : AsyncGeneratorId) :
    queueOf (w.asyncGenerators.modify id f) j =
      if id = j then (f a).queue else queueOf w.asyncGenerators j := by
  unfold queueOf
  rw [getElem?_modify_self ha]
  split <;> rfl

theorem request {id : AsyncGeneratorId} {a : AsyncGenerator} {r : Request}
    (hv : Valid ⟨w, .settle r.promise ::ₘ H, L⟩) (ha : w.asyncGenerators[id]? = some a)
    (hr : r.action.endsDelegate = false) :
    Valid ⟨(Edit.request id r w).2, (if a.running then 0 else {.ready id}) + H,
      { L with requested := L.requested ++ [(id, r)] }⟩ := by
  have hget := getElem?_modify_self
    (f := fun a => { a with queue := a.queue ++ [r], running := true }) ha
  have hR : rights ⟨(Edit.request id r w).2, (if a.running then 0 else {.ready id}) + H,
      { L with requested := L.requested ++ [(id, r)] }⟩ =
      (if a.running then 0 else {.ready id}) + rights ⟨w, .settle r.promise ::ₘ H, L⟩ := by
    have hmodify := modifyAsyncGenerator_rights L.targets
      (f := fun a => { a with queue := a.queue ++ [r], running := true }) ha
    have hnew : ({ a with queue := a.queue ++ [r], running := true } : AsyncGenerator).rights =
        {.settle r.promise} + a.rights := by
      simp only [AsyncGenerator.rights, gather_append, gather_cons, gather_nil, add_zero,
        Request.rights, ← Multiset.singleton_add]
      abel
    rw [hnew, ← add_assoc] at hmodify
    have hmodify := add_right_cancel hmodify
    refine (congrArg (fun R => (if a.running then 0 else {.ready id}) + H + R) hmodify).trans ?_
    show (if a.running then 0 else {.ready id}) + H + (w.rights L.targets + {.settle r.promise}) =
      (if a.running then 0 else {.ready id}) + (.settle r.promise ::ₘ H + w.rights L.targets)
    rw [← Multiset.singleton_add]
    abel
  have hserving (R : Multiset Right) (j : AsyncGeneratorId) :
      .serving j ∈ (if a.running then 0 else {.ready id}) + R ↔ .serving j ∈ R := by
    cases a.running <;> simp
  have hstanding : Standing (rights ⟨w, .settle r.promise ::ₘ H, L⟩) w.heap w.instances
      (w.asyncGenerators.modify id fun a => { a with queue := a.queue ++ [r], running := true }) := by
    refine hv.standing.mono le_rfl (fun _ rs _ h => ⟨rs, h⟩) (fun _ g hg => ⟨g, hg, rfl⟩)
      fun j b hb hrun => ?_
    rw [hget]
    by_cases heq : id = j
    · exact ⟨_, if_pos heq, fun _ => rfl, fun _ _ => by simp⟩
    · exact ⟨b, (if_neg heq).trans hb, fun _ => hrun, fun _ h => h⟩
  constructor
  case standing =>
    rw [hR]
    cases hrun : a.running with
    | true =>
      rw [if_pos rfl, zero_add]
      exact hstanding
    | false =>
      rw [if_neg Bool.false_ne_true, Multiset.singleton_add]
      refine hstanding.ready_cons (fun h => ?_) (fun h => ?_) ((hget id).trans (if_pos rfl)) rfl
      · obtain ⟨b, hb, hrun'⟩ := hv.standing.ready id h
        cases ha.symm.trans hb
        cases hrun.symm.trans hrun'
      · obtain ⟨-, b, hb, hrun', -⟩ := hv.standing.serving id h
        cases ha.symm.trans hb
        cases hrun.symm.trans hrun'
  case attended =>
    rw [hR]
    refine Attended.mono (H := .settle r.promise ::ₘ H) (R := rights ⟨w, .settle r.promise ::ₘ H, L⟩)
      ⟨fun j b hb => ?_, fun j b hb => ?_, fun j b hb => ?_⟩ (fun j h => ?_) (fun j h => ?_)
    · have hb := (hget j).symm.trans hb
      split at hb
      · cases hb
        rintro ⟨⟩
      · exact hv.attended.idle j b hb
    · have hb := (hget j).symm.trans hb
      split at hb
      · rename_i heq
        cases hb
        rw [← heq]
        exact hv.attended.inst id a ha
      · exact hv.attended.inst j b hb
    · have hb := (hget j).symm.trans hb
      split at hb
      · cases hb
        intro r' hr'
        obtain hr' | hr' := List.mem_append.1 hr'
        · exact hv.attended.requests id a ha r' hr'
        · rw [List.mem_singleton.1 hr']
          exact hr
      · exact hv.attended.requests j b hb
    · rw [hserving] at h
      simpa using h
    · rwa [hserving] at h
  case targets => exact hv.targets
  case sound =>
    refine fun i o ho => (hv.sound i o ho).mono (fun _ h => h) ?_ fun _ _ h => h
    exact (Array.size_modify).ge
  case proper => exact hv.proper
  case reactions => exact hv.reactions
  case jobs => exact hv.jobs
  case served =>
    rw [hR]
    refine Served.congr (R := rights ⟨w, .settle r.promise ::ₘ H, L⟩)
      ⟨fun j => ?_, fun j => ?_⟩ fun j => hserving _ j
    · show pick j (L.requested ++ [(id, r)]) = pick j L.answered ++ queueOf (w.asyncGenerators.modify ..) j
      rw [pick_append, hv.served.requested j, queueOf_modify ha, List.append_assoc]
      by_cases heq : id = j
      · subst heq
        rw [if_pos rfl, pick_self, queueOf, ha]
        rfl
      · rw [if_neg heq, pick_other heq, List.append_nil]
    · -- the request that is being served stays at the head
      refine (hv.served.delivered j).trans (congrArg (pick j L.answered ++ ·) ?_)
      split
      · rename_i hmem
        show _ = (queueOf (w.asyncGenerators.modify ..) j).take 1
        rw [queueOf_modify ha]
        by_cases heq : id = j
        · subst heq
          obtain ⟨-, b, hb, -, hq⟩ := hv.standing.serving id hmem
          cases ha.symm.trans hb
          rw [if_pos rfl, queueOf, ha]
          show a.queue.take 1 = (a.queue ++ [r]).take 1
          rw [List.take_append_of_le_length (List.length_pos_iff.2 hq)]
        · rw [if_neg heq]
      · rfl

theorem deliver {id : AsyncGeneratorId} {a : AsyncGenerator} {r : Request} {rest : List Request}
    (hv : Valid ⟨w, .ready id ::ₘ H, L⟩) (ha : w.asyncGenerators[id]? = some a)
    (hq : a.queue = r :: rest) :
    Valid ⟨w, .serving id ::ₘ H, { L with delivered := L.delivered ++ [(id, r)] }⟩ := by
  have hR : rights ⟨w, .ready id ::ₘ H, L⟩ = .ready id ::ₘ (H + w.rights L.targets) :=
    Multiset.cons_add _ _ _
  have hR' : rights ⟨w, .serving id ::ₘ H, { L with delivered := L.delivered ++ [(id, r)] }⟩ =
      .serving id ::ₘ (H + w.rights L.targets) := Multiset.cons_add _ _ _
  have hstanding := hv.standing
  rw [hR] at hstanding
  have hnot : .serving id ∉ H + w.rights L.targets := fun h =>
    (hstanding.serving id (Multiset.mem_cons_of_mem h)).1 (Multiset.mem_cons_self _ _)
  have hother {j : AsyncGeneratorId} (hne : id ≠ j) (R : Multiset Right) :
      .serving j ∈ Right.serving id ::ₘ R ↔ .serving j ∈ Right.ready id ::ₘ R := by
    simp [Ne.symm hne]
  constructor
  case standing =>
    rw [hR']
    obtain ⟨b, hb, hrun⟩ := hstanding.ready id (Multiset.mem_cons_self _ _)
    cases ha.symm.trans hb
    refine (hstanding.mono (Multiset.le_cons_self _ _) (fun _ rs _ h => ⟨rs, h⟩)
      (fun _ g hg => ⟨g, hg, rfl⟩) fun id a h hr => ⟨a, h, fun _ => hr, fun _ h => h⟩).serving_cons
      (Multiset.nodup_cons.1 hstanding.nodup).1 hnot ha hrun ?_
    rw [hq]
    nofun
  case attended =>
    rw [hR']
    refine ⟨hv.attended.idle, fun j b hb => ?_, hv.attended.requests⟩
    obtain ⟨g, hg, hasync, hexec, hawait⟩ := hv.attended.inst j b hb
    rw [hR] at hawait
    refine ⟨g, hg, hasync, fun h => hexec fun h' => ?_, fun h => hawait fun h' => ?_⟩ <;>
      by_cases heq : id = j
    · exact h (heq ▸ Multiset.mem_cons_self _ _)
    · exact h ((hother heq _).2 h')
    · exact h (heq ▸ Multiset.mem_cons_self _ _)
    · exact h ((hother heq _).2 h')
  case targets => exact hv.targets
  case sound => exact hv.sound
  case proper => exact hv.proper
  case reactions => exact hv.reactions
  case jobs => exact hv.jobs
  case served =>
    refine ⟨hv.served.requested, fun j => ?_⟩
    have hdelivered := hv.served.delivered j
    rw [hR] at hdelivered
    rw [hR', pick_append, hdelivered]
    by_cases heq : id = j
    · subst heq
      rw [pick_self, if_neg (by simpa using hnot), if_pos (Multiset.mem_cons_self _ _), List.append_nil,
        queueOf, ha]
      show _ = pick id L.answered ++ a.queue.take 1
      rw [hq]
      rfl
    · rw [pick_other heq, List.append_nil]
      simp only [hother heq]

theorem dropRequest {id : AsyncGeneratorId} {a : AsyncGenerator} {r : Request} {rest : List Request}
    (entrusted : List (AsyncGeneratorId × Request)) (hv : Valid ⟨w, .serving id ::ₘ H, L⟩)
    (ha : w.asyncGenerators[id]? = some a) (hq : a.queue = r :: rest) (hrests : w.Rests id) :
    Valid ⟨(Edit.dropRequest id w).2, .ready id ::ₘ .settle r.promise ::ₘ H,
      { L with answered := L.answered ++ [(id, r)], entrusted }⟩ := by
  have hget := getElem?_modify_self (f := fun a => { a with queue := a.queue.tail }) ha
  have hR : rights ⟨w, .serving id ::ₘ H, L⟩ = .serving id ::ₘ (H + w.rights L.targets) :=
    Multiset.cons_add _ _ _
  have hR' : rights ⟨(Edit.dropRequest id w).2, .ready id ::ₘ .settle r.promise ::ₘ H,
      { L with answered := L.answered ++ [(id, r)], entrusted }⟩ =
      .ready id ::ₘ (H + w.rights L.targets) := by
    have hmodify := modifyAsyncGenerator_rights L.targets
      (f := fun a => { a with queue := a.queue.tail }) ha
    have hold : a.rights = {.settle r.promise} +
        ({ a with queue := a.queue.tail } : AsyncGenerator).rights := by
      simp only [AsyncGenerator.rights, hq, gather_cons, List.tail_cons, Request.rights,
        ← Multiset.singleton_add]
      abel
    rw [hold, ← add_assoc] at hmodify
    have hmodify := add_right_cancel hmodify
    rw [← hmodify]
    show .ready id ::ₘ .settle r.promise ::ₘ H + (Edit.dropRequest id w).2.rights L.targets =
      .ready id ::ₘ (H + ((Edit.dropRequest id w).2.rights L.targets + {.settle r.promise}))
    rw [Multiset.cons_add, Multiset.cons_add, ← Multiset.singleton_add (Right.settle r.promise)]
    refine congrArg (Right.ready id ::ₘ ·) ?_
    abel
  have hstanding := hv.standing
  rw [hR] at hstanding
  obtain ⟨hready, b, hb, hrun, -⟩ := hstanding.serving id (Multiset.mem_cons_self _ _)
  cases ha.symm.trans hb
  have hnot : .serving id ∉ H + w.rights L.targets := (Multiset.nodup_cons.1 hstanding.nodup).1
  have hother {j : AsyncGeneratorId} (hne : id ≠ j) (R : Multiset Right) :
      .serving j ∈ Right.serving id ::ₘ R ↔ .serving j ∈ Right.ready id ::ₘ R := by
    simp [Ne.symm hne]
  constructor
  case standing =>
    rw [hR']
    refine Standing.ready_cons ?_ (fun h => hready (Multiset.mem_cons_of_mem h)) hnot
      ((hget id).trans (if_pos rfl)) hrun
    refine hstanding.mono (Multiset.le_cons_self _ _) (fun _ rs _ h => ⟨rs, h⟩)
      (fun _ g hg => ⟨g, hg, rfl⟩) fun j b hb hrun' => ?_
    by_cases heq : id = j
    · subst heq
      exact ⟨_, (hget id).trans (if_pos rfl), fun _ => hrun, fun h => (hnot h).elim⟩
    · exact ⟨b, (hget j).trans ((if_neg heq).trans hb), fun _ => hrun', fun _ h => h⟩
  case attended =>
    rw [hR']
    refine ⟨fun j b hb => ?_, fun j b hb => ?_, fun j b hb => ?_⟩ <;>
      have hb := (hget j).symm.trans hb <;> by_cases heq : id = j
    · rw [if_pos heq] at hb
      cases hb
      intro hidle
      cases hrun.symm.trans hidle
    · rw [if_neg heq] at hb
      exact hv.attended.idle j b hb
    · rw [if_pos heq] at hb
      cases hb
      obtain ⟨g, hg, hasync, -, -⟩ := hv.attended.inst id a ha
      obtain ⟨hexec, hawait⟩ := hrests a g ha hg
      exact ⟨g, hg, hasync, fun _ => hexec, fun _ => hawait⟩
    · rw [if_neg heq] at hb
      obtain ⟨g, hg, hasync, hexec, hawait⟩ := hv.attended.inst j b hb
      rw [hR] at hawait
      refine ⟨g, hg, hasync, fun h => hexec fun h' => h ?_, fun h => hawait fun h' => h ?_⟩
      · have h' := (hother heq _).1 h'
        simp only [Multiset.mem_cons, reduceCtorEq, false_or] at h' ⊢
        exact h'
      · exact (hother heq _).1 h'
    · rw [if_pos heq] at hb
      cases hb
      exact fun r' hr' => hv.attended.requests id a ha r' (List.mem_of_mem_tail hr')
    · rw [if_neg heq] at hb
      exact hv.attended.requests j b hb
  case targets => exact hv.targets
  case sound =>
    refine fun i o ho => (hv.sound i o ho).mono (fun _ h => h) ?_ fun _ _ h => h
    exact (Array.size_modify).ge
  case proper => exact hv.proper
  case reactions => exact hv.reactions
  case jobs => exact hv.jobs
  case served =>
    have hqueue (j : AsyncGeneratorId) : queueOf (Edit.dropRequest id w).2.asyncGenerators j =
        if id = j then rest else queueOf w.asyncGenerators j := by
      refine (queueOf_modify (f := fun a => { a with queue := a.queue.tail }) ha j).trans ?_
      rw [hq]
      rfl
    have hbefore : queueOf w.asyncGenerators id = r :: rest := by
      rw [queueOf, ha]
      exact hq
    refine ⟨fun j => ?_, fun j => ?_⟩
    · refine (hv.served.requested j).trans ?_
      rw [pick_append, hqueue]
      by_cases heq : id = j
      · subst heq
        rw [pick_self, if_pos rfl, hbefore, List.append_assoc]
        rfl
      · rw [pick_other heq, if_neg heq, List.append_nil]
    · refine (hv.served.delivered j).trans ?_
      rw [hR, hR', pick_append, hqueue]
      by_cases heq : id = j
      · subst heq
        rw [pick_self, if_pos (Multiset.mem_cons_self _ _), if_neg (by simpa using hnot), hbefore]
        exact (List.append_nil _).symm
      · rw [pick_other heq, if_neg heq, List.append_nil]
        simp only [hother heq]

theorem idle {id : AsyncGeneratorId} {a : AsyncGenerator} (hv : Valid ⟨w, .ready id ::ₘ H, L⟩)
    (ha : w.asyncGenerators[id]? = some a) (hq : a.queue = []) :
    Valid ⟨(Edit.modifyAsyncGenerator id (fun a => { a with running := false }) w).2, H, L⟩ := by
  have hget := getElem?_modify_self (f := fun a => { a with running := false }) ha
  have hR : rights ⟨w, .ready id ::ₘ H, L⟩ = .ready id ::ₘ
      rights ⟨(Edit.modifyAsyncGenerator id (fun a => { a with running := false }) w).2, H, L⟩ := by
    have hmodify := modifyAsyncGenerator_rights L.targets
      (f := fun a => { a with running := false }) ha
    have hmodify := add_right_cancel (b := a.rights) hmodify
    refine (Multiset.cons_add _ _ _).trans ?_
    exact congrArg (fun R => Right.ready id ::ₘ (H + R)) hmodify.symm
  have hstanding := hv.standing
  rw [hR] at hstanding
  have hready := (Multiset.nodup_cons.1 hstanding.nodup).1
  have hserving : .serving id ∉
      rights ⟨(Edit.modifyAsyncGenerator id (fun a => { a with running := false }) w).2, H, L⟩ :=
    fun h => (hstanding.serving id (Multiset.mem_cons_of_mem h)).1 (Multiset.mem_cons_self _ _)
  have hqueue (j : AsyncGeneratorId) : queueOf (w.asyncGenerators.modify id
      fun a => { a with running := false }) j = queueOf w.asyncGenerators j := by
    rw [queueOf_modify ha]
    split
    · rename_i heq
      rw [← heq, queueOf, ha]
      rfl
    · rfl
  constructor
  case standing =>
    refine hstanding.mono (Multiset.le_cons_self _ _) (fun _ rs _ h => ⟨rs, h⟩)
      (fun _ g hg => ⟨g, hg, rfl⟩) fun j b hb hrun => ?_
    by_cases heq : id = j
    · subst heq
      exact ⟨_, (hget id).trans (if_pos rfl), fun h => (h.elim hready hserving).elim,
        fun h => (hserving h).elim⟩
    · exact ⟨b, (hget j).trans ((if_neg heq).trans hb), fun _ => hrun, fun _ h => h⟩
  case attended =>
    refine ⟨fun j b hb => ?_, fun j b hb => ?_, fun j b hb => ?_⟩ <;>
      have hb := (hget j).symm.trans hb <;> by_cases heq : id = j
    · rw [if_pos heq] at hb
      cases hb
      exact fun _ => hq
    · rw [if_neg heq] at hb
      exact hv.attended.idle j b hb
    · subst heq
      rw [if_pos rfl] at hb
      cases hb
      obtain ⟨g, hg, hasync, hexec, hawait⟩ := hv.attended.inst id a ha
      rw [hR] at hawait
      exact ⟨g, hg, hasync, fun h => hexec (by simpa using h), fun h => hawait (by simpa using h)⟩
    · rw [if_neg heq] at hb
      obtain ⟨g, hg, hasync, hexec, hawait⟩ := hv.attended.inst j b hb
      rw [hR] at hawait
      exact ⟨g, hg, hasync, fun h => hexec (by simpa using h), fun h => hawait (by simpa using h)⟩
    · rw [if_pos heq] at hb
      cases hb
      exact hv.attended.requests id a ha
    · rw [if_neg heq] at hb
      exact hv.attended.requests j b hb
  case targets => exact hv.targets
  case sound =>
    refine fun i o ho => (hv.sound i o ho).mono (fun _ h => h) ?_ fun _ _ h => h
    exact (Array.size_modify).ge
  case proper => exact hv.proper
  case reactions => exact hv.reactions
  case jobs => exact hv.jobs
  case served =>
    refine ⟨fun j => (hv.served.requested j).trans (by rw [← hqueue]; rfl),
      fun j => (hv.served.delivered j).trans ?_⟩
    rw [hR, ← hqueue]
    simp only [Multiset.mem_cons, reduceCtorEq, false_or]
    rfl

theorem retire {i : InstanceId} (hv : Valid ⟨w, .own i ::ₘ H, L⟩) : Valid ⟨w, H, L⟩ := by
  have hR : rights ⟨w, .own i ::ₘ H, L⟩ = .own i ::ₘ rights ⟨w, H, L⟩ := Multiset.cons_add _ _ _
  have hstanding := hv.standing
  rw [hR] at hstanding
  constructor
  case standing =>
    exact hstanding.mono (Multiset.le_cons_self _ _) (fun _ rs _ h => ⟨rs, h⟩)
      (fun _ g hg => ⟨g, hg, rfl⟩) fun j b hb hrun => ⟨b, hb, fun _ => hrun, fun _ h => h⟩
  case attended =>
    refine hv.attended.mono (fun id h => by simpa using h) fun id h => ?_
    rw [hR]
    simpa using h
  case targets => exact hv.targets
  case sound => exact hv.sound
  case proper => exact hv.proper
  case reactions => exact hv.reactions
  case jobs => exact hv.jobs
  case served =>
    refine hv.served.congr fun id => ?_
    rw [hR]
    simp

theorem dequeue {job : Job} {jobs : List Job} (hv : Valid ⟨w, H, L⟩) (h : w.jobs = job :: jobs) :
    Valid ⟨{ w with jobs }, job.rights + H, { L with ran := L.ran ++ [job] }⟩ := by
  have hR : rights ⟨{ w with jobs }, job.rights + H, { L with ran := L.ran ++ [job] }⟩ =
      rights ⟨w, H, L⟩ := by
    simp only [rights, dequeue_rights h]
    abel
  constructor
  case standing =>
    rw [hR]
    exact hv.standing
  case attended =>
    rw [hR]
    exact hv.attended.mono (fun id h h' => h (Multiset.mem_add.2 (.inr h'))) fun id h => h
  case targets => exact hv.targets
  case sound => exact hv.sound
  case proper => exact hv.proper
  case reactions => exact hv.reactions
  case jobs =>
    show L.queued.map (·.2) = L.ran ++ [job] ++ jobs
    rw [hv.jobs, h, List.append_assoc]
    rfl
  case served =>
    rw [hR]
    exact hv.served

end Config.Valid

end Resumable
