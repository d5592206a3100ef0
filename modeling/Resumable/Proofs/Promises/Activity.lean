import Resumable.Proofs.Promises.Invariants

/-!
The steps of activations keep configurations valid: calm ones, changes of instances, new activations and
the objects of generators.
-/

set_option autoImplicit false

namespace Resumable

namespace Config.Valid

variable {w w' : World} {H : Multiset Right} {L : Log}

theorem calm (hv : Valid ⟨w, H, L⟩) (h : w.Calm w') : Valid ⟨w', H, L⟩ := by
  have hR : rights ⟨w', H, L⟩ = rights ⟨w, H, L⟩ := by simp only [rights, h.rights]
  have hp (p : ObjectId) : w'.heap.promise? (.obj p) = w.heap.promise? (.obj p) :=
    h.heap.promise?_eq
  have hsound (id : ObjectId) (o : Object) (ho : w'.heap.get? id = some o) :
      o.role.Sound w.instances w.asyncGenerators.size L.targets := by
    cases ho₀ : w.heap.get? id with
    | none => exact Role.sound_of_isInert (h.heap.new id o ho ho₀)
    | some o₀ =>
      obtain ⟨o', ho', hr⟩ := h.heap.old id o₀ ho₀
      cases ho.symm.trans ho'
      by_cases hi : o₀.role.isInert = true
      · exact Role.sound_of_isInert (hr.isInert hi)
      · rw [hr.eq (Bool.eq_false_iff.2 hi)]
        exact hv.sound id o₀ ho₀
  constructor
  case standing =>
    rw [hR]
    simp only [h.instances, h.asyncGenerators]
    exact hv.standing.heap hp
  case attended =>
    rw [hR]
    simp only [h.instances, h.asyncGenerators]
    exact hv.attended
  case targets =>
    simp only [h.latches]
    exact hv.targets
  case sound =>
    simp only [h.instances, h.asyncGenerators]
    exact hsound
  case proper =>
    simp only [h.instances]
    exact hv.proper
  case reactions => exact hv.reactions.heap hp
  case jobs =>
    simp only [h.jobs]
    exact hv.jobs
  case served =>
    rw [hR]
    simp only [h.asyncGenerators]
    exact hv.served

/-- The body of a generator is run by nobody but the one who serves it. -/
theorem serving_of_mayRun (hv : Valid ⟨w, H, L⟩) {id : AsyncGeneratorId} {a : AsyncGenerator}
    (ha : w.asyncGenerators[id]? = some a) (h : MayRun ⟨w, H, L⟩ a.inst) : .serving id ∈ H := by
  obtain ⟨-, hnodup, hdisjoint⟩ := Multiset.nodup_add.1 hv.standing.nodup
  obtain hown | ⟨id', a', hserving, ha', hinst⟩ := h
  · exact (Multiset.disjoint_left.1 hdisjoint hown (own_mem_rights ha)).elim
  · rw [← inst_unique hnodup ha ha' hinst]
    exact hserving

theorem instances (hv : Valid ⟨w, H, L⟩) {gs : Array Instance} (hsize : gs.size = w.instances.size)
    (hgs : ∀ i g g', w.instances[i]? = some g → gs[i]? = some g' → g' = g ∨
      g'.isAsync = g.isAsync ∧ g'.Proper w.instances ∧ (g.isAsync = false ∨ MayRun ⟨w, H, L⟩ i)) :
    Valid ⟨{ w with instances := gs }, H, L⟩ := by
  have hfound (i : InstanceId) (g : Instance) (hg : w.instances[i]? = some g) :
      ∃ g', gs[i]? = some g' ∧ g'.isAsync = g.isAsync := by
    obtain ⟨hlt, -⟩ := Array.getElem?_eq_some_iff.1 hg
    have hg' : gs[i]? = some gs[i] := Array.getElem?_eq_getElem (hsize ▸ hlt)
    refine ⟨_, hg', ?_⟩
    obtain heq | ⟨heq, -⟩ := hgs i g _ hg hg'
    · rw [heq]
    · exact heq
  have hsync (i : InstanceId) (h : IsSync w.instances i) : IsSync gs i := by
    obtain ⟨g, hg, hs⟩ := h
    obtain ⟨g', hg', heq⟩ := hfound i g hg
    exact ⟨g', hg', heq.trans hs⟩
  constructor
  case standing =>
    exact hv.standing.mono le_rfl (fun _ rs _ h => ⟨rs, h⟩) hfound
      fun id a h hr => ⟨a, h, fun _ => hr, fun _ h => h⟩
  case attended =>
    refine ⟨hv.attended.idle, fun id a ha => ?_, hv.attended.requests⟩
    obtain ⟨g, hg, hasync, hexec, hawait⟩ := hv.attended.inst id a ha
    obtain ⟨g', hg', heq⟩ := hfound a.inst g hg
    refine ⟨g', hg', heq.trans hasync, ?_⟩
    obtain rfl | ⟨-, -, hrun⟩ := hgs a.inst g g' hg hg'
    · exact ⟨hexec, hawait⟩
    · have hserving : .serving id ∈ H := by
        obtain hsync | hrun := hrun
        · cases hasync.symm.trans hsync
        · exact hv.serving_of_mayRun ha hrun
      exact ⟨fun h => (h hserving).elim, fun h => (h (Multiset.mem_add.2 (.inl hserving))).elim⟩
  case targets => exact hv.targets
  case sound => exact fun id o ho => (hv.sound id o ho).mono hsync le_rfl fun _ _ h => h
  case proper =>
    intro i g' hg'
    obtain ⟨hlt, -⟩ := Array.getElem?_eq_some_iff.1 hg'
    have hg : w.instances[i]? = some w.instances[i] := Array.getElem?_eq_getElem (hsize ▸ hlt)
    obtain heq | ⟨-, hproper, -⟩ := hgs i _ g' hg hg'
    · rw [heq]
      exact (hv.proper i _ hg).mono hsync
    · exact hproper.mono hsync
  case reactions => exact hv.reactions
  case jobs => exact hv.jobs
  case served => exact hv.served

theorem activate (hv : Valid ⟨w, H, L⟩) (plan : Plan) (scope : ScopeId) (isAsync : Bool) :
    Valid ⟨(Edit.newInstance (.start plan scope isAsync) w).2,
      (if isAsync then {.own w.instances.size} else 0) + H, L⟩ := by
  have hpush (i : InstanceId) : (w.instances.push (.start plan scope isAsync))[i]? =
      if i = w.instances.size then some (.start plan scope isAsync) else w.instances[i]? :=
    Array.getElem?_push
  have hold (i : InstanceId) (g : Instance) (hg : w.instances[i]? = some g) :
      (w.instances.push (.start plan scope isAsync))[i]? = some g := by
    obtain ⟨hlt, -⟩ := Array.getElem?_eq_some_iff.1 hg
    rw [hpush, if_neg (Nat.ne_of_lt hlt)]
    exact hg
  have hsync (i : InstanceId) (h : IsSync w.instances i) :
      IsSync (w.instances.push (.start plan scope isAsync)) i := by
    obtain ⟨g, hg, hs⟩ := h
    exact ⟨g, hold i g hg, hs⟩
  have hstanding : Standing (rights ⟨w, H, L⟩) w.heap
      (w.instances.push (.start plan scope isAsync)) w.asyncGenerators :=
    hv.standing.mono le_rfl (fun _ rs _ h => ⟨rs, h⟩) (fun i g hg => ⟨g, hold i g hg, rfl⟩)
      fun id a h hr => ⟨a, h, fun _ => hr, fun _ h => h⟩
  have hR : rights ⟨(Edit.newInstance (.start plan scope isAsync) w).2,
      (if isAsync then {.own w.instances.size} else 0) + H, L⟩ =
      (if isAsync then {.own w.instances.size} else 0) + rights ⟨w, H, L⟩ := add_assoc _ _ _
  have hserving (R : Multiset Right) (id : AsyncGeneratorId) :
      .serving id ∈ (if isAsync then {.own w.instances.size} else 0) + R ↔ .serving id ∈ R := by
    cases isAsync <;> simp
  constructor
  case standing =>
    rw [hR]
    cases isAsync with
    | false =>
      rw [if_neg Bool.false_ne_true, zero_add]
      exact hstanding
    | true =>
      rw [if_pos rfl, Multiset.singleton_add]
      refine hstanding.own_cons (fun hmem => ?_) ((hpush _).trans (if_pos rfl)) rfl
      obtain ⟨g, hg, -⟩ := hv.standing.own _ hmem
      simp at hg
  case attended =>
    rw [hR]
    refine Attended.mono (H := H) (R := rights ⟨w, H, L⟩) ⟨hv.attended.idle, fun id a ha => ?_,
      hv.attended.requests⟩ (fun id h => by rwa [hserving] at h) (fun id h => by rwa [hserving] at h)
    obtain ⟨g, hg, h⟩ := hv.attended.inst id a ha
    exact ⟨g, hold a.inst g hg, h⟩
  case targets => exact hv.targets
  case sound => exact fun id o ho => (hv.sound id o ho).mono hsync le_rfl fun _ _ h => h
  case proper =>
    intro i g hg
    have hg := (hpush i).symm.trans hg
    split at hg
    · cases hg
      exact ⟨nofun, nofun, fun _ => rfl, nofun⟩
    · exact (hv.proper i g hg).mono hsync
  case reactions => exact hv.reactions
  case jobs => exact hv.jobs
  case served =>
    rw [hR]
    exact hv.served.congr fun id => hserving _ id

theorem alloc (hv : Valid ⟨w, H, L⟩) {o : Object} (hp : o.promise? = none)
    (hs : o.role.Sound w.instances w.asyncGenerators.size L.targets) :
    Valid ⟨(Edit.alloc o w).2, H, L⟩ := by
  have hzero : o.rights = 0 := by
    unfold Object.promise? at hp
    unfold Object.rights
    cases hr : o.role with
    | promise state =>
      rw [hr] at hp
      cases hp
    | ordinary | function | array | arrayIterator | generator | asyncGenerator => rfl
  have hR : rights ⟨(Edit.alloc o w).2, H, L⟩ = rights ⟨w, H, L⟩ := by
    simp only [rights, alloc_rights, hzero, zero_add]
  have hsame (p : ObjectId) : (w.heap.alloc o).2.promise? (.obj p) = w.heap.promise? (.obj p) := by
    rw [Heap.promise?_alloc]
    split
    · rename_i heq
      rw [heq, Heap.promise?_eq, Heap.get?_size, hp]
      rfl
    · rfl
  constructor
  case standing =>
    rw [hR]
    exact hv.standing.heap hsame
  case attended =>
    rw [hR]
    exact hv.attended
  case targets => exact hv.targets
  case sound =>
    intro id o' ho'
    have ho' := Heap.get?_alloc.symm.trans ho'
    split at ho'
    · cases ho'
      exact hs
    · exact hv.sound id o' ho'
  case proper => exact hv.proper
  case reactions => exact hv.reactions.heap hsame
  case jobs => exact hv.jobs
  case served =>
    rw [hR]
    exact hv.served

theorem newAsyncGenerator {i : InstanceId} {g : Instance} (hv : Valid ⟨w, .own i ::ₘ H, L⟩)
    (hg : w.instances[i]? = some g) (hexec : g.status ≠ .executing) (hawait : g.awaiting = none) :
    Valid ⟨(Edit.newAsyncGenerator i w).2, H, L⟩ := by
  have hR : rights ⟨(Edit.newAsyncGenerator i w).2, H, L⟩ = rights ⟨w, .own i ::ₘ H, L⟩ := by
    simp only [rights, newAsyncGenerator_rights, Multiset.add_cons, Multiset.cons_add]
  have hpush (id : AsyncGeneratorId) : (w.asyncGenerators.push ⟨i, [], false⟩)[id]? =
      if id = w.asyncGenerators.size then some ⟨i, [], false⟩ else w.asyncGenerators[id]? :=
    Array.getElem?_push
  have hasync : g.isAsync = true := by
    obtain ⟨g', hg', hasync⟩ := hv.standing.own i (by simp [rights])
    cases hg.symm.trans hg'
    exact hasync
  have hqueue (id : AsyncGeneratorId) : queueOf (w.asyncGenerators.push ⟨i, [], false⟩) id =
      queueOf w.asyncGenerators id := by
    unfold queueOf
    rw [hpush]
    split
    · rename_i heq
      rw [heq]
      simp
    · rfl
  constructor
  case standing =>
    rw [hR]
    refine hv.standing.mono le_rfl (fun _ rs _ h => ⟨rs, h⟩) (fun _ g hg => ⟨g, hg, rfl⟩)
      fun id a ha hr => ⟨a, ?_, fun _ => hr, fun _ h => h⟩
    obtain ⟨hlt, -⟩ := Array.getElem?_eq_some_iff.1 ha
    exact (hpush id).trans ((if_neg (Nat.ne_of_lt hlt)).trans ha)
  case attended =>
    rw [hR]
    refine ⟨fun id a ha => ?_, fun id a ha => ?_, fun id a ha => ?_⟩ <;>
      have ha := (hpush id).symm.trans ha <;> split at ha
    · cases ha
      exact fun _ => rfl
    · exact hv.attended.idle id a ha
    · cases ha
      exact ⟨g, hg, hasync, fun _ => hexec, fun _ => hawait⟩
    · obtain ⟨g', hg', hasync', hexec', hawait'⟩ := hv.attended.inst id a ha
      exact ⟨g', hg', hasync', fun h => hexec' (by simpa using h), hawait'⟩
    · cases ha
      exact nofun
    · exact hv.attended.requests id a ha
  case targets => exact hv.targets
  case sound =>
    refine fun id o ho => (hv.sound id o ho).mono (fun _ h => h) ?_ fun _ _ h => h
    exact (Nat.le_succ _).trans_eq (Array.size_push _).symm
  case proper => exact hv.proper
  case reactions => exact hv.reactions
  case jobs => exact hv.jobs
  case served =>
    rw [hR]
    exact ⟨fun id => (hv.served.requested id).trans (by rw [← hqueue]; rfl),
      fun id => (hv.served.delivered id).trans (by rw [← hqueue]; rfl)⟩

end Config.Valid

end Resumable
