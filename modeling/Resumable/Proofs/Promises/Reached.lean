import Resumable.Proofs.Promises.Queues

/-!
What one step keeps, and so every run: settlements are final, latches stay closed, activations and
generators stay what they are, and every configuration that is reached is valid. Main statements:
`Step.valid`, `Config.Reached.valid`, `Later.onward`.
-/

set_option autoImplicit false

namespace Resumable

theorem Step.valid {c c' : Config} (h : Step c c') (hv : c.Valid) : c'.Valid := by
  cases h with
  | calm hw => exact hv.calm hw
  | instances gs hsize hgs => exact hv.instances hsize hgs
  | activate plan scope isAsync => exact hv.activate plan scope isAsync
  | wrap o ho hs =>
    refine hv.alloc ?_ hs
    unfold Object.promise?
    cases hr : o.role with
    | promise state =>
      rw [hr] at ho
      cases ho
    | ordinary | function | array | arrayIterator | generator | asyncGenerator => rfl
  | newAsyncGenerator hg hexec hawait => exact hv.newAsyncGenerator hg hexec hawait
  | newPromise => exact hv.newPromise
  | newResolvers p => exact hv.newResolvers
  | take ht hl => exact hv.take ht hl
  | settle s hp => exact hv.settle s hp
  | register r hp hhalts => exact hv.register hp hhalts
  | adopt thenable method resolve reject => exact hv.adopt thenable method resolve reject
  | request r ha hr => exact hv.request ha hr
  | deliver ha hq => exact hv.deliver ha hq
  | @answer w H L id a r rest rs s ha hq hrests hp =>
    have hdrop := hv.dropRequest L.entrusted ha hq hrests
    rw [Multiset.cons_swap] at hdrop
    exact hdrop.settle s hp
  | entrust ha hq hrests => exact hv.dropRequest _ ha hq hrests
  | idle ha hq => exact hv.idle ha hq
  | retire i => exact hv.retire

theorem Dequeue.valid {c c' : Config} (h : Dequeue c c') (hv : c.Valid) : c'.Valid := by
  cases h with
  | mk hjobs => exact hv.dequeue hjobs

theorem initial_isInert {id : ObjectId} {o : Object} (ho : World.initial.heap.get? id = some o) :
    o.role.isInert = true := by
  have hinert : World.initial.heap.objects.all (·.role.isInert) = true := by decide +kernel
  obtain ⟨hlt, rfl⟩ := Array.getElem?_eq_some_iff.1 ho
  exact Array.all_eq_true.1 hinert id hlt

/-- A world in which nothing has happened; its objects are inert. -/
structure World.Untouched (w : World) : Prop where
  instances : w.instances = #[]
  asyncGenerators : w.asyncGenerators = #[]
  latches : w.latches = #[]
  jobs : w.jobs = []
  inert : ∀ (id : ObjectId) (o : Object), w.heap.get? id = some o → o.role.isInert = true

namespace World.Untouched

variable {w : World} (h : w.Untouched)
include h

theorem promise? (p : ObjectId) : w.heap.promise? (.obj p) = none := by
  cases hp : w.heap.promise? (.obj p) with
  | none => rfl
  | some state =>
    obtain ⟨o, ho, hrole⟩ := Heap.promise?_eq_some.1 hp
    have hinert := h.inert p o ho
    rw [hrole] at hinert
    cases hinert

theorem rights : Config.rights ⟨w, 0, .empty⟩ = 0 := by
  have hobjects : gather Object.rights w.heap.objects.toList = 0 := by
    refine gather_eq_zero fun o ho => Object.rights_of_isInert ?_
    obtain ⟨id, hid⟩ := List.getElem?_of_mem ho
    rw [Array.getElem?_toList] at hid
    exact h.inert id o hid
  rw [Config.rights, World.rights, hobjects, h.asyncGenerators, h.jobs, h.latches]
  rfl

theorem valid : Config.Valid ⟨w, 0, .empty⟩ := by
  have hnone (R : Right) : R ∉ Config.rights ⟨w, 0, .empty⟩ := by
    rw [h.rights]
    exact Multiset.notMem_zero R
  constructor
  case standing =>
    refine ⟨by rw [h.rights]; exact Multiset.nodup_zero, fun p h => ?_, fun i h => ?_, fun id h => ?_,
      fun id h => ?_⟩
    all_goals exact (hnone _ h).elim
  case attended =>
    have hget (id : AsyncGeneratorId) (a : AsyncGenerator) : w.asyncGenerators[id]? ≠ some a := by
      simp only [h.asyncGenerators, Array.getElem?_empty]
      nofun
    exact ⟨fun id a ha => (hget id a ha).elim, fun id a ha => (hget id a ha).elim,
      fun id a ha => (hget id a ha).elim⟩
  case targets =>
    simp only [h.latches]
    rfl
  case sound => exact fun id o ho => Role.sound_of_isInert (h.inert id o ho)
  case proper =>
    intro i g hg
    simp only [h.instances, Array.getElem?_empty] at hg
    cases hg
  case reactions =>
    intro p
    simp only [h.promise?]
    exact ⟨rfl, rfl⟩
  case jobs =>
    simp only [h.jobs]
    rfl
  case served =>
    refine ⟨fun id => ?_, fun id => ?_⟩
    · simp only [h.asyncGenerators]
      rfl
    · rw [if_neg (hnone _)]
      rfl

end World.Untouched

theorem initial_untouched : World.initial.Untouched where
  instances := by decide +kernel
  asyncGenerators := by decide +kernel
  latches := by decide +kernel
  jobs := by decide +kernel
  inert _ _ := initial_isInert

theorem Config.Reached.valid {c : Config} (h : c.Reached) : c.Valid := by
  induction h with
  | refl => exact initial_untouched.valid
  | tail _ hstep ih =>
    obtain hstep | hdequeue := hstep
    · exact hstep.valid ih
    · exact hdequeue.valid ih

/-- Whether promises stay promises, and those that have settled as they are. -/
def Heap.Matures (h h' : Heap) : Prop :=
  ∀ (p : ObjectId) (state : PromiseState), h.promise? (.obj p) = some state →
    ∃ state', h'.promise? (.obj p) = some state' ∧ ∀ s, state = .settled s → state' = .settled s

structure Onward (c c' : Config) : Prop where
  promises : c.world.heap.Matures c'.world.heap
  closed : ∀ l : LatchId, c.world.latches[l]? = some true → c'.world.latches[l]? = some true
  targets : c.log.targets <+: c'.log.targets
  instances : ∀ (i : InstanceId) (g : Instance), c.world.instances[i]? = some g →
    ∃ g' : Instance, c'.world.instances[i]? = some g' ∧ g'.isAsync = g.isAsync
  generators : ∀ (id : AsyncGeneratorId) (a : AsyncGenerator), c.world.asyncGenerators[id]? = some a →
    ∃ a' : AsyncGenerator, c'.world.asyncGenerators[id]? = some a' ∧ a'.inst = a.inst
  entrusted : c.log.entrusted <+: c'.log.entrusted

namespace Heap.Matures

variable {h h₁ h₂ : Heap} {p q : ObjectId}

theorem refl : h.Matures h := fun _ state hp => ⟨state, hp, fun _ hs => hs⟩

theorem trans (hh : h.Matures h₁) (hh' : h₁.Matures h₂) : h.Matures h₂ := by
  intro p state hp
  obtain ⟨state₁, hp₁, hs₁⟩ := hh p state hp
  obtain ⟨state₂, hp₂, hs₂⟩ := hh' p state₁ hp₁
  exact ⟨state₂, hp₂, fun s hs => hs₂ s (hs₁ s hs)⟩

theorem calm (hh : h.Extends h₁) : h.Matures h₁ :=
  fun _ state hp => ⟨state, hh.promise?_eq.trans hp, fun _ hs => hs⟩

theorem alloc {o : Object} : h.Matures (h.alloc o).2 := by
  intro p state hp
  refine ⟨state, ?_, fun _ hs => hs⟩
  rw [Heap.promise?_alloc, if_neg, hp]
  rintro rfl
  rw [Heap.promise?_eq, Heap.get?_size] at hp
  cases hp

theorem setState {rs : List Reaction} {state : PromiseState}
    (hq : h.promise? (.obj q) = some (.pending rs)) :
    h.Matures (h.modify q fun o => { o with role := .promise state }) := by
  intro p old hp
  rw [Heap.promise?_setState hq]
  split
  · rename_i heq
    subst heq
    cases hq.symm.trans hp
    exact ⟨state, rfl, nofun⟩
  · exact ⟨old, hp, fun _ hs => hs⟩

end Heap.Matures

namespace Onward

variable {c c₁ c₂ : Config}

theorem refl : Onward c c :=
  ⟨.refl, fun _ h => h, List.prefix_refl _, fun _ g h => ⟨g, h, rfl⟩,
    fun _ a h => ⟨a, h, rfl⟩, List.prefix_refl _⟩

theorem trans (h : Onward c c₁) (h' : Onward c₁ c₂) : Onward c c₂ where
  promises := h.promises.trans h'.promises
  closed l hl := h'.closed l (h.closed l hl)
  targets := h.targets.trans h'.targets
  instances i g hg := by
    obtain ⟨g₁, hg₁, heq⟩ := h.instances i g hg
    obtain ⟨g₂, hg₂, heq'⟩ := h'.instances i g₁ hg₁
    exact ⟨g₂, hg₂, heq'.trans heq⟩
  generators id a ha := by
    obtain ⟨a₁, ha₁, heq⟩ := h.generators id a ha
    obtain ⟨a₂, ha₂, heq'⟩ := h'.generators id a₁ ha₁
    exact ⟨a₂, ha₂, heq'.trans heq⟩
  entrusted := h.entrusted.trans h'.entrusted

theorem settled (h : Onward c c₁) {p : ObjectId} {s : Settlement}
    (hp : c.world.heap.promise? (.obj p) = some (.settled s)) :
    c₁.world.heap.promise? (.obj p) = some (.settled s) := by
  obtain ⟨state, hp₁, hs⟩ := h.promises p _ hp
  rw [hp₁, hs s rfl]

theorem of_heap {w w' : World} {H H' : Multiset Right} {L L' : Log}
    (hp : w.heap.Matures w'.heap) (hinst : w'.instances = w.instances)
    (hgens : w'.asyncGenerators = w.asyncGenerators) (hl : w'.latches = w.latches)
    (ht : L'.targets = L.targets) (he : L'.entrusted = L.entrusted) :
    Onward ⟨w, H, L⟩ ⟨w', H', L'⟩ where
  promises := hp
  closed l h := by simpa only [hl] using h
  targets := by simp only [ht]; exact List.prefix_refl _
  instances i g h := ⟨g, by simpa only [hinst] using h, rfl⟩
  generators id a h := ⟨a, by simpa only [hgens] using h, rfl⟩
  entrusted := by simp only [he]; exact List.prefix_refl _

theorem of_modify {w : World} {H H' : Multiset Right} {L L' : Log} {id : AsyncGeneratorId}
    {f : AsyncGenerator → AsyncGenerator} (hf : ∀ a, (f a).inst = a.inst)
    (ht : L'.targets = L.targets) (he : L.entrusted <+: L'.entrusted) :
    Onward ⟨w, H, L⟩ ⟨(Edit.modifyAsyncGenerator id f w).2, H', L'⟩ where
  promises := .refl
  closed _ h := h
  targets := by simp only [ht]; exact List.prefix_refl _
  instances _ g h := ⟨g, h, rfl⟩
  generators j a h := by
    show ∃ a' : AsyncGenerator, (w.asyncGenerators.modify id f)[j]? = some a' ∧ _
    have h : w.asyncGenerators[j]? = some a := h
    rw [Array.getElem?_modify]
    split
    · exact ⟨f a, by rw [h]; rfl, hf a⟩
    · exact ⟨a, h, rfl⟩
  entrusted := he

end Onward

theorem Step.onward {c c' : Config} (h : Step c c') : Onward c c' := by
  cases h with
  | calm hw => exact .of_heap (.calm hw.heap) hw.instances hw.asyncGenerators hw.latches rfl rfl
  | @instances w H L gs hsize hgs =>
    refine ⟨.refl, fun _ h => h, List.prefix_refl _, fun i g hg => ?_,
      fun _ a h => ⟨a, h, rfl⟩, List.prefix_refl _⟩
    have hg : w.instances[i]? = some g := hg
    obtain ⟨hlt, -⟩ := Array.getElem?_eq_some_iff.1 hg
    have hg' : gs[i]? = some gs[i] := Array.getElem?_eq_getElem (hsize ▸ hlt)
    refine ⟨_, hg', ?_⟩
    obtain heq | ⟨heq, -⟩ := hgs i g _ hg hg'
    · rw [heq]
    · exact heq
  | @activate w H L plan scope isAsync =>
    refine ⟨.refl, fun _ h => h, List.prefix_refl _, fun i g hg => ⟨g, ?_, rfl⟩,
      fun _ a h => ⟨a, h, rfl⟩, List.prefix_refl _⟩
    have hg : w.instances[i]? = some g := hg
    obtain ⟨hlt, -⟩ := Array.getElem?_eq_some_iff.1 hg
    exact (Array.getElem?_push.trans (if_neg (Nat.ne_of_lt hlt))).trans hg
  | wrap o => exact .of_heap .alloc rfl rfl rfl rfl rfl
  | @newAsyncGenerator w H L i =>
    refine ⟨.refl, fun _ h => h, List.prefix_refl _, fun _ g h => ⟨g, h, rfl⟩,
      fun id a ha => ⟨a, ?_, rfl⟩, List.prefix_refl _⟩
    have ha : w.asyncGenerators[id]? = some a := ha
    obtain ⟨hlt, -⟩ := Array.getElem?_eq_some_iff.1 ha
    exact (Array.getElem?_push.trans (if_neg (Nat.ne_of_lt hlt))).trans ha
  | newPromise => exact .of_heap .alloc rfl rfl rfl rfl rfl
  | @newResolvers w H L p =>
    refine ⟨Heap.Matures.alloc.trans .alloc, fun l hl => ?_, List.prefix_append _ _,
      fun _ g h => ⟨g, h, rfl⟩, fun _ a h => ⟨a, h, rfl⟩, List.prefix_refl _⟩
    have hl : w.latches[l]? = some true := hl
    obtain ⟨hlt, -⟩ := Array.getElem?_eq_some_iff.1 hl
    exact (Array.getElem?_push.trans (if_neg (Nat.ne_of_lt hlt))).trans hl
  | @take w H L l =>
    refine ⟨.refl, fun l' hl' => ?_, List.prefix_refl _, fun _ g h => ⟨g, h, rfl⟩,
      fun _ a h => ⟨a, h, rfl⟩, List.prefix_refl _⟩
    have hl' : w.latches[l']? = some true := hl'
    show (w.latches.setIfInBounds l true)[l']? = some true
    rw [Array.getElem?_setIfInBounds]
    split
    · rename_i heq
      subst heq
      rw [if_pos (Array.getElem?_eq_some_iff.1 hl').1]
    · exact hl'
  | settle s hp =>
    rw [settle_eq s hp]
    exact .of_heap (.setState hp) rfl rfl rfl rfl rfl
  | @register w H L p state r hp =>
    cases state with
    | pending rs =>
      rw [addReaction_pending r hp]
      exact .of_heap (.setState hp) rfl rfl rfl rfl rfl
    | settled s =>
      rw [addReaction_settled r hp]
      exact .of_heap .refl rfl rfl rfl rfl rfl
  | adopt => exact .of_heap .refl rfl rfl rfl rfl rfl
  | request => exact .of_modify (fun _ => rfl) rfl (List.prefix_refl _)
  | deliver => exact .of_heap .refl rfl rfl rfl rfl rfl
  | @answer w H L id a r rest rs s ha hq hrests hp =>
    have hdrop : Onward ⟨w, .serving id ::ₘ H, L⟩ ⟨(Edit.dropRequest id w).2, .ready id ::ₘ H, L⟩ :=
      .of_modify (fun _ => rfl) rfl (List.prefix_refl _)
    refine hdrop.trans ?_
    rw [settle_eq s (by exact hp)]
    exact .of_heap (.setState hp) rfl rfl rfl rfl rfl
  | entrust => exact .of_modify (fun _ => rfl) rfl (List.prefix_append _ _)
  | idle => exact .of_modify (fun _ => rfl) rfl (List.prefix_refl _)
  | retire => exact .of_heap .refl rfl rfl rfl rfl rfl

theorem Dequeue.onward {c c' : Config} (h : Dequeue c c') : Onward c c' := by
  cases h with
  | mk => exact .of_heap .refl rfl rfl rfl rfl rfl

theorem Later.onward {c c' : Config} (h : Later c c') : Onward c c' := by
  induction h with
  | refl => exact .refl
  | tail _ hstep ih => exact ih.trans (hstep.elim Step.onward Dequeue.onward)

theorem Step.jobs {c c' : Config} (h : Step c c') :
    c.world.jobs <+: c'.world.jobs ∧ c'.log.ran = c.log.ran := by
  cases h with
  | calm hw => exact ⟨hw.jobs ▸ List.prefix_refl _, rfl⟩
  | settle s hp =>
    rw [settle_eq s hp]
    exact ⟨List.prefix_append _ _, rfl⟩
  | @register w H L p state r hp =>
    cases state with
    | pending rs =>
      rw [addReaction_pending r hp]
      exact ⟨List.prefix_refl _, rfl⟩
    | settled s =>
      rw [addReaction_settled r hp]
      exact ⟨List.prefix_append _ _, rfl⟩
  | adopt => exact ⟨List.prefix_append _ _, rfl⟩
  | answer s ha hq hrests hp =>
    rw [settle_eq s (by exact hp)]
    exact ⟨List.prefix_append _ _, rfl⟩
  | instances | activate | wrap | newAsyncGenerator | newPromise | newResolvers | take | request
  | deliver | entrust | idle | retire => exact ⟨List.prefix_refl _, rfl⟩

theorem Steps.jobs {c c' : Config} (h : Steps c c') :
    c.world.jobs <+: c'.world.jobs ∧ c'.log.ran = c.log.ran := by
  induction h with
  | refl => exact ⟨List.prefix_refl _, rfl⟩
  | tail _ hstep ih => exact ⟨ih.1.trans hstep.jobs.1, hstep.jobs.2.trans ih.2⟩

/-- The rights to serve a generator; there is one of them at a time. -/
def Right.Serves (id : AsyncGeneratorId) (R : Right) : Prop := R = .ready id ∨ R = .serving id

section Service

variable {c c' : Config} {id : AsyncGeneratorId} {R R' : Right}

theorem Config.Reached.serves_once {w : World} {H : Multiset Right} {L : Log}
    (hc : Config.Reached ⟨w, R ::ₘ H, L⟩) (hR : R.Serves id) (hR' : R'.Serves id) : R' ∉ H := by
  intro hmem
  have hrights : Config.rights ⟨w, R ::ₘ H, L⟩ = R ::ₘ (H + w.rights L.targets) :=
    Multiset.cons_add _ _ _
  have hstanding := hc.valid.standing
  rw [hrights] at hstanding
  have hself : R ∈ R ::ₘ (H + w.rights L.targets) := Multiset.mem_cons_self _ _
  have hother : R' ∈ R ::ₘ (H + w.rights L.targets) :=
    Multiset.mem_cons_of_mem (Multiset.mem_add.2 (.inl hmem))
  by_cases heq : R' = R
  · subst heq
    exact (Multiset.nodup_cons.1 hstanding.nodup).1 (Multiset.mem_add.2 (.inl hmem))
  · obtain rfl | rfl := hR
    · obtain rfl | rfl := hR'
      · exact heq rfl
      · exact (hstanding.serving id hother).1 hself
    · obtain rfl | rfl := hR'
      · exact (hstanding.serving id hself).1 hother
      · exact heq rfl

/-- While somebody has the right to serve a generator, nobody else does: no request is delivered, and
none is answered. -/
theorem Step.serves (h : Step c c') (hc : c.Reached) (hR : R.Serves id) (hmem : R ∈ c.held)
    (hmem' : R ∈ c'.held) : pick id c'.log.delivered = pick id c.log.delivered ∧
      pick id c'.log.answered = pick id c.log.answered := by
  cases h with
  | @deliver w H L j a r rest ha hq =>
    by_cases hj : j = id
    · subst hj
      have hnone := hc.serves_once (.inl rfl) hR
      obtain rfl | hmem := Multiset.mem_cons.1 hmem
      · exact (hnone ((Multiset.mem_cons.1 hmem').resolve_left (by rintro ⟨⟩))).elim
      · exact (hnone hmem).elim
    · exact ⟨by simp [pick_other hj], rfl⟩
  | @answer w H L j a r rest rs s ha hq hrests hp =>
    by_cases hj : j = id
    · subst hj
      have hnone := hc.serves_once (.inr rfl) hR
      obtain rfl | hmem := Multiset.mem_cons.1 hmem
      · exact (hnone ((Multiset.mem_cons.1 hmem').resolve_left (by rintro ⟨⟩))).elim
      · exact (hnone hmem).elim
    · exact ⟨rfl, by simp [pick_other hj]⟩
  | @entrust w H L j a r rest ha hq hrests hthen =>
    by_cases hj : j = id
    · subst hj
      have hnone := hc.serves_once (.inr rfl) hR
      obtain rfl | hmem := Multiset.mem_cons.1 hmem
      · have hmem' := (Multiset.mem_cons.1 hmem').resolve_left (by rintro ⟨⟩)
        exact (hnone ((Multiset.mem_cons.1 hmem').resolve_left (by rintro ⟨⟩))).elim
      · exact (hnone hmem).elim
    · exact ⟨rfl, by simp [pick_other hj]⟩
  | calm | instances | activate | wrap | newAsyncGenerator | newPromise | newResolvers | take | settle
  | register | adopt | request | idle | retire => exact ⟨rfl, rfl⟩

theorem Retains.serves {H : Multiset Right} (h : Retains H c c') (hc : c.Reached) (hR : R.Serves id)
    (hmem : R ∈ H) (hH : H ≤ c.held) : pick id c'.log.delivered = pick id c.log.delivered ∧
      pick id c'.log.answered = pick id c.log.answered := by
  induction h with
  | refl => exact ⟨rfl, rfl⟩
  | tail hkeeps hstep ih =>
    have hkeeps : Retains H c _ := hkeeps
    obtain ⟨hd, ha⟩ := hstep.1.serves (hc.steps hkeeps.steps) hR
      (Multiset.mem_of_le (hkeeps.le hH) hmem) (Multiset.mem_of_le hstep.2 hmem)
    exact ⟨hd.trans ih.1, ha.trans ih.2⟩

end Service

/-- Requests that were answered have a promise that has settled, unless the result has a method
`then`. -/
def Config.Answered (c : Config) : Prop :=
  ∀ x ∈ c.log.answered, x ∈ c.log.entrusted ∨
    ∃ s, c.world.heap.promise? (.obj x.2.promise) = some (.settled s)

theorem Config.Answered.onward {c c' : Config} (h : c.Answered) (ho : Onward c c')
    (heq : c'.log.answered = c.log.answered) : c'.Answered := by
  intro x hx
  rw [heq] at hx
  obtain hentrusted | ⟨s, hs⟩ := h x hx
  · exact .inl (ho.entrusted.subset hentrusted)
  · exact .inr ⟨s, ho.settled hs⟩

theorem Step.answered {c c' : Config} (h : Step c c') (ha : c.Answered) : c'.Answered := by
  have ho := h.onward
  cases h with
  | @answer w H L id a r rest rs s hid hq hrests hp =>
    intro x hx
    obtain hx | hx := List.mem_append.1 hx
    · obtain hentrusted | ⟨s, hs⟩ := ha x hx
      · exact .inl (ho.entrusted.subset hentrusted)
      · exact .inr ⟨s, ho.settled hs⟩
    · cases List.mem_singleton.1 hx
      refine .inr ⟨s, ?_⟩
      rw [settle_eq s (by exact hp)]
      exact (Heap.promise?_setState hp).trans (if_pos rfl)
  | entrust =>
    intro x hx
    obtain hx | hx := List.mem_append.1 hx
    · obtain hentrusted | ⟨s, hs⟩ := ha x hx
      · exact .inl (ho.entrusted.subset hentrusted)
      · exact .inr ⟨s, ho.settled hs⟩
    · exact .inl (List.mem_append.2 (.inr hx))
  | calm | instances | activate | wrap | newAsyncGenerator | newPromise | newResolvers | take | settle
  | register | adopt | request | deliver | idle | retire => exact ha.onward ho rfl

theorem Config.Reached.answered {c : Config} (h : c.Reached) : c.Answered := by
  induction h with
  | refl => exact nofun
  | tail _ hstep ih =>
    obtain hstep | hdequeue := hstep
    · exact hstep.answered ih
    · have ho := hdequeue.onward
      cases hdequeue with
      | mk => exact ih.onward ho rfl

end Resumable
