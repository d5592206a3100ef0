import Resumable.Proofs.Lifecycle.Steady

/-!
Resumptions of chains of generators. While one resumption lasts, the instances that execute are those
that did before and those of the chain that it has gone through. Main statement: `resumeChain_yields`.
-/

set_option autoImplicit false

namespace Resumable

namespace Edit.KeepsActivations

variable {α β : Type}

theorem pure (a : α) : (Pure.pure a : Edit α).KeepsActivations := fun _ => ⟨rfl, rfl⟩

theorem bind {x : Edit α} {f : α → Edit β} (hx : x.KeepsActivations)
    (hf : ∀ a, (f a).KeepsActivations) : (x >>= f).KeepsActivations := fun w =>
  ⟨((hf _ _).1).trans (hx w).1, ((hf _ _).2).trans (hx w).2⟩

end Edit.KeepsActivations

section Promises

theorem forM_keepsActivations {α : Type} (xs : List α) {f : α → Edit Unit}
    (hf : ∀ x, (f x).KeepsActivations) : (xs.forM f).KeepsActivations := by
  induction xs with
  | nil => exact .pure ()
  | cons x xs ih => exact .bind (hf x) fun _ => ih

theorem settle_keepsActivations (promise : ObjectId) (s : Settlement) :
    (Promise.settle promise s).KeepsActivations := by
  refine .bind (fun _ => ⟨rfl, rfl⟩) fun state => ?_
  match state with
  | some (.pending reactions) =>
    exact .bind (fun _ => ⟨rfl, rfl⟩) fun _ => forM_keepsActivations _ fun _ _ => ⟨rfl, rfl⟩
  | some (.settled _) | none => exact .pure ()

theorem resolve_keepsActivations (promise : ObjectId) (v : Value) :
    (Promise.resolve promise v).KeepsActivations := by
  unfold Promise.resolve
  split
  · exact .bind (fun _ => ⟨rfl, rfl⟩) fun _ => settle_keepsActivations _ _
  · refine .bind (fun _ => ⟨rfl, rfl⟩) fun h => ?_
    split
    · exact .bind (fun _ => ⟨rfl, rfl⟩) fun _ _ => ⟨rfl, rfl⟩
    · exact settle_keepsActivations _ _

theorem addReaction_keepsActivations (promise : ObjectId) (r : Reaction) :
    (Promise.addReaction promise r).KeepsActivations := by
  refine .bind (fun _ => ⟨rfl, rfl⟩) fun state => ?_
  match state with
  | some (.pending _) | some (.settled _) => exact fun _ => ⟨rfl, rfl⟩
  | none => exact .pure ()

theorem ofValue_keepsActivations (v : Value) : (Promise.ofValue v).KeepsActivations := by
  refine .bind (fun _ => ⟨rfl, rfl⟩) fun h => ?_
  split
  · exact .pure _
  · exact .bind (fun _ => ⟨rfl, rfl⟩) fun _ => .bind (resolve_keepsActivations _ v) fun _ => .pure _

theorem await_keepsActivations (v : Value) (k : Continuation) :
    (Promise.await v k).KeepsActivations :=
  .bind (ofValue_keepsActivations v) fun _ => addReaction_keepsActivations _ _

end Promises

namespace World

def statusAt? (w : World) (id : InstanceId) : Option Status := w.instances[id]?.map Instance.status

def put (w : World) (id : InstanceId) (g : Instance) : World :=
  { w with instances := w.instances.setIfInBounds id g }

theorem put_self {w : World} {id : InstanceId} {g g' : Instance} (h : w.instances[id]? = some g) :
    (w.put id g').instances[id]? = some g' := by
  obtain ⟨hlt, -⟩ := Array.getElem?_eq_some_iff.1 h
  simp [put, hlt]

theorem put_other {w : World} {id i : InstanceId} {g : Instance} (h : id ≠ i) :
    (w.put id g).instances[i]? = w.instances[i]? := by
  simp [put, h]

end World

/-- Whether the instances that execute are those of a chain and those that execute in another world
already, and the latter are the same. -/
structure Chained (w₀ : World) (chain : List InstanceId) (w : World) : Prop where
  orderly : w.Orderly
  nodup : chain.Nodup
  stays : ∀ (id : InstanceId) (g : Instance), w₀.instances[id]? = some g → g.status = .executing →
    w.instances[id]? = some g
  back : ∀ (id : InstanceId) (g : Instance), w.instances[id]? = some g → g.status = .executing →
    id ∈ chain ∨ w₀.instances[id]? = some g
  fresh : ∀ id ∈ chain, w₀.statusAt? id ≠ some .executing
  runs : ∀ id ∈ chain, ∃ g : Instance, w.instances[id]? = some g ∧ g.status = .executing

/-- The same up to one instance, which may execute or not. -/
structure Around (w₀ : World) (id : InstanceId) (outer : List InstanceId) (w : World) : Prop where
  orderly : w.Orderly
  nodup : (id :: outer).Nodup
  stays : ∀ (i : InstanceId) (g : Instance), w₀.instances[i]? = some g → g.status = .executing →
    w.instances[i]? = some g
  back : ∀ (i : InstanceId) (g : Instance), w.instances[i]? = some g → g.status = .executing →
    i ∈ id :: outer ∨ w₀.instances[i]? = some g
  fresh : ∀ i ∈ id :: outer, w₀.statusAt? i ≠ some .executing
  runs : ∀ i ∈ outer, ∃ g : Instance, w.instances[i]? = some g ∧ g.status = .executing
  present : ∃ g : Instance, w.instances[id]? = some g

section Chaining

variable {w₀ w w₁ : World} {id : InstanceId} {outer chain : List InstanceId} {g : Instance}

theorem Chained.of_orderly (h : w.Orderly) : Chained w [] w :=
  ⟨h, .nil, fun _ _ hg _ => hg, fun _ _ hg _ => .inr hg, nofun, nofun⟩

theorem Chained.kept_nil (h : Chained w₀ [] w) : Kept w₀ w :=
  ⟨h.orderly, h.stays, fun id g hg he => (h.back id g hg he).resolve_left nofun⟩

theorem Chained.kept (h : Chained w₀ chain w) (hk : Kept w w₁) : Chained w₀ chain w₁ where
  orderly := hk.orderly
  nodup := h.nodup
  stays id g hg he := hk.stays id g (h.stays id g hg he) he
  back id g hg he := h.back id g (hk.back id g hg he) he
  fresh := h.fresh
  runs id hid := by
    obtain ⟨g, hg, he⟩ := h.runs id hid
    exact ⟨g, hk.stays id g hg he, he⟩

theorem Chained.around (h : Chained w₀ (id :: outer) w) : Around w₀ id outer w where
  orderly := h.orderly
  nodup := h.nodup
  stays := h.stays
  back := h.back
  fresh := h.fresh
  runs i hi := h.runs i (List.mem_cons_of_mem _ hi)
  present := by
    obtain ⟨g, hg, -⟩ := h.runs id List.mem_cons_self
    exact ⟨g, hg⟩

theorem Chained.around_idle (h : Chained w₀ outer w) (hg : w.instances[id]? = some g)
    (hidle : g.status ≠ .executing) : Around w₀ id outer w where
  orderly := h.orderly
  nodup := by
    refine List.nodup_cons.2 ⟨fun hmem => ?_, h.nodup⟩
    obtain ⟨g', hg', he⟩ := h.runs id hmem
    cases hg.symm.trans hg'
    exact hidle he
  stays := h.stays
  back i g hi he := (h.back i g hi he).imp_left (List.mem_cons_of_mem _)
  fresh := by
    refine List.forall_mem_cons.2 ⟨fun hst => ?_, h.fresh⟩
    obtain ⟨g', hg', he⟩ := Option.map_eq_some_iff.1 hst
    cases hg.symm.trans (h.stays id g' hg' he)
    exact hidle he
  runs := h.runs
  present := ⟨g, hg⟩

theorem World.Orderly.put (h : w.Orderly)
    (hg : g.parked.isSome = true → g.status = .suspendedYield) : (w.put id g).Orderly := by
  refine ⟨fun i g' hi hp => ?_, h.requests⟩
  by_cases hid : id = i
  · subst hid
    obtain ⟨hlt, -⟩ := Array.getElem?_eq_some_iff.1 hi
    have hput : (w.put id g).instances[id]? = some g := by
      simp only [World.put, Array.size_setIfInBounds] at hlt
      simp [World.put, hlt]
    cases hput.symm.trans hi
    exact hg hp
  · rw [World.put_other hid] at hi
    exact h.parked i g' hi hp

theorem Around.not_mem (h : Around w₀ id outer w) {i : InstanceId} (hi : i ∈ outer) : id ≠ i := by
  rintro rfl
  exact (List.nodup_cons.1 h.nodup).1 hi

theorem Around.stays_put (h : Around w₀ id outer w) {i : InstanceId} {g' : Instance}
    (hi : w₀.instances[i]? = some g') (he : g'.status = .executing) :
    (w.put id g).instances[i]? = some g' := by
  have hne : id ≠ i := by
    rintro rfl
    exact h.fresh id List.mem_cons_self (by rw [World.statusAt?, hi, Option.map_some, he])
  rw [World.put_other hne]
  exact h.stays i g' hi he

theorem Around.runs_put (h : Around w₀ id outer w) {i : InstanceId} (hi : i ∈ outer) :
    ∃ g' : Instance, (w.put id g).instances[i]? = some g' ∧ g'.status = .executing := by
  rw [World.put_other (h.not_mem hi)]
  exact h.runs i hi

theorem Around.start (h : Around w₀ id outer w) (hg : g.status = .executing)
    (hp : g.parked = none) : Chained w₀ (id :: outer) (w.put id g) where
  orderly := h.orderly.put (by simp [hp])
  nodup := h.nodup
  stays i g' hi he := h.stays_put hi he
  back i g' hi he := by
    by_cases hid : id = i
    · exact .inl (hid ▸ List.mem_cons_self)
    · rw [World.put_other hid] at hi
      exact h.back i g' hi he
  fresh := h.fresh
  runs := by
    obtain ⟨g₀, hg₀⟩ := h.present
    exact List.forall_mem_cons.2 ⟨⟨g, World.put_self hg₀, hg⟩, fun i hi => h.runs_put hi⟩

theorem Around.stop (h : Around w₀ id outer w) (hg : g.status ≠ .executing)
    (hp : g.parked.isSome = true → g.status = .suspendedYield) :
    Chained w₀ outer (w.put id g) where
  orderly := h.orderly.put hp
  nodup := (List.nodup_cons.1 h.nodup).2
  stays i g' hi he := h.stays_put hi he
  back i g' hi he := by
    by_cases hid : id = i
    · subst hid
      obtain ⟨g₀, hg₀⟩ := h.present
      cases (World.put_self hg₀).symm.trans hi
      exact absurd he hg
    · rw [World.put_other hid] at hi
      exact (h.back i g' hi he).imp_left fun hmem =>
        (List.mem_cons.1 hmem).resolve_left fun heq => hid heq.symm
  fresh i hi := h.fresh i (List.mem_cons_of_mem _ hi)
  runs i hi := h.runs_put hi

end Chaining

/-- Whether a world is what a resumption of one instance, for those that delegate to it, leaves after
a pause. -/
def Paused (w₀ : World) (id : InstanceId) (outer : List InstanceId) : Pause → World → Prop
  | .delegate inner a, w => Chained w₀ (id :: outer) w ∧
    w.instances[id]?.bind Instance.delegate? = some inner ∧ a.endsDelegate = false
  | .stop s, w => Chained w₀ outer w ∧
    match s with
    | .yielded _ | .awaiting _ => w.statusAt? id = some .suspendedYield
    | .failed _ => w.statusAt? id = none ∨ w.statusAt? id = some .completed ∨
      w.statusAt? id = some .executing
    | .returned _ | .threw _ => True

section Resumption

variable {host : Host} {w₀ w : World} {id : InstanceId} {outer : List InstanceId} {g : Instance}
  (hh : host.Steady)

theorem settle_paused {p : Pause} (h : Around w₀ id outer w)
    (hp : Turn.Fits unparked (.pause g p) w) :
    Paused w₀ id outer p (w.put id (g.settle p)) := by
  obtain ⟨g₀, hg₀⟩ := h.present
  have hstatus : ∀ g' : Instance, (w.put id g').statusAt? id = some g'.status := fun g' => by
    rw [World.statusAt?, World.put_self hg₀, Option.map_some]
  match p with
  | .delegate inner a =>
    obtain ⟨⟨hp, -⟩, hinner, ha⟩ := hp
    refine ⟨h.start rfl hp, ?_, Action.endsDelegate_of_isCall ha⟩
    rw [World.put_self hg₀]
    exact hinner
  | .stop (.yielded v) | .stop (.awaiting v) => exact ⟨h.stop nofun fun _ => rfl, hstatus _⟩
  | .stop (.failed e) =>
    have hp : g.parked = none := hp.1
    exact ⟨h.stop nofun (by simp [Instance.settle, Instance.finish, hp]), .inr (.inl (hstatus _))⟩
  | .stop (.returned v) | .stop (.threw v) =>
    have hp : g.parked = none := hp.1
    exact ⟨h.stop nofun (by simp [Instance.settle, Instance.finish, hp]), trivial⟩

/-- What a resumption of one instance finds. An instance that executes is told that its delegation has
ended only if it is the innermost of those that wait. -/
def Asked (w₀ : World) (id : InstanceId) (outer : List InstanceId) (a : Action) (w : World) : Prop :=
  if a.endsDelegate = true ∧ w.statusAt? id = some .executing then Chained w₀ (id :: outer) w
  else Chained w₀ outer w

theorem Asked.chained {a : Action} (h : Asked w₀ id outer a w)
    (hidle : w.statusAt? id ≠ some .executing) : Chained w₀ outer w := by
  rwa [Asked, if_neg fun ha => hidle ha.2] at h

theorem Asked.of_idle {a : Action} (h : Chained w₀ outer w)
    (hidle : w.statusAt? id ≠ some .executing) : Asked w₀ id outer a w := by
  rwa [Asked, if_neg fun ha => hidle ha.2]

theorem Asked.of_call {a : Action} (h : Chained w₀ outer w) (ha : a.endsDelegate = false) :
    Asked w₀ id outer a w := by
  rwa [Asked, if_neg (by simp [ha])]

theorem Asked.of_waiting {a : Action} (h : Chained w₀ (id :: outer) w) (ha : a.endsDelegate = true) :
    Asked w₀ id outer a w := by
  obtain ⟨g, hg, he⟩ := h.runs id List.mem_cons_self
  rwa [Asked, if_pos ⟨ha, by rw [World.statusAt?, hg, Option.map_some, he]⟩]

theorem Asked.orderly {a : Action} (h : Asked w₀ id outer a w) : w.Orderly := by
  unfold Asked at h
  split at h <;> exact h.orderly

theorem Asked.stays {a : Action} {i : InstanceId} {g : Instance} (h : Asked w₀ id outer a w)
    (hg : w₀.instances[i]? = some g) (he : g.status = .executing) : w.instances[i]? = some g := by
  unfold Asked at h
  split at h <;> exact h.stays i g hg he

/-- What an instance goes on with once it is not parked any more. -/
def Unparked (w₀ : World) (id : InstanceId) (outer : List InstanceId) :
    Except Value (Instance × Action) → World → Prop
  | .error _, w => Chained w₀ outer w ∧ w.statusAt? id = some .suspendedYield
  | .ok (g, a), w => Asked w₀ id outer a w ∧ w.instances[id]? = some g ∧ g.parked = none

theorem unpark_yields {a : Action} (h : Asked w₀ id outer a w) (hg : w.instances[id]? = some g) :
    Outcome.Yields (Unparked w₀ id outer) ((Run.edit (unpark id g a) : Run _) w) := by
  cases hp : g.parked with
  | none =>
    simp only [unpark, hp]
    exact ⟨h, hg, hp⟩
  | some p =>
    -- a parked instance is suspended, so it is not one that waits for the end of a delegation
    have hstatus : g.status = .suspendedYield := h.orderly.parked id g hg (by rw [hp]; rfl)
    have hidle : g.status ≠ .executing := by
      rw [hstatus]
      nofun
    have hchained := h.chained (by rw [World.statusAt?, hg, Option.map_some, hstatus]; nofun)
    obtain ⟨⟨c, w₁⟩, hcell⟩ : ∃ r, Edit.takeCell p.cell w = r := ⟨_, rfl⟩
    have hinst : w₁.instances = w.instances := (congrArg (·.2.instances) hcell).symm
    have hgens : w₁.asyncGenerators = w.asyncGenerators :=
      (congrArg (·.2.asyncGenerators) hcell).symm
    have hchained : Chained w₀ outer w₁ := hchained.kept (.of_keeps h.orderly hinst hgens)
    have hg₁ : w₁.instances[id]? = some g := by rw [hinst]; exact hg
    have hfreed : ∀ (g' : Instance) (b : Action), g'.status = g.status → g'.parked = none →
        Unparked w₀ id outer (.ok (g', b)) (w₁.put id g') := by
      intro g' b hs hp'
      refine ⟨.of_idle ?_ ?_, World.put_self hg₁, hp'⟩
      · exact (hchained.around_idle hg₁ hidle).stop (by rwa [hs]) (by simp [hp'])
      · rw [World.statusAt?, World.put_self hg₁, Option.map_some, hs, hstatus]
        nofun
    simp only [Run.edit, HasWorld.world, HasWorld.setWorld, id_eq, unpark, hp, bind, StateT.bind,
      hcell]
    cases c with
    | none =>
      cases a with
      | next v =>
        refine ⟨hchained, ?_⟩
        rw [World.statusAt?, hg₁, Option.map_some, hstatus]
      | throw | ret | settled | delegateDone | delegateThrew => exact hfreed _ _ rfl rfl
    | some s => cases a <;> exact hfreed _ _ rfl rfl

include hh

theorem runSlice_yields (h : Around w₀ id outer w) (hp : g.parked = none) (a : Action) :
    (runSlice host id g a w).Yields (Paused w₀ id outer) := by
  have hstart : Chained w₀ (id :: outer) (w.put id { g with status := .executing }) :=
    h.start rfl hp
  refine .bind (P := fun _ w₁ => Chained w₀ (id :: outer) w₁) hstart fun _ w₁ hw₁ => ?_
  refine .bind (slice_yields hh hw₁.orderly host.fuel hp a) fun r w₂ hr => ?_
  exact settle_paused (hw₁.kept hr.1).around hr.2

theorem resumeOne_yields {a : Action} (h : Asked w₀ id outer a w) :
    (resumeOne host id a w).Yields (Paused w₀ id outer) := by
  -- the instance is looked up in the world itself
  refine .bind (P := fun g w₁ => w₁ = w ∧ g = w.instances[id]?) ⟨rfl, rfl⟩ ?_
  rintro g w ⟨rfl, hg⟩
  cases g with
  | none =>
    have hnone : w.statusAt? id = none := by rw [World.statusAt?, ← hg]; rfl
    exact ⟨h.chained (by rw [hnone]; nofun), .inl hnone⟩
  | some g =>
    refine .bind (unpark_yields h hg.symm) fun r w₁ hr => ?_
    match r with
    | .error promise => exact hr
    | .ok (g, a) =>
      obtain ⟨h, hg, hp⟩ := hr
      have hstatus : w₁.statusAt? id = some g.status := by rw [World.statusAt?, hg]; rfl
      dsimp only
      cases hs : g.status with
      | completed =>
        have hchained := h.chained (by rw [hstatus, hs]; nofun)
        cases a <;> exact ⟨hchained, trivial⟩
      | executing =>
        dsimp only
        split
        · rename_i ha
          rw [Asked, if_pos ⟨ha, by rw [hstatus, hs]⟩] at h
          exact runSlice_yields hh h.around hp a
        · rename_i ha
          rw [Asked, if_neg fun h => ha h.1] at h
          exact ⟨h, .inr (.inr (by rw [hstatus, hs]))⟩
      | suspendedStart | suspendedYield =>
        have hchained := h.chained (by rw [hstatus, hs]; nofun)
        exact runSlice_yields hh (hchained.around_idle hg (by rw [hs]; nofun)) hp a

end Resumption

section Marks

variable {w₀ w : World} {id : InstanceId} {outer : List InstanceId} {g : Instance}

theorem markOuter_eq (f : Instance → Instance) (h : outer.Nodup) (i : InstanceId) :
    (markOuter outer f w).2.instances[i]? =
      if i ∈ outer then w.instances[i]?.map f else w.instances[i]? := by
  induction outer generalizing w with
  | nil => rfl
  | cons id outer ih =>
    obtain ⟨hid, hnodup⟩ := List.nodup_cons.1 h
    have hstep : markOuter (id :: outer) f w = markOuter outer f (Edit.modifyInstance id f w).2 := rfl
    have hmodify : (Edit.modifyInstance id f w).2.instances[i]? =
        if id = i then w.instances[i]?.map f else w.instances[i]? := by
      show (w.instances.modify id f)[i]? = _
      rw [Array.getElem?_modify]
    rw [hstep, ih hnodup, hmodify]
    by_cases h₁ : id = i
    · subst h₁
      simp [hid]
    · have h₂ : i ≠ id := fun h => h₁ h.symm
      simp [h₁, h₂]

theorem markOuter_world (outer : List InstanceId) (f : Instance → Instance) (w : World) :
    (markOuter outer f w).2 = { w with instances := (markOuter outer f w).2.instances } ∧
      (markOuter outer f w).2.instances.size = w.instances.size := by
  induction outer generalizing w with
  | nil => exact ⟨rfl, rfl⟩
  | cons id outer ih =>
    have hstep : markOuter (id :: outer) f w = markOuter outer f (Edit.modifyInstance id f w).2 := rfl
    obtain ⟨hworld, hsize⟩ := ih (w := (Edit.modifyInstance id f w).2)
    rw [hstep]
    refine ⟨hworld, hsize.trans ?_⟩
    exact Array.size_modify

theorem markOuter_asyncGenerators (f : Instance → Instance) :
    (markOuter outer f w).2.asyncGenerators = w.asyncGenerators := by
  induction outer generalizing w with
  | nil => rfl
  | cons id outer ih => exact ih

/-- Marking the whole chain as not executing leaves what was before. -/
theorem Chained.mark (h : Chained w₀ outer w) {f : Instance → Instance} {s : Status}
    (hs : s ≠ .executing) (hf : ∀ g, (f g).status = s ∧ (f g).parked = g.parked) :
    Kept w₀ (markOuter outer f w).2 ∧
      ∀ i ∈ outer, (markOuter outer f w).2.statusAt? i = some s := by
  have hmarked : ∀ i ∈ outer, ∃ g : Instance, (markOuter outer f w).2.instances[i]? = some (f g) ∧
      g.parked = none := by
    intro i hi
    obtain ⟨g, hg, he⟩ := h.runs i hi
    refine ⟨g, by rw [markOuter_eq f h.nodup, if_pos hi, hg]; rfl, ?_⟩
    cases hp : g.parked with
    | none => rfl
    | some p => cases he.symm.trans (h.orderly.parked i g hg (by rw [hp]; rfl))
  have hother : ∀ i, i ∉ outer → (markOuter outer f w).2.instances[i]? = w.instances[i]? :=
    fun i hi => by rw [markOuter_eq f h.nodup, if_neg hi]
  refine ⟨⟨⟨fun i g hg hp => ?_, ?_⟩, fun i g hg he => ?_, fun i g hg he => ?_⟩, fun i hi => ?_⟩
  · by_cases hi : i ∈ outer
    · obtain ⟨g', hg', hp'⟩ := hmarked i hi
      cases hg.symm.trans hg'
      rw [(hf g').2, hp'] at hp
      cases hp
    · rw [hother i hi] at hg
      exact h.orderly.parked i g hg hp
  · rw [markOuter_asyncGenerators]
    exact h.orderly.requests
  · have hi : i ∉ outer := fun hi =>
      h.fresh i hi (by rw [World.statusAt?, hg, Option.map_some, he])
    rw [hother i hi]
    exact h.stays i g hg he
  · by_cases hi : i ∈ outer
    · obtain ⟨g', hg', -⟩ := hmarked i hi
      cases hg.symm.trans hg'
      exact absurd ((hf g').1.symm.trans he) hs
    · rw [hother i hi] at hg
      exact (h.back i g hg he).resolve_left hi
  · obtain ⟨g, hg, -⟩ := hmarked i hi
    rw [World.statusAt?, hg, Option.map_some, (hf g).1]

theorem park_yields (h : Chained w₀ outer w) (hs : w.statusAt? id = some .suspendedYield)
    (promise : Value) :
    Outcome.Yields (fun _ w₁ => Chained w₀ outer w₁ ∧ w₁.statusAt? id = some .suspendedYield)
      ((Run.edit (park id promise) : Run Unit) w) := by
  obtain ⟨g, hg, hstatus⟩ := Option.map_eq_some_iff.1 hs
  have hfound : Edit.instance? id w = (some g, w) := congrArg (·, w) hg
  by_cases hp : (!g.isAsync && g.parked.isNone) = true
  · obtain ⟨⟨cell, w₁⟩, hcell⟩ : ∃ r, Edit.newCell w = r := ⟨_, rfl⟩
    obtain ⟨w₂, hw₂⟩ : ∃ w₂, (Promise.await promise (.unpark cell) w₁).2 = w₂ := ⟨_, rfl⟩
    have hkeep := await_keepsActivations promise (.unpark cell) w₁
    rw [hw₂] at hkeep
    have hinst : w₂.instances = w.instances :=
      hkeep.1.trans (congrArg (·.2.instances) hcell).symm
    have hgens : w₂.asyncGenerators = w.asyncGenerators :=
      hkeep.2.trans (congrArg (·.2.asyncGenerators) hcell).symm
    have hg₂ : w₂.instances[id]? = some g := by rw [hinst]; exact hg
    have hchained : Chained w₀ outer w₂ := h.kept (.of_keeps h.orderly hinst hgens)
    have hout : park id promise w = ((), w₂.put id { g with parked := some ⟨promise, cell⟩ }) := by
      simp only [park, bind, StateT.bind, hfound, if_pos hp, hcell, ← hw₂]
      rfl
    simp only [Run.edit, HasWorld.world, HasWorld.setWorld, id_eq, hout]
    refine ⟨(hchained.around_idle hg₂ (by rw [hstatus]; nofun)).stop ?_ fun _ => hstatus, ?_⟩
    · exact fun h => by cases hstatus.symm.trans h
    · rw [World.statusAt?, World.put_self hg₂, Option.map_some, hstatus]
  · have hout : park id promise w = ((), w) := by
      simp only [park, bind, StateT.bind, hfound, if_neg hp]
      rfl
    simp only [Run.edit, HasWorld.world, HasWorld.setWorld, id_eq, hout]
    exact ⟨h, hs⟩

end Marks

/-- Whether the instance has ended, so that another goes on. -/
def Stop.isEnd : Stop → Bool
  | .returned _ | .threw _ => true
  | .yielded _ | .awaiting _ | .failed _ => false

/-- How a resumption goes through instances that delegate to each other, and which of them, innermost
first, are in the chain when it gets its answer. -/
inductive Passage (host : Host) : List InstanceId → InstanceId → Action → World →
    List InstanceId → Stop → Prop where
  | inward {outer chain : List InstanceId} {id inner : InstanceId} {a b : Action} {s : Stop}
    {w w₁ : World} : resumeOne host id a w = .done (.delegate inner b) w₁ →
    w₁.instances[id]?.bind Instance.delegate? = some inner →
    Passage host (id :: outer) inner b w₁ chain s → Passage host outer id a w chain s
  | returned {outer chain : List InstanceId} {id next : InstanceId} {a : Action} {v : Value}
    {s : Stop} {w w₁ : World} : resumeOne host id a w = .done (.stop (.returned v)) w₁ →
    Passage host outer next (.delegateDone v) w₁ chain s → Passage host (next :: outer) id a w chain s
  | threw {outer chain : List InstanceId} {id next : InstanceId} {a : Action} {v : Value}
    {s : Stop} {w w₁ : World} : resumeOne host id a w = .done (.stop (.threw v)) w₁ →
    Passage host outer next (.delegateThrew v) w₁ chain s →
    Passage host (next :: outer) id a w chain s
  | answer {outer : List InstanceId} {id : InstanceId} {a : Action} {s : Stop} {w w₁ : World} :
    resumeOne host id a w = .done (.stop s) w₁ → (s.isEnd = true → outer = []) →
    Passage host outer id a w (id :: outer) s

/-- How the instances of a chain stand after an answer. After a failure those that executed before
still do. -/
def Settled (w₀ : World) (chain : List InstanceId) : Stop → World → Prop
  | .yielded _, w | .awaiting _, w => ∀ i ∈ chain, w.statusAt? i = some .suspendedYield
  | .failed _, w => ∀ i ∈ chain, w.statusAt? i = some .completed ∨ w.statusAt? i = none ∨
    w₀.statusAt? i = some .executing
  | .returned _, _ | .threw _, _ => True

theorem Chained.mark_suspended {w₀ w : World} {id : InstanceId} {outer : List InstanceId}
    (h : Chained w₀ outer w) (hs : w.statusAt? id = some .suspendedYield) :
    Kept w₀ (markOuter outer Instance.suspend w).2 ∧
      ∀ i ∈ id :: outer, (markOuter outer Instance.suspend w).2.statusAt? i = some .suspendedYield := by
  obtain ⟨hkept, hmarked⟩ :=
    h.mark (f := Instance.suspend) (s := .suspendedYield) nofun fun _ => ⟨rfl, rfl⟩
  refine ⟨hkept, List.forall_mem_cons.2 ⟨?_, hmarked⟩⟩
  by_cases hid : id ∈ outer
  · exact hmarked id hid
  · rw [World.statusAt?, markOuter_eq _ h.nodup, if_neg hid]
    exact hs

theorem Chained.mark_abandoned {w₀ w : World} {id : InstanceId} {outer : List InstanceId}
    (h : Chained w₀ outer w) (hs : w.statusAt? id = none ∨ w.statusAt? id = some .completed ∨
      w.statusAt? id = some .executing) :
    Kept w₀ (markOuter outer Instance.abandon w).2 ∧
      ∀ i ∈ id :: outer, (markOuter outer Instance.abandon w).2.statusAt? i = some .completed ∨
        (markOuter outer Instance.abandon w).2.statusAt? i = none ∨
        w₀.statusAt? i = some .executing := by
  obtain ⟨hkept, hmarked⟩ :=
    h.mark (f := Instance.abandon) (s := .completed) nofun fun _ => ⟨rfl, rfl⟩
  refine ⟨hkept, List.forall_mem_cons.2 ⟨?_, fun i hi => .inl (hmarked i hi)⟩⟩
  by_cases hid : id ∈ outer
  · exact .inl (hmarked id hid)
  · have hsame : (markOuter outer Instance.abandon w).2.statusAt? id = w.statusAt? id := by
      rw [World.statusAt?, markOuter_eq _ h.nodup, if_neg hid, World.statusAt?]
    obtain hs | hs | hs := hs
    · exact .inr (.inl (hsame.trans hs))
    · exact .inl (hsame.trans hs)
    · obtain ⟨g, hg, he⟩ := Option.map_eq_some_iff.1 hs
      have hbefore := (h.back id g hg he).resolve_left hid
      exact .inr (.inr (by rw [World.statusAt?, hbefore, Option.map_some, he]))

theorem resumeChain_yields {host : Host} (hh : host.Steady) (n : Nat) {w₀ w : World}
    {outer : List InstanceId} {id : InstanceId} {a : Action} (h : Asked w₀ id outer a w) :
    (resumeChain host n outer id a w).Yields fun s w' => Kept w₀ w' ∧
      ∃ chain, Passage host outer id a w chain s ∧ Settled w₀ chain s w' := by
  induction n generalizing outer id a w with
  | zero => trivial
  | succ n ih =>
    have hone := resumeOne_yields hh h
    unfold resumeChain
    simp only [Bind.bind, RunOn.bind]
    cases hw : resumeOne host id a w with
    | exhausted => trivial
    | abrupt c w₁ =>
      rw [hw] at hone
      exact hone
    | done p w₁ =>
      rw [hw] at hone
      dsimp only
      cases p with
      | delegate inner b =>
        obtain ⟨hchained, hinner, hb⟩ := hone
        refine (ih (.of_call hchained hb)).mono fun s w' => ?_
        rintro ⟨hkept, chain, hpass, hset⟩
        exact ⟨hkept, chain, .inward hw hinner hpass, hset⟩
      | stop s =>
        cases s with
        | returned v =>
          cases outer with
          | nil => exact ⟨hone.1.kept_nil, [id], .answer hw fun _ => rfl, trivial⟩
          | cons next outer =>
            refine (ih (.of_waiting hone.1 rfl)).mono fun s w' => ?_
            rintro ⟨hkept, chain, hpass, hset⟩
            exact ⟨hkept, chain, .returned hw hpass, hset⟩
        | threw v =>
          cases outer with
          | nil => exact ⟨hone.1.kept_nil, [id], .answer hw fun _ => rfl, trivial⟩
          | cons next outer =>
            refine (ih (.of_waiting hone.1 rfl)).mono fun s w' => ?_
            rintro ⟨hkept, chain, hpass, hset⟩
            exact ⟨hkept, chain, .threw hw hpass, hset⟩
        | failed e =>
          obtain ⟨hkept, hset⟩ := hone.1.mark_abandoned hone.2
          exact ⟨hkept, id :: outer, .answer hw (by rintro ⟨⟩), hset⟩
        | awaiting promise =>
          obtain ⟨hchained, hstatus⟩ := hone
          refine .bind (park_yields hchained hstatus promise) ?_
          rintro - w₂ ⟨hchained, hstatus⟩
          obtain ⟨hkept, hset⟩ := hchained.mark_suspended hstatus
          exact ⟨hkept, id :: outer, .answer hw (by rintro ⟨⟩), hset⟩
        | yielded v =>
          obtain ⟨hkept, hset⟩ := hone.1.mark_suspended hone.2
          exact ⟨hkept, id :: outer, .answer hw (by rintro ⟨⟩), hset⟩

end Resumable
