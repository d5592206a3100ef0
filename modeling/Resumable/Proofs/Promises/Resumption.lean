import Resumable.Proofs.Promises.Tracking

/-!
Resumptions as sequences of steps. Synchronous instances may be resumed by everyone, asynchronous ones by
those who have the right to. Main statements: `resumeSync_gives`,
`resumeAsync_gives`.
-/

set_option autoImplicit false

namespace Resumable

section Syncness

variable {c c' : Config} {i : InstanceId}

theorem IsSync.later (h : IsSync c.world.instances i) (hl : Later c c') :
    IsSync c'.world.instances i := by
  obtain ⟨g, hg, hsync⟩ := h
  obtain ⟨g', hg', heq⟩ := hl.onward.instances i g hg
  exact ⟨g', hg', heq.trans hsync⟩

theorem Config.MayRun.later (h : c.MayRun i) (hl : tracking.Leads c c') : c'.MayRun i := by
  obtain ⟨-, hkeeps, hheld⟩ := hl
  obtain hown | ⟨id, a, hserving, ha, rfl⟩ := h
  · exact .inl (hheld ▸ hown)
  · obtain ⟨a', ha', heq⟩ := hkeeps.later.onward.generators id a ha
    exact .inr ⟨id, a', hheld ▸ hserving, ha', heq⟩

theorem Config.MayRun.isAsync (h : c.MayRun i) (hc : c.Reached) :
    ∃ g : Instance, c.world.instances[i]? = some g ∧ g.isAsync = true := by
  obtain hown | ⟨id, a, -, ha, rfl⟩ := h
  · exact hc.valid.standing.own i (Config.mem_rights hown)
  · obtain ⟨g, hg, hasync, -⟩ := hc.valid.attended.inst id a ha
    exact ⟨g, hg, hasync⟩

theorem Config.Reached.orderly (hc : c.Reached) : c.world.Orderly :=
  ⟨fun i g hg hp => ((hc.valid.proper i g hg).parked hp).1, hc.valid.attended.requests⟩

def Config.CanResume (c : Config) (i : InstanceId) : Prop := IsSync c.world.instances i ∨ c.MayRun i

theorem Config.CanResume.later (h : c.CanResume i) (hl : tracking.Leads c c') : c'.CanResume i :=
  h.imp (·.later hl.2.1.later) (·.later hl)

theorem Heap.isSync_of_generator? {v : Value} (hc : c.Reached)
    (h : c.world.heap.generator? v = some i) : IsSync c.world.instances i := by
  unfold Heap.generator? at h
  split at h
  · rename_i hrole
    cases h
    obtain ⟨o, ho, hr⟩ := Option.map_eq_some_iff.1 hrole
    obtain ⟨id, -, ho⟩ := Option.bind_eq_some_iff.1 ho
    have hsound := hc.valid.sound id o ho
    rw [hr] at hsound
    exact hsound
  · cases h

end Syncness

/-- An instance that runs waits for no promise, and delegates directly only if it is synchronous, and to
such. -/
def direct (isAsync : Bool) : tracking.Fitness where
  fit c _ p b d := c.Reached ∧ p = none ∧ b = isAsync ∧
    ∀ j, d.bind Delegation.native = some j → b = false ∧ IsSync c.world.instances j
  rests := True
  stable := by
    rintro c c' _ p b d hl ⟨-, hp, hb, hd⟩
    refine ⟨tracking.good hl, hp, hb, fun j hj => ⟨(hd j hj).1, ?_⟩⟩
    exact (hd j hj).2.later hl.2.1.later
  ended := by
    rintro c _ p b d ⟨hc, hp, hb, -⟩
    exact ⟨hc, hp, hb, nofun⟩
  received m h := h
  started := by
    rintro c _ p b d record ⟨hc, hp, hb, -⟩
    refine ⟨hc, hp, hb, fun j hj => ?_⟩
    cases b with
    | true => cases hj
    | false =>
      refine ⟨rfl, ?_⟩
      have hj : c.world.heap.nativeGenerator? record.iterator = some j := hj
      unfold Heap.nativeGenerator? at hj
      split at hj
      · exact Heap.isSync_of_generator? hc hj
      · cases hj

section Instances

variable {c : Config} {id : InstanceId} {g g₀ : Instance}

theorem put_step (hg₀ : c.world.instances[id]? = some g₀) (hasync : g.isAsync = g₀.isAsync)
    (hproper : g.Proper c.world.instances) (hrun : c.CanResume id) :
    Step c ⟨c.world.put id g, c.held, c.log⟩ := by
  refine .instances _ Array.size_setIfInBounds fun i g₁ g₂ h₁ h₂ => ?_
  by_cases hi : id = i
  · subst hi
    cases hg₀.symm.trans h₁
    cases (World.put_self hg₀).symm.trans h₂
    refine .inr ⟨hasync, hproper, hrun.imp_left fun hsync => ?_⟩
    obtain ⟨g', hg', hs⟩ := hsync
    cases hg₀.symm.trans hg'
    exact hs
  · cases ((World.put_other hi).symm.trans h₂).symm.trans h₁
    exact .inl rfl

theorem setInstance_gives (hc : c.Reached) (hg₀ : c.world.instances[id]? = some g₀)
    (hasync : g.isAsync = g₀.isAsync) (hproper : g.Proper c.world.instances)
    (hrun : c.CanResume id) :
    tracking.Gives c (Run.edit (Edit.setInstance id g)) fun _ c' =>
      c' = ⟨c.world.put id g, c.held, c.log⟩ :=
  ⟨_, ⟨hc, .single (put_step hg₀ hasync hproper hrun) (le_refl _), rfl⟩, rfl, rfl⟩

/-- What becomes of an instance that is resumed: one that passes the call on is synchronous, and so is
that which gets it; an asynchronous one awaits something only if that is its answer. -/
def Halted (id : InstanceId) (wasExecuting : Prop) : Pause → Config → Prop
  | .delegate inner _, c => IsSync c.world.instances id ∧ IsSync c.world.instances inner
  | .stop (.awaiting _), _ => True
  | .stop _, c => ¬ wasExecuting → ∀ g : Instance, c.world.instances[id]? = some g →
    g.isAsync = true → g.awaiting = none

theorem proper_of_fit {b : Bool} (hfit : g.Fit (direct b) c) (hstart : g.status ≠ .suspendedStart)
    (hend : g.status = .completed → g.awaiting = none) : g.Proper c.world.instances where
  parked h := by
    rw [hfit.2.1] at h
    cases h
  delegate := hfit.2.2.2
  started h := (hstart h).elim
  ended h _ := hend h

theorem settle_halted {p : Pause} {P : Prop} (hc : c.Reached)
    (hp : Turn.Fits (direct g₀.isAsync) (.pause g p) c) (hg₀ : c.world.instances[id]? = some g₀)
    (hrun : c.CanResume id) :
    tracking.Gives c (Run.edit (Edit.setInstance id (g.settle p))) fun _ => Halted id P p := by
  have hput (g' : Instance) (hasync : g'.isAsync = g₀.isAsync)
      (hproper : g'.Proper c.world.instances) (h : Halted id P p ⟨c.world.put id g', c.held, c.log⟩) :
      tracking.Gives c (Run.edit (Edit.setInstance id g')) fun _ => Halted id P p :=
    (setInstance_gives hc hg₀ hasync hproper hrun).mono fun _ c' _ hc' => hc' ▸ h
  have hself (g' : Instance) : (c.world.put id g').instances[id]? = some g' := World.put_self hg₀
  match p with
  | .delegate inner a =>
    obtain ⟨⟨hfit, -⟩, hinner, -⟩ := hp
    obtain ⟨hsync, hinner⟩ := hfit.2.2.2 inner hinner
    refine hput _ hfit.2.2.1 (proper_of_fit (by exact hfit) nofun nofun) ⟨⟨_, hself _, hsync⟩, ?_⟩
    have hlater {d : Config} (hl : Later c d) : IsSync d.world.instances inner := hinner.later hl
    refine hlater (d := ⟨c.world.put id _, c.held, c.log⟩) (.single (.inl ?_))
    exact put_step hg₀ hfit.2.2.1 (proper_of_fit (by exact hfit) nofun nofun) hrun
  | .stop (.awaiting v) =>
    exact hput _ hp.2.2.1 (proper_of_fit (by exact hp) nofun nofun) trivial
  | .stop (.yielded v) =>
    obtain ⟨hfit, hawait⟩ := hp
    refine hput _ hfit.2.2.1 (proper_of_fit (by exact hfit) nofun nofun) fun _ g' hg' _ => ?_
    cases (hself _).symm.trans hg'
    exact hawait trivial
  | .stop (.returned v) | .stop (.threw v) | .stop (.failed e) =>
    have hfit := hp.1
    have hfinish : g.finish.Fit (direct g₀.isAsync) c := (direct g₀.isAsync).ended hfit
    refine hput _ hfit.2.2.1 (proper_of_fit hfinish nofun fun _ => rfl) fun _ g' hg' _ => ?_
    cases (hself _).symm.trans hg'
    rfl

end Instances

section Resuming

variable {host : Host} {c : Config} {id : InstanceId} {g : Instance} {a : Action}

/-- An instance that waits for a promise is synchronous. -/
theorem unpark_gives (hc : c.Reached) (hg : c.world.instances[id]? = some g) :
    tracking.Gives c (Run.edit (unpark id g a)) fun r c' =>
      match r with
      | .error _ => True
      | .ok (g', _) => c'.world.instances[id]? = some g' ∧ g'.parked = none ∧ g'.status = g.status ∧
        g'.isAsync = g.isAsync := by
  have hproper := hc.valid.proper id g hg
  unfold unpark
  cases hp : g.parked with
  | none => exact .pure hc ⟨hg, hp, rfl, rfl⟩
  | some p =>
    obtain ⟨hstatus, hsync⟩ := hproper.parked (by rw [hp]; rfl)
    have hcalm (w : World) : w.Calm (Edit.takeCell p.cell w).2 := ⟨.refl, rfl, rfl, rfl, rfl⟩
    obtain ⟨w₁, hw₁⟩ : ∃ w₁, w₁ = (Edit.takeCell p.cell c.world).2 := ⟨_, rfl⟩
    have hinst : w₁.instances = c.world.instances := by rw [hw₁]; rfl
    have hc₁ : Config.Reached ⟨w₁, c.held, c.log⟩ := hc.step (.calm (hw₁ ▸ hcalm c.world))
    have hg₁ : w₁.instances[id]? = some g := by
      rw [hinst]
      exact hg
    have hfreed (g' : Instance) (b : Action) (hs : g'.status = g.status) (hp' : g'.parked = none)
        (ha : g'.isAsync = g.isAsync) (hd : g'.delegation = g.delegation) :
        tracking.Gives ⟨w₁, c.held, c.log⟩ (Run.edit (unpark.freed id g' b)) fun r c' =>
          match r with
          | .error _ => True
          | .ok (g', _) => c'.world.instances[id]? = some g' ∧ g'.parked = none ∧
            g'.status = g.status ∧ g'.isAsync = g.isAsync := by
      have hproper₁ : g'.Proper w₁.instances := by
        refine ⟨by simp [hp'], fun j hj => ?_, fun h => ?_, fun h => ?_⟩
        · rw [Instance.delegate?, hd] at hj
          rw [ha, hinst]
          exact hproper.delegate j hj
        · cases hstatus.symm.trans (hs.symm.trans h)
        · cases hstatus.symm.trans (hs.symm.trans h)
      have hrun : Config.CanResume ⟨w₁, c.held, c.log⟩ id := .inl ⟨g, hg₁, hsync⟩
      refine .edit_bind (setInstance_gives hc₁ hg₁ ha hproper₁ hrun) ?_
      rintro - c₂ h₂ rfl
      exact .pure (tracking.good h₂) ⟨World.put_self hg₁, hp', hs, ha⟩
    refine .edit_bind (calm_gives hc hcalm) ?_
    rintro s c₁ - ⟨-, hc₁'⟩
    rw [hc₁', ← hw₁]
    cases s with
    | none =>
      cases a with
      | next v => exact .pure hc₁ trivial
      | throw | ret | settled | delegateDone | delegateThrew => exact hfreed _ _ rfl rfl rfl rfl
    | some s => cases a <;> exact hfreed _ _ rfl rfl rfl rfl

variable (hh : tracking.Hosts host)

include hh

theorem runSlice_gives (hc : c.Reached) (hg : c.world.instances[id]? = some g)
    (hp : g.parked = none) (hrun : c.CanResume id) (P : Prop) (a : Action) :
    tracking.Gives c (runSlice host id g a) (Halted id P) := by
  have hproper := hc.valid.proper id g hg
  have hfit : g.Fit (direct g.isAsync) c := ⟨hc, hp, rfl, hproper.delegate⟩
  refine .bind (setInstance_gives (g := { g with status := .executing }) hc hg rfl
    (proper_of_fit (by exact hfit) nofun nofun) hrun) ?_
  rintro - c₁ h₁ rfl
  refine .bind (slice_gives hh host.fuel (tracking.good h₁) ((direct g.isAsync).stable h₁ hfit)
    (fun _ => hproper.started) a) ?_
  rintro ⟨g', p⟩ c₂ h₂ hfits
  obtain ⟨g₂, hg₂, heq⟩ := h₂.2.1.later.onward.instances id _ (World.put_self hg)
  have heq : g₂.isAsync = g.isAsync := heq
  refine .bind (settle_halted (P := P) (tracking.good h₂) (heq ▸ hfits) hg₂
    (hrun.later (tracking.trans h₁ h₂))) fun _ c₃ h₃ hhalted => ?_
  exact .pure (tracking.good h₃) hhalted

omit hh in
theorem resumeOne_apply (id : InstanceId) (a : Action) (w : World) :
    resumeOne host id a w = (match w.instances[id]? with
      | none => return .stop (.failed .notAGenerator)
      | some g => do
        match ← unpark id g a with
        | .error promise => return .stop (.awaiting promise)
        | .ok (g, a) =>
          match g.status with
          | .completed => return .stop (Instance.afterEnd a)
          | .executing =>
            if a.endsDelegate then runSlice host id g a
            else return .stop (.failed .generatorRunning)
          | .suspendedStart | .suspendedYield => runSlice host id g a : Run Pause) w := rfl

theorem resumeOne_gives (hc : c.Reached) (hrun : c.CanResume id) (a : Action) :
    tracking.Gives c (resumeOne host id a)
      (Halted id (c.world.statusAt? id = some .executing)) := by
  show (resumeOne host id a c.world).Yields _
  rw [resumeOne_apply]
  show tracking.Gives c _ _
  cases hg : c.world.instances[id]? with
  | none =>
    refine .pure hc fun _ g' hg' _ => ?_
    cases hg.symm.trans hg'
  | some g =>
    refine .bind (unpark_gives hc hg) fun r c₁ h₁ hr => ?_
    cases r with
    | error promise => exact .pure (tracking.good h₁) trivial
    | ok r =>
      obtain ⟨g', b⟩ := r
      obtain ⟨hg', hp, hstatus, -⟩ := hr
      have hc₁ : c₁.Reached := tracking.good h₁
      have hslice := runSlice_gives hh hc₁ hg' hp (hrun.later h₁)
        (c.world.statusAt? id = some .executing) b
      dsimp only
      cases hs : g'.status with
      | completed =>
        have hnone (g₁ : Instance) (hg₁ : c₁.world.instances[id]? = some g₁)
            (hasync : g₁.isAsync = true) : g₁.awaiting = none := by
          cases hg'.symm.trans hg₁
          exact (hc₁.valid.proper id g' hg').ended hs hasync
        cases b <;> exact .pure hc₁ fun _ => hnone
      | executing =>
        dsimp only
        split
        · exact hslice
        · refine .pure hc₁ fun hwas => (hwas ?_).elim
          rw [World.statusAt?, hg, Option.map_some, ← hstatus, hs]
      | suspendedStart | suspendedYield => exact hslice

end Resuming

section Chains

variable {c : Config} {id : InstanceId} {outer : List InstanceId}

theorem park_gives (hc : c.Reached) (hs : c.world.statusAt? id = some .suspendedYield)
    (promise : Value) :
    tracking.Gives c (Run.edit (park id promise)) fun _ _ => True := by
  obtain ⟨g, hg, hstatus⟩ := Option.map_eq_some_iff.1 hs
  refine .edit_bind (P := fun g' c' => g' = some g ∧ c' = c) ⟨c, tracking.refl hc, rfl, hg, rfl⟩ ?_
  rintro _ c - ⟨rfl, rfl⟩
  by_cases hp : (!g.isAsync && g.parked.isNone) = true
  · simp only [if_pos hp]
    obtain ⟨hsync, -⟩ := Bool.and_eq_true_iff.1 hp
    have hsync : g.isAsync = false := by simpa using hsync
    have hproper := hc.valid.proper id g hg
    have hcalm : Edit.newCell.IsCalm := fun _ => ⟨.refl, rfl, rfl, rfl, rfl⟩
    refine .edit_bind (calm_gives hc hcalm) ?_
    rintro cell c₁ h₁ ⟨-, rfl⟩
    have hc₁ := tracking.good h₁
    refine .edit_bind (tracking_gives_iff.2 (keeps_moves
      (await_moves (k := .unpark cell) promise hc₁ (zero_add _).symm nofun)
      (await_keepsActivations promise (.unpark cell)))) ?_
    rintro - c₂ h₂ ⟨hinst, -⟩
    have hg₂ : c₂.world.instances[id]? = some g := by
      rw [hinst]
      exact hg
    have hproper₂ : Instance.Proper c₂.world.instances { g with parked := some ⟨promise, cell⟩ } := by
      rw [hinst]
      exact ⟨fun _ => ⟨hstatus, hsync⟩, hproper.delegate, hproper.started, hproper.ended⟩
    exact (setInstance_gives (g := { g with parked := some ⟨promise, cell⟩ }) (tracking.good h₂) hg₂
      rfl hproper₂ (.inl ⟨g, hg₂, hsync⟩)).mono fun _ _ _ _ => trivial
  · simp only [if_neg hp]
    exact .pure hc trivial

theorem markOuter_gives (hc : c.Reached) (hnodup : outer.Nodup)
    (hsync : ∀ i ∈ outer, IsSync c.world.instances i) {f : Instance → Instance}
    (hf : ∀ i ∈ outer, ∀ g : Instance, c.world.instances[i]? = some g →
      (f g).isAsync = g.isAsync ∧ (f g).Proper c.world.instances) :
    tracking.Gives c (Run.edit (markOuter outer f)) fun _ _ => True := by
  obtain ⟨hworld, hsize⟩ := markOuter_world outer f c.world
  refine ⟨⟨(markOuter outer f c.world).2, c.held, c.log⟩, ⟨hc, .single ?_ (le_refl _), rfl⟩, rfl,
    trivial⟩
  rw [hworld]
  refine .instances _ hsize fun i g g' hg hg' => ?_
  rw [markOuter_eq f hnodup] at hg'
  split at hg'
  · rename_i hi
    rw [hg] at hg'
    cases hg'
    obtain ⟨hasync, hproper⟩ := hf i hi g hg
    obtain ⟨g₀, hg₀, hs⟩ := hsync i hi
    cases hg.symm.trans hg₀
    exact .inr ⟨hasync, hproper, .inl hs⟩
  · cases hg.symm.trans hg'
    exact .inl rfl

theorem Instance.Proper.suspend {gs : Array Instance} {g : Instance} (h : g.Proper gs) :
    g.suspend.Proper gs :=
  ⟨fun hp => ⟨rfl, (h.parked hp).2⟩, h.delegate, nofun, nofun⟩

theorem Instance.Proper.abandon {gs : Array Instance} {g : Instance} (h : g.Proper gs)
    (he : g.status = .executing) (hsync : g.isAsync = false) : g.abandon.Proper gs := by
  refine ⟨fun hp => ?_, nofun, nofun, fun _ hasync => ?_⟩
  · cases he.symm.trans (h.parked hp).1
  · cases hsync.symm.trans hasync

variable {w₀ : World}

theorem suspend_gives (hc : c.Reached) (h : Chained w₀ outer c.world)
    (hsync : ∀ i ∈ outer, IsSync c.world.instances i) :
    tracking.Gives c (Run.edit (markOuter outer Instance.suspend)) fun _ _ => True :=
  markOuter_gives hc h.nodup hsync fun i _ g hg => ⟨rfl, (hc.valid.proper i g hg).suspend⟩

theorem abandon_gives (hc : c.Reached) (h : Chained w₀ outer c.world)
    (hsync : ∀ i ∈ outer, IsSync c.world.instances i) :
    tracking.Gives c (Run.edit (markOuter outer Instance.abandon)) fun _ _ => True := by
  refine markOuter_gives hc h.nodup hsync fun i hi g hg => ⟨rfl, ?_⟩
  obtain ⟨g', hg', he⟩ := h.runs i hi
  cases hg.symm.trans hg'
  obtain ⟨g', hg', hs⟩ := hsync i hi
  cases hg.symm.trans hg'
  exact (hc.valid.proper i g hg).abandon he hs

variable {host : Host} (hs : host.Steady) (hh : tracking.Hosts host)

include hs hh

/-- A chain of synchronous instances can be resumed by everyone. -/
theorem resumeChain_gives (n : Nat) {a : Action} (hc : c.Reached) (ha : Asked w₀ id outer a c.world)
    (hid : IsSync c.world.instances id) (houter : ∀ i ∈ outer, IsSync c.world.instances i) :
    tracking.Gives c (resumeChain host n outer id a) fun _ _ => True := by
  induction n generalizing outer id a c with
  | zero => exact .exhausted
  | succ n ih =>
    unfold resumeChain
    refine .bind ((resumeOne_gives hh hc (.inl hid) a).and (resumeOne_yields hs ha)) ?_
    rintro p c₁ h₁ ⟨hhalted, hpaused⟩
    have hc₁ : c₁.Reached := tracking.good h₁
    have houter₁ (i : InstanceId) (hi : i ∈ outer) : IsSync c₁.world.instances i :=
      (houter i hi).later h₁.2.1.later
    cases p with
    | delegate inner b =>
      exact ih hc₁ (.of_call hpaused.1 hpaused.2.2) hhalted.2
        (List.forall_mem_cons.2 ⟨hhalted.1, houter₁⟩)
    | stop s =>
      cases s with
      | returned v =>
        cases outer with
        | nil => exact .pure hc₁ trivial
        | cons next outer =>
          obtain ⟨hnext, houter₁⟩ := List.forall_mem_cons.1 houter₁
          exact ih hc₁ (.of_waiting hpaused.1 rfl) hnext houter₁
      | threw v =>
        cases outer with
        | nil => exact .pure hc₁ trivial
        | cons next outer =>
          obtain ⟨hnext, houter₁⟩ := List.forall_mem_cons.1 houter₁
          exact ih hc₁ (.of_waiting hpaused.1 rfl) hnext houter₁
      | failed e =>
        exact .bind (abandon_gives hc₁ hpaused.1 houter₁) fun _ _ h₂ _ =>
          .pure (tracking.good h₂) trivial
      | awaiting promise =>
        obtain ⟨hchained, hstatus⟩ := hpaused
        refine .bind ((park_gives hc₁ hstatus promise).and (park_yields hchained hstatus promise)) ?_
        rintro - c₂ h₂ ⟨-, hchained, -⟩
        have houter₂ (i : InstanceId) (hi : i ∈ outer) : IsSync c₂.world.instances i :=
          (houter₁ i hi).later h₂.2.1.later
        exact .bind (suspend_gives (tracking.good h₂) hchained houter₂) fun _ _ h₃ _ =>
          .pure (tracking.good h₃) trivial
      | yielded v =>
        exact .bind (suspend_gives hc₁ hpaused.1 houter₁) fun _ _ h₂ _ =>
          .pure (tracking.good h₂) trivial

theorem resumeSync_gives {a : Action} (hc : c.Reached) (ha : Asked c.world id [] a c.world)
    (hid : IsSync c.world.instances id) :
    tracking.Gives c (resume host id a) fun _ _ => True :=
  resumeChain_gives hs hh host.fuel hc ha hid nofun

/-- An asynchronous instance delegates to none directly, so it is resumed alone. -/
theorem resumeAsync_gives {a : Action} (hc : c.Reached) (ha : a.endsDelegate = false)
    (hrun : c.MayRun id) :
    tracking.Gives c (resume host id a) fun s =>
      Halted id (c.world.statusAt? id = some .executing) (.stop s) := by
  obtain ⟨g, hg, hasync⟩ := hrun.isAsync hc
  -- there are none to be marked
  have hskip (s : Stop) (f : Instance → Instance) (c₁ : Config) (hc₁ : c₁.Reached)
      (hhalted : Halted id (c.world.statusAt? id = some .executing) (.stop s) c₁) :
      tracking.Gives c₁ (do markOuter [] f; return s) fun s =>
        Halted id (c.world.statusAt? id = some .executing) (.stop s) :=
    .bind (P := fun _ c' => c' = c₁) ⟨c₁, tracking.refl hc₁, rfl, rfl⟩ fun _ c₂ h₂ heq =>
      .pure (tracking.good h₂) (heq ▸ hhalted)
  unfold resume
  cases host.fuel with
  | zero => exact .exhausted
  | succ n =>
    unfold resumeChain
    refine .bind ((resumeOne_gives hh hc (.inr hrun) a).and
      (resumeOne_yields hs (.of_call (.of_orderly hc.orderly) ha))) ?_
    rintro p c₁ h₁ ⟨hhalted, hpaused⟩
    have hc₁ : c₁.Reached := tracking.good h₁
    cases p with
    | delegate inner b =>
      obtain ⟨g₁, hg₁, heq⟩ := h₁.2.1.later.onward.instances id g hg
      obtain ⟨g', hg', hsync⟩ := hhalted.1
      cases hg₁.symm.trans hg'
      cases hsync.symm.trans (heq.trans hasync)
    | stop s =>
      cases s with
      | returned | threw => exact .pure hc₁ hhalted
      | failed e => exact hskip _ _ c₁ hc₁ hhalted
      | awaiting promise =>
        refine .bind (park_gives hc₁ hpaused.2 promise) fun _ c₂ h₂ _ => ?_
        exact hskip _ _ c₂ (tracking.good h₂) trivial
      | yielded v => exact hskip _ _ c₁ hc₁ hhalted

end Chains

end Resumable
