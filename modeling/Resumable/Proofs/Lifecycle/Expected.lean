import Resumable.Proofs.Lifecycle.Accounts
import Resumable.Proofs.Lifecycle.Programs
import Resumable.Proofs.Polling.Lockstep

/-!
Resumptions with what is expected. A call comes to a generator when it expects one, the settlement of what
it waits for while it waits, and the end of a delegation while it delegates. Main statement:
`resume_expected`.
-/

set_option autoImplicit false

namespace Resumable

/-- How a resumed instance is left behind a pause. -/
def Handed (K : Host) (id : InstanceId) (w : World) (p : Pause) (w' : World) : Prop :=
  w.Spares id w' ∧ match p with
    | .delegate _ a => w.Sustains K [] w' ∧ a.isCall = true ∧
      ∀ g, w'.instances[id]? = some g → g.Checked → g.Waits K
    | .stop (.awaiting _) => w.Sustains K [id] w' ∧
      ∀ g, w'.instances[id]? = some g → g.Checked → g.Arrived K ∧ g.awaiting.isSome = true
    | .stop _ => w.Sustains K [] w'

section Resuming

variable {K host : Host} {w w' : World} {id : InstanceId} {g g₁ : Instance} {a : Action} {p : Pause}

theorem settle_handed (hg : w.instances[id]? = some g)
    (hfit : g₁.plan = g.plan ∧ g₁.parked = none ∧ g₁.isAsync = g.isAsync)
    (hcall : ∀ inner b, p = .delegate inner b → b.isCall = true) (hwired : w.Wired w.asyncInstances)
    (haccounts : w.Accounts K [])
    (hwaited : g.Checked → ∃ base, WaitedFor K (.running g.plan base false) (.pause g₁ p)) :
    Handed K id w p (w.put id (g₁.settle p)) := by
  obtain ⟨hplan, hparked, hasync⟩ := hfit
  have hsustains {others : List InstanceId} (h : (w.put id (g₁.settle p)).Accounts K others) :
      w.Sustains K others (w.put id (g₁.settle p)) := by
    have hsame : (w.put id (g₁.settle p)).asyncInstances = w.asyncInstances := by
      refine World.asyncInstances_put hg (Eq.trans ?_ hasync)
      cases p with
      | delegate => rfl
      | stop s => cases s <;> rfl
    exact ⟨hsame ▸ hwired.put, h, hsame.ge⟩
  have hself {g₂ : Instance} (h : (w.put id (g₁.settle p)).instances[id]? = some g₂) :
      g₂ = g₁.settle p := Option.some.inj (h.symm.trans (World.put_self hg))
  have harrived (hp : p.isFinal = false) (hc : g₁.Checked) :
      g₁.Arrived K ∧ g₁.awaiting.isSome = p.awaits := by
    have hc' : g.Checked := ⟨hasync ▸ hc.1, hplan ▸ hc.2⟩
    obtain ⟨base, hwaited⟩ := hwaited hc'
    exact ⟨⟨base, g₁, p, hplan ▸ hwaited, hp, _, _, rfl⟩, (hwaited.poised hc'.2 hp).2⟩
  have hwaits (hp : p.isFinal = false) (hawaits : p.awaits = false) (hc : g₁.Checked)
      (status : Status) : Instance.Waits K { g₁ with status } := by
    obtain ⟨harrived, hawaiting⟩ := harrived hp hc
    refine ⟨harrived.mark status g₁.parked, ?_⟩
    show g₁.awaiting.isSome = g₁.parked.isSome
    rw [hawaiting, hawaits, hparked]
    rfl
  have hended {status : Status} (hs : status = .executing ∨ status = .completed) {g₂ : Instance}
      (hg₂ : g₂.status = status) : g₂.Accounted K := by
    subst hg₂
    constructor <;> intro h <;> simp [h] at hs
  refine ⟨.put, ?_⟩
  cases p with
  | delegate inner b =>
    refine ⟨hsustains (haccounts.but.put hg fun _ => hended (.inl rfl) rfl), hcall inner b rfl, ?_⟩
    intro g₂ h hc
    cases hself h
    exact hwaits rfl rfl hc .executing
  | stop s =>
    cases s with
    | awaiting v =>
      refine ⟨hsustains haccounts.but.put_but, fun g₂ h hc => ?_⟩
      cases hself h
      obtain ⟨harrived, hawaiting⟩ := harrived rfl hc
      exact ⟨harrived.mark .suspendedYield g₁.parked, hawaiting⟩
    | yielded v =>
      refine hsustains (haccounts.but.put hg fun hc => ⟨?_, fun _ => hwaits rfl rfl hc .suspendedYield⟩)
      rintro ⟨⟩
    | returned | threw | failed =>
      exact hsustains (haccounts.but.put hg fun _ => hended (.inr rfl) rfl)

theorem Handed.from {w₁ : World} (h : Handed K id w₁ p w') (hspares : w.Spares id w₁)
    (hgrows : w.asyncInstances ⊆ w₁.asyncInstances) : Handed K id w p w' := by
  have hsustains {others : List InstanceId} (h : w₁.Sustains K others w') : w.Sustains K others w' :=
    ⟨h.wired, h.accounts, hgrows.trans h.grows⟩
  obtain ⟨hs, h⟩ := h
  refine ⟨hspares.trans hs, ?_⟩
  cases p with
  | delegate => exact ⟨hsustains h.1, h.2⟩
  | stop s =>
    cases s with
    | awaiting => exact ⟨hsustains h.1, h.2⟩
    | yielded | returned | threw | failed => exact hsustains h

/-- What an instance goes on with, once it does not wait for a promise any more, is what it expects. -/
structure Released (K : Host) (id : InstanceId) (g₀ : Instance) (w : World) (g : Instance) (a : Action)
    (w' : World) : Prop where
  spares : w.Spares id w'
  orderly : w'.Orderly
  sustains : w.Sustains K [id] w'
  found : w'.instances[id]? = some g
  freed : ∃ awaiting, g = { g₀ with parked := none, awaiting }
  unless_parked : g.status = .suspendedYield ∨ w' = w
  takes : g.Checked → g.status ≠ .completed → (g.status = .executing → a.endsDelegate = true) →
    g.Takes K a

def Freed (K : Host) (id : InstanceId) (g₀ : Instance) (w : World) :
    Except Value (Instance × Action) → World → Prop
  | .error promise, w' => Handed K id w (.stop (.awaiting promise)) w'
  | .ok (g, a), w' => Released K id g₀ w g a w'

/-- Whether a synchronous instance is called, or told that its delegation has ended while it waits for
that. -/
def Instance.Called (K : Host) (g : Instance) (a : Action) : Prop :=
  a.isCall = true ∨ a.endsDelegate = true ∧ g.status = .executing ∧ g.Waits K

theorem Instance.Called.takes (ha : g.Called K a) (haccounted : g.Accounted K)
    (hp : g.parked = none) (hplan : g.plan.Closed) (hend : g.status ≠ .completed)
    (hexec : g.status = .executing → a.endsDelegate = true) : g.Takes K a := by
  have hkind : a.isCall = true ∨ a.endsDelegate = true := ha.imp_right fun h => h.1
  have htakes (hs : g.status ≠ .suspendedStart) (h : g.Waits K) : g.Takes K a :=
    h.1.takes hs (h.expects hplan hp hkind)
  cases hs : g.status with
  | suspendedStart =>
    obtain ⟨base, h⟩ := haccounted.fresh hs
    exact ⟨base, by rwa [if_pos hs]⟩
  | suspendedYield => exact htakes (by simp [hs]) (haccounted.rests hs)
  | executing =>
    obtain hcall | ⟨-, -, h⟩ := ha
    · cases (Action.endsDelegate_of_isCall hcall).symm.trans (hexec hs)
    · exact htakes (by simp [hs]) h
  | completed => exact absurd hs hend

theorem unpark_expected (hw : w.Prepared K ∅) (hg : w.instances[id]? = some g)
    (ha : g.Checked → g.Called K a) :
    Outcome.Yields (Freed K id g w) ((Run.edit (unpark id g a) : Run _) w) := by
  obtain ⟨horderly, hwired, haccounts, -⟩ := hw
  cases hp : g.parked with
  | none =>
    simp only [unpark, hp]
    refine ⟨.of_instances rfl, horderly, ⟨hwired, haccounts.but, subset_rfl⟩, hg, ⟨g.awaiting, ?_⟩,
      .inr rfl, fun hc => (ha hc).takes (haccounts id g List.not_mem_nil hg hc) hp hc.2⟩
    rw [← hp]
  | some p =>
    -- a parked instance is suspended, so it is called
    have hstatus : g.status = .suspendedYield := horderly.parked id g hg (by rw [hp]; rfl)
    have hwaits (hc : g.Checked) : g.Arrived K ∧ g.awaiting.isSome = true := by
      obtain ⟨harrived, h⟩ := (haccounts id g List.not_mem_nil hg hc).rests hstatus
      rw [hp] at h
      exact ⟨harrived, h⟩
    obtain ⟨⟨c, w₁⟩, hcell⟩ : ∃ r, Edit.takeCell p.cell w = r := ⟨_, rfl⟩
    have hinst : w₁.instances = w.instances := (congrArg (·.2.instances) hcell).symm
    have hgens : w₁.asyncGenerators = w.asyncGenerators :=
      (congrArg (·.2.asyncGenerators) hcell).symm
    have hg₁ : w₁.instances[id]? = some g := by rw [hinst]; exact hg
    have horderly₁ : w₁.Orderly := (Kept.of_keeps horderly hinst hgens).orderly
    have hsame := World.asyncInstances_congr hinst
    have hwired₁ : w₁.Wired w.asyncInstances := by
      have h := (takeCell_safe p.cell).wired w hwired
      rwa [hcell] at h
    have hfreed (awaiting : Option AwaitKind) (b : Action)
        (htakes : g.Checked → Instance.Takes K { g with parked := none, awaiting } b) :
        Freed K id g w (.ok ({ g with parked := none, awaiting }, b))
          (w₁.put id { g with parked := none, awaiting }) := by
      let g' : Instance := { g with parked := none, awaiting }
      have hput : (w₁.put id g').asyncInstances = w₁.asyncInstances := World.asyncInstances_put hg₁ rfl
      have hasync := hput.trans hsame
      exact {
        spares := (World.Spares.of_instances hinst).trans .put
        orderly := horderly₁.put (by simp)
        sustains := ⟨hasync ▸ hwired₁.put, (haccounts.congr hinst).but.put_but, hasync.ge⟩
        found := World.put_self hg₁
        freed := ⟨awaiting, rfl⟩
        unless_parked := .inl hstatus
        takes := fun hc _ _ => htakes hc }
    have hsettled (s : Settlement) : Freed K id g w
        (.ok ({ g with parked := none }, .settled s)) (w₁.put id { g with parked := none }) := by
      refine hfreed g.awaiting _ fun hc => ?_
      obtain ⟨harrived, hawaiting⟩ := hwaits hc
      refine (harrived.mark g.status none).takes (by simp [hstatus]) ?_
      cases s <;> exact .inl hawaiting
    have hcalled (hnext : ∀ v, a ≠ .next v) : Freed K id g w
        (.ok ({ g with parked := none, awaiting := none }, a))
        (w₁.put id { g with parked := none, awaiting := none }) := by
      refine hfreed none _ fun hc => (hwaits hc).1.takes_freed (by simp [hstatus]) ?_
      obtain hcall | ⟨-, hexec, -⟩ := ha hc
      · cases a with
        | next v => exact absurd rfl (hnext v)
        | throw | ret => trivial
        | settled | delegateDone | delegateThrew => cases hcall
      · cases hstatus.symm.trans hexec
    simp only [Run.edit, HasWorld.world, HasWorld.setWorld, id_eq, unpark, hp, bind, StateT.bind,
      hcell]
    cases c with
    | none =>
      cases a with
      | next v =>
        refine ⟨.of_instances hinst, ⟨hsame ▸ hwired₁, (haccounts.congr hinst).but, hsame.ge⟩,
          fun g' hg' hc => ?_⟩
        cases hg₁.symm.trans hg'
        exact hwaits hc
      | throw | ret | settled | delegateDone | delegateThrew => exact hcalled (by simp)
    | some s =>
      cases a with
      | next v => exact hsettled s
      | throw | ret | settled | delegateDone | delegateThrew => exact hcalled (by simp)

variable (hh : (expecting K ∅).Hosts host) (hk : host.Within K)

include hh hk

theorem runSlice_expected (hw : w.Orderly) (hs : w.Wired w.asyncInstances) (hacc : w.Accounts K [id])
    (hg : w.instances[id]? = some g) (hp : g.parked = none) (ha : g.Checked → g.Takes K a) :
    (runSlice host id g a w).Yields (Handed K id w) := by
  let running : Instance := { g with status := .executing }
  have hrun : (w.put id running).instances[id]? = some running := World.put_self hg
  have hasync : (w.put id running).asyncInstances = w.asyncInstances :=
    World.asyncInstances_put hg rfl
  have hgood : (w.put id running).Prepared K ∅ := by
    refine ⟨hw.put (by simp [running, hp]), hasync ▸ hs.put, hacc.put hg fun _ => ⟨?_, ?_⟩,
      Set.empty_subset _⟩ <;>
      · rintro ⟨⟩
  have hslice := slice_gives hh (F := sustained K ∅ g.plan g.isAsync) (s := w.put id running) host.fuel
    hgood ⟨rfl, hp, rfl⟩ (by rintro ⟨⟩) a
  show Outcome.Yields (Handed K id w) ((g.slice host host.fuel a >>= fun r => do
      Edit.setInstance id (r.1.settle r.2)
      return r.2 : Run Pause) (w.put id running))
  refine Outcome.Yields.bind (P := fun r w₁ => (expecting K ∅).Leads (w.put id running) w₁ ∧
      Turn.Fits (sustained K ∅ g.plan g.isAsync) (.pause r.1 r.2) w₁ ∧
      (g.Checked → ∃ base, WaitedFor K (.running g.plan base false) (.pause r.1 r.2))) ?_ ?_
  · unfold Conduct.Gives at hslice
    rw [show (expecting K ∅).world (w.put id running) = w.put id running from rfl] at hslice
    cases he : g.slice host host.fuel a (w.put id running) with
    | done r w₁ =>
      rw [he] at hslice
      obtain ⟨_, hleads, rfl, hfits⟩ := hslice
      exact ⟨hleads, hfits, fun hc => (ha hc).slice hk he⟩
    | abrupt => rw [he] at hslice; exact hslice
    | exhausted => trivial
  · rintro ⟨g₁, p⟩ w₁ ⟨⟨hkept, hsustains, -⟩, hfits, hwaited⟩
    have hg₁ : w₁.instances[id]? = some running := hkept.stays id running hrun rfl
    have hcall (inner : InstanceId) (b : Action) (hp : p = .delegate inner b) : b.isCall = true := by
      cases hp
      exact hfits.2.2
    have hhanded : Handed K id w₁ p (w₁.put id (g₁.settle p)) :=
      settle_handed hg₁ hfits.fit hcall hsustains.wired hsustains.accounts hwaited
    exact hhanded.from (World.Spares.put.trans fun i g _ => hkept.stays i g) (hasync ▸ hsustains.grows)

theorem resumeOne_expected (hw : w.Prepared K ∅)
    (ha : ∀ g, w.instances[id]? = some g → g.Checked → g.Called K a) :
    (resumeOne host id a w).Yields (Handed K id w) := by
  have hself (s : Stop) (hs : ∀ v, s ≠ .awaiting v) : Handed K id w (.stop s) w := by
    refine ⟨.of_instances rfl, ?_⟩
    cases s with
    | awaiting v => exact absurd rfl (hs v)
    | yielded | returned | threw | failed => exact ⟨hw.wired, hw.accounts, subset_rfl⟩
  cases hg : w.instances[id]? with
  | none =>
    rw [resumeOne_absent hg]
    exact hself (.failed .notAGenerator) (by simp)
  | some g =>
    rw [resumeOne_found hg]
    refine Outcome.Yields.bind (unpark_expected hw hg (ha g hg)) fun r w₁ hr => ?_
    cases r with
    | error promise => exact hr
    | ok r =>
      obtain ⟨g₁, b⟩ := r
      obtain ⟨hspares, horderly, hsustains, hg₁, ⟨awaiting, hfreed⟩, hsame, htakes⟩ := hr
      have hp : g₁.parked = none := by rw [hfreed]
      have hrest (s : Stop) (hs : ∀ v, s ≠ .awaiting v) (hy : g₁.status ≠ .suspendedYield) :
          Handed K id w (.stop s) w₁ := by
        rw [hsame.resolve_left hy]
        exact hself s hs
      have hslice (hend : g₁.status ≠ .completed)
          (hexec : g₁.status = .executing → b.endsDelegate = true) :
          (runSlice host id g₁ b w₁).Yields (Handed K id w) :=
        (runSlice_expected hh hk horderly hsustains.wired hsustains.accounts hg₁ hp
          fun hc => htakes hc hend hexec).mono fun p w₂ h => h.from hspares hsustains.grows
      dsimp only
      cases hs : g₁.status with
      | completed =>
        exact hrest (Instance.afterEnd b) (by cases b <;> simp [Instance.afterEnd]) (by simp [hs])
      | executing =>
        dsimp only
        split
        · rename_i hb
          exact hslice (by simp [hs]) fun _ => hb
        · exact hrest (.failed .generatorRunning) (by simp) (by simp [hs])
      | suspendedStart | suspendedYield => exact hslice (by simp [hs]) (by simp [hs])

end Resuming

/-- Whether the instances of a chain wait for the end of what they delegate to, as they expect to. -/
def World.Relies (K : Host) (outer : List InstanceId) (w : World) : Prop :=
  ∀ i ∈ outer, ∀ g, w.instances[i]? = some g → g.Checked → g.Waits K

section Chains

variable {K host : Host} {w₀ w w₁ w' : World} {id : InstanceId} {outer : List InstanceId}
  {others : List InstanceId} {a : Action} {p : Pause}

theorem World.Sustains.trans (h : w.Sustains K others w₁) (h' : w₁.Sustains K [] w') :
    w.Sustains K [] w' := ⟨h'.wired, h'.accounts, h.grows.trans h'.grows⟩

theorem World.Relies.spared (h : w.Relies K outer) (hid : id ∉ outer) (hs : w.Spares id w')
    (hruns : ∀ i ∈ outer, ∃ g : Instance, w.instances[i]? = some g ∧ g.status = .executing) :
    w'.Relies K outer := by
  intro i hi g' hg' hc
  obtain ⟨g, hg, he⟩ := hruns i hi
  have hne : id ≠ i := by
    rintro rfl
    exact hid hi
  obtain rfl : g = g' := Option.some.inj ((hs i g hne hg he).symm.trans hg')
  exact h i hi g hg hc

theorem Asked.runs (h : Asked w₀ id outer a w) :
    ∀ i ∈ outer, ∃ g : Instance, w.instances[i]? = some g ∧ g.status = .executing := by
  intro i hi
  unfold Asked at h
  split at h
  · exact h.runs i (List.mem_cons_of_mem _ hi)
  · exact h.runs i hi

/-- An instance of the chain itself refuses to be resumed. -/
theorem Asked.apart (h : Asked w₀ id outer a w) (hr : resumeOne host id a w = .done p w₁) :
    id ∉ outer ∨ p = .stop (.failed .generatorRunning) := by
  by_cases hid : id ∈ outer
  · obtain ⟨g, hg, he⟩ := h.runs id hid
    have hstatus : w.statusAt? id = some .executing := by rw [World.statusAt?, hg, Option.map_some, he]
    cases ha : a.endsDelegate with
    | true =>
      rw [Asked, if_pos ⟨ha, hstatus⟩] at h
      exact .inl (List.nodup_cons.1 h.nodup).1
    | false =>
      have hp : g.parked = none := by
        cases hp : g.parked with
        | none => rfl
        | some q => cases he.symm.trans (h.orderly.parked id g hg (by rw [hp]; rfl))
      rw [resumeOne_executing hg he hp ha] at hr
      cases hr
      exact .inr rfl
  · exact .inl hid

theorem markOuter_sustains (hc : Chained w₀ outer w) (hw : w.Wired w.asyncInstances)
    (ha : w.Accounts K []) {f : Instance → Instance} (hasync : ∀ g, (f g).isAsync = g.isAsync)
    (hf : ∀ i ∈ outer, ∀ g, w.instances[i]? = some g → (f g).Checked → (f g).Accounted K) :
    w.Sustains K [] (markOuter outer f w).2 := by
  obtain ⟨hworld, -⟩ := markOuter_world outer f w
  have hget (i : InstanceId) := markOuter_eq f hc.nodup (w := w) i
  have hsame : (markOuter outer f w).2.asyncInstances = w.asyncInstances := by
    ext i
    simp only [World.asyncInstances, Set.mem_ofPred_eq, hget]
    split
    · simp [hasync]
    · rfl
  refine ⟨?_, fun i g _ hg hcheck => ?_, hsame.ge⟩
  · rw [hsame, hworld]
    exact hw.congr rfl (fun _ => rfl) rfl
  · rw [hget] at hg
    split at hg
    · rename_i hi
      obtain ⟨g₀, hg₀, rfl⟩ := Option.map_eq_some_iff.1 hg
      exact hf i hi g₀ hg₀ hcheck
    · exact ha i g List.not_mem_nil hg hcheck

theorem suspend_sustains (hc : Chained w₀ outer w) (hw : w.Wired w.asyncInstances)
    (ha : w.Accounts K []) (hrelies : w.Relies K outer) :
    w.Sustains K [] (markOuter outer Instance.suspend w).2 := by
  refine markOuter_sustains hc hw ha (fun _ => rfl) fun i hi g hg hcheck => ⟨?_, fun _ => ?_⟩
  · rintro ⟨⟩
  · obtain ⟨harrived, hawaiting⟩ := hrelies i hi g hg hcheck
    exact ⟨harrived.mark .suspendedYield g.parked, hawaiting⟩

theorem abandon_sustains (hc : Chained w₀ outer w) (hw : w.Wired w.asyncInstances)
    (ha : w.Accounts K []) : w.Sustains K [] (markOuter outer Instance.abandon w).2 := by
  refine markOuter_sustains hc hw ha (fun _ => rfl) fun i hi g hg hcheck => ⟨?_, ?_⟩ <;>
    · rintro ⟨⟩

theorem park_sustains {promise : Value} (h : Handed K id w (.stop (.awaiting promise)) w₁)
    (hs : w₁.statusAt? id = some .suspendedYield) :
    w.Sustains K [] (park id promise w₁).2 ∧ w₁.Spares id (park id promise w₁).2 := by
  obtain ⟨-, hsustains, hawaits⟩ := h
  obtain ⟨g, hg, hstatus⟩ := Option.map_eq_some_iff.1 hs
  have hfound : Edit.instance? id w₁ = (some g, w₁) := congrArg (·, w₁) hg
  by_cases hp : (!g.isAsync && g.parked.isNone) = true
  · obtain ⟨⟨cell, w₂⟩, hcell⟩ : ∃ r, Edit.newCell w₁ = r := ⟨_, rfl⟩
    obtain ⟨w₃, hw₃⟩ : ∃ w₃, (Promise.await promise (.unpark cell) w₂).2 = w₃ := ⟨_, rfl⟩
    have hkeep := (await_keepsActivations promise (.unpark cell) w₂).1
    have hwired : w₃.Wired w₁.asyncInstances := by
      have hnew : w₂.Wired w₁.asyncInstances := by
        have h := newCell_safe.wired w₁ hsustains.wired
        rwa [hcell] at h
      have h := (await_safe promise (k := .unpark cell) trivial).wired w₂ hnew
      rwa [hw₃] at h
    rw [hw₃] at hkeep
    have hinst : w₃.instances = w₁.instances :=
      hkeep.trans (congrArg (·.2.instances) hcell).symm
    have hg₃ : w₃.instances[id]? = some g := by rw [hinst]; exact hg
    have hout : park id promise w₁ = ((), w₃.put id { g with parked := some ⟨promise, cell⟩ }) := by
      simp only [park, bind, StateT.bind, hfound, if_pos hp, hcell, ← hw₃]
      rfl
    rw [hout]
    have hput : (w₃.put id { g with parked := some ⟨promise, cell⟩ }).asyncInstances =
        w₃.asyncInstances := World.asyncInstances_put hg₃ rfl
    have hsame := hput.trans (World.asyncInstances_congr hinst)
    refine ⟨⟨hsame ▸ hwired.put, ?_, hsame ▸ hsustains.grows⟩,
      (World.Spares.of_instances hinst).trans .put⟩
    refine (hsustains.accounts.congr hinst).put hg₃ fun hc => ⟨fun hstart => ?_, fun _ => ?_⟩
    · cases hstatus.symm.trans hstart
    · obtain ⟨harrived, hawaiting⟩ := hawaits g hg hc
      exact ⟨harrived.mark g.status _, hawaiting⟩
  · have hout : park id promise w₁ = ((), w₁) := by
      simp only [park, bind, StateT.bind, hfound, if_neg hp]
      rfl
    rw [hout]
    refine ⟨⟨hsustains.wired, fun i g' _ hg' hc => ?_, hsustains.grows⟩, .of_instances rfl⟩
    by_cases hi : i = id
    · subst hi
      cases hg.symm.trans hg'
      obtain ⟨harrived, hawaiting⟩ := hawaits g hg hc
      have hparked : g.parked.isSome = true := by
        rw [hc.1] at hp
        simpa [Option.isSome_iff_ne_none] using hp
      refine ⟨fun hstart => ?_, fun _ => ⟨harrived, hawaiting.trans hparked.symm⟩⟩
      cases hstatus.symm.trans hstart
    · exact hsustains.accounts i g' (by simpa using hi) hg' hc

variable (hs : host.Steady) (hh : (expecting K ∅).Hosts host) (hk : host.Within K)

include hs hh hk

/-- A chain of instances is resumed with what each of them expects. -/
theorem resumeChain_expected (n : Nat) (hw : w.Wired w.asyncInstances) (hacc : w.Accounts K [])
    (ha : Asked w₀ id outer a w)
    (hcalled : ∀ g, w.instances[id]? = some g → g.Checked → g.Called K a) (hrelies : w.Relies K outer) :
    (resumeChain host n outer id a w).Yields fun _ w' => w.Sustains K [] w' := by
  induction n generalizing outer id a w with
  | zero => trivial
  | succ n ih =>
    have hpaused := resumeOne_yields hs ha
    have hhanded := resumeOne_expected hh hk ⟨ha.orderly, hw, hacc, Set.empty_subset _⟩ hcalled
    unfold resumeChain
    simp only [Bind.bind, RunOn.bind]
    cases hr : resumeOne host id a w with
    | exhausted => trivial
    | abrupt c w₁ =>
      rw [hr] at hpaused
      exact hpaused
    | done p w₁ =>
      rw [hr] at hpaused hhanded
      have hrelies₁ (hp : p ≠ .stop (.failed .generatorRunning)) : w₁.Relies K outer :=
        hrelies.spared ((ha.apart hr).resolve_right hp) hhanded.1 ha.runs
      have hends {next : InstanceId} {outer' : List InstanceId} {b : Action}
          (hp : p ≠ .stop (.failed .generatorRunning)) (hchained : Chained w₀ (next :: outer') w₁)
          (hsustains : w.Sustains K [] w₁) (hb : b.endsDelegate = true)
          (hout : outer = next :: outer') :
          (resumeChain host n outer' next b w₁).Yields fun _ w' => w.Sustains K [] w' := by
        subst hout
        refine (ih hsustains.wired hsustains.accounts (.of_waiting hchained hb) (fun g hg hc => ?_)
          fun i hi => hrelies₁ hp i (List.mem_cons_of_mem _ hi)).mono fun _ _ => hsustains.trans
        obtain ⟨g', hg', he⟩ := hchained.runs next List.mem_cons_self
        obtain rfl : g' = g := Option.some.inj (hg'.symm.trans hg)
        exact .inr ⟨hb, he, hrelies₁ hp next List.mem_cons_self g' hg hc⟩
      obtain ⟨hspares, hhanded⟩ := hhanded
      dsimp only
      cases p with
      | delegate inner b =>
        obtain ⟨hchained, -, hb⟩ := hpaused
        obtain ⟨hsustains, hcall, hwaits⟩ := hhanded
        exact (ih hsustains.wired hsustains.accounts (.of_call hchained hb) (fun _ _ _ => .inl hcall)
          (List.forall_mem_cons.2 ⟨hwaits, hrelies₁ (by simp)⟩)).mono fun _ _ => hsustains.trans
      | stop s =>
        cases s with
        | returned v =>
          cases outer with
          | nil => exact hhanded
          | cons next outer' => exact hends (by simp) hpaused.1 hhanded rfl rfl
        | threw v =>
          cases outer with
          | nil => exact hhanded
          | cons next outer' => exact hends (by simp) hpaused.1 hhanded rfl rfl
        | failed e =>
          exact hhanded.trans (abandon_sustains hpaused.1 hhanded.wired hhanded.accounts)
        | awaiting promise =>
          obtain ⟨hchained, hstatus⟩ := hpaused
          obtain ⟨hparks, hspares'⟩ := park_sustains ⟨hspares, hhanded⟩ hstatus
          have hrelies₂ := (hrelies₁ (by simp)).spared
            ((ha.apart hr).resolve_right (by simp)) hspares' hchained.runs
          have hchained₂ : Chained w₀ outer (park id promise w₁).2 :=
            (park_yields hchained hstatus promise).1
          refine .bind (P := fun _ w₂ => w₂ = (park id promise w₁).2) rfl ?_
          rintro - _ rfl
          exact hparks.trans (suspend_sustains hchained₂ hparks.wired hparks.accounts hrelies₂)
        | yielded v =>
          exact hhanded.trans
            (suspend_sustains hpaused.1 hhanded.wired hhanded.accounts (hrelies₁ (by simp)))

/-- What a resumption by a call leaves behind, or one of an asynchronous instance by a promise. -/
theorem resume_expected {own : Set InstanceId}
    (ha : a.isCall = true ∨ id ∈ own ∧ a.endsDelegate = false) :
    (expecting K own).Allows (resume host id a) := by
  intro w hw
  have hends : a.endsDelegate = false := ha.elim Action.endsDelegate_of_isCall And.right
  have hasked : Asked w id [] a w := .of_call (.of_orderly hw.orderly) hends
  have hcalled (g : Instance) (hg : w.instances[id]? = some g) (hc : g.Checked) : g.Called K a := by
    obtain hcall | ⟨hown, -⟩ := ha
    · exact .inl hcall
    · obtain ⟨g', hg', hasync⟩ := hw.owns hown
      cases hg.symm.trans hg'
      cases hc.1.symm.trans hasync
  have hkept := resume_yields hs hasked
  have hsustains := resumeChain_expected hs hh hk host.fuel hw.wired hw.accounts hasked hcalled
    (by simp [World.Relies])
  show (resumeChain host host.fuel [] id a w).Leaves _
  unfold resume at hkept
  cases hr : resumeChain host host.fuel [] id a w with
  | done s w' =>
    rw [hr] at hkept hsustains
    exact ⟨hkept.1, hsustains, hw.owns⟩
  | abrupt c w' =>
    rw [hr] at hkept
    exact hkept.elim
  | exhausted => trivial

end Chains

end Resumable
