import Resumable.Proofs.Lifecycle.Chains
import Resumable.Proofs.Lifecycle.Fuel
import Resumable.Proofs.Machine.Cursor
import Resumable.Proofs.Polling.Alike

/-!
Where synchronous instances stand that get only what they expect, and how a world changes in which they
do. Main statement: `Instance.Takes.slice`: an instance that takes what it is resumed with keeps to such
runs.
-/

set_option autoImplicit false

namespace Resumable

section Slices

variable {host K : Host} {first g g' : Instance} {p : Pause} {a : Action} {w w' : World} {n : Nat}

/-- A host that goes further dispatches in the same way. -/
theorem WaitedFor.runOn {t : Turn} (hk : host.Within K) (h : WaitedFor K first t)
    (he : Instance.runOn host n t w = .done (g', p) w') : WaitedFor K first (.pause g' p) := by
  refine runOn_keeps (P := fun t _ => WaitedFor K first t) (fun {g i t w w'} ht hi hd => ?_) h he
  have hd : g.dispatch K i w = .done t w' :=
    ((dispatch_related hk.suits g i).eq_of_ne (by simp [hd])).trans hd
  exact ht.dispatch hi hd

/-- Whether an instance has got where it stands by a run in which each resumption was expected. -/
def Instance.Arrived (K : Host) (g : Instance) : Prop :=
  ∃ base g₀ p, WaitedFor K (.running g.plan base false) (.pause g₀ p) ∧ p.isFinal = false ∧
    ∃ status parked, g = { g₀ with status, parked }

/-- Whether a synchronous instance can be resumed with an action: it is to be started, or it stands
where such a run has led and expects the action. -/
def Instance.Takes (K : Host) (g : Instance) (a : Action) : Prop :=
  ∃ base, if g.status = .suspendedStart then g = .start g.plan base false else
    ∃ g₀ p, WaitedFor K (.running g.plan base false) (.pause g₀ p) ∧ p.isFinal = false ∧
      g₀.MayBecome g ∧ g.delegation = g₀.delegation ∧ g.Expects a

theorem Instance.Takes.slice (hk : host.Within K) (h : g.Takes K a)
    (he : g.slice host n a w = .done (g', p) w') :
    ∃ base, WaitedFor K (.running g.plan base false) (.pause g' p) := by
  obtain ⟨base, h⟩ := h
  refine ⟨base, ?_⟩
  split at h
  · rw [h] at he
    exact WaitedFor.runOn hk (.start a) he
  · rename_i hstatus
    obtain ⟨g₀, q, hw, hq, hb, hd, ha⟩ := h
    obtain ⟨t, w₁, hr, he⟩ := slice_resumes hstatus he
    have hb : g₀.MayBecome { g with status := .executing } :=
      ⟨hb.plan_eq, hb.ip_eq, hb.scopes_eq, hb.frames_eq, hb.loops_eq, hb.awaiting_eq⟩
    have hr : Instance.resumed K { g with status := .executing } a w = .done t w₁ :=
      ((resumed_related hk.suits _ a).eq_of_ne (by simp [hr])).trans hr
    exact (hw.resume hq hb hd ha hr).runOn hk he

/-- Whether an instance stands where expected resumptions have led, and waits for a promise if it awaits
something. -/
def Instance.Waits (K : Host) (g : Instance) : Prop :=
  g.Arrived K ∧ g.awaiting.isSome = g.parked.isSome

theorem Instance.Arrived.mark (h : g.Arrived K) (status : Status) (parked : Option Parked) :
    Instance.Arrived K { g with status, parked } := by
  obtain ⟨base, g₀, p, hw, hp, _, _, rfl⟩ := h
  exact ⟨base, g₀, p, hw, hp, status, parked, rfl⟩

theorem Instance.Arrived.takes (h : g.Arrived K) (hs : g.status ≠ .suspendedStart)
    (ha : g.Expects a) : g.Takes K a := by
  obtain ⟨base, g₀, p, hw, hp, _, _, rfl⟩ := h
  refine ⟨base, ?_⟩
  rw [if_neg hs]
  exact ⟨g₀, p, hw, hp, ⟨rfl, rfl, rfl, rfl, rfl, .inl rfl⟩, rfl, ha⟩

/-- So does one that is told to wait no longer. -/
theorem Instance.Arrived.takes_freed (h : g.Arrived K) (hs : g.status ≠ .suspendedStart)
    (ha : Instance.Expects { g with parked := none, awaiting := none } a) :
    Instance.Takes K { g with parked := none, awaiting := none } a := by
  obtain ⟨base, g₀, p, hw, hp, _, _, rfl⟩ := h
  refine ⟨base, ?_⟩
  rw [if_neg hs]
  exact ⟨g₀, p, hw, hp, ⟨rfl, rfl, rfl, rfl, rfl, .inr rfl⟩, rfl, ha⟩

/-- An instance that waits for no promise expects calls, and the end of a delegation. -/
theorem Instance.Waits.expects (hplan : g.plan.Closed) (h : g.Waits K) (hp : g.parked = none)
    (ha : a.isCall = true ∨ a.endsDelegate = true) : g.Expects a := by
  obtain ⟨⟨base, g₀, q, hw, hfinal, _, _, rfl⟩, hawaiting⟩ := h
  have hnone : g₀.awaiting = none := by
    rw [hp] at hawaiting
    exact Option.not_isSome_iff_eq_none.1 (Bool.eq_false_iff.1 hawaiting)
  have hstore : g₀.CanStore := (hw.poised hplan hfinal).1.storing (by rw [hnone]; rfl)
  have hmove : ¬ g₀.AtMove := fun hm => hm.not_canStore hstore
  cases a with
  | next | delegateDone => exact hmove
  | throw | ret | delegateThrew => trivial
  | settled => simp [Action.isCall, Action.endsDelegate] at ha

end Slices

/-- Whether an instance is synchronous and its plan passes the check. -/
def Instance.Checked (g : Instance) : Prop := g.isAsync = false ∧ g.plan.Closed

/-- How an instance stands that does not run. -/
structure Instance.Accounted (K : Host) (g : Instance) : Prop where
  fresh : g.status = .suspendedStart → ∃ base, g = .start g.plan base false
  rests : g.status = .suspendedYield → g.Waits K

namespace World

def asyncInstances (w : World) : Set InstanceId :=
  { i | ∃ g, w.instances[i]? = some g ∧ g.isAsync = true }

/-- Whether the instances of a world, but for some, stand where expected resumptions have led. -/
def Accounts (K : Host) (others : List InstanceId) (w : World) : Prop :=
  ∀ i g, i ∉ others → w.instances[i]? = some g → g.Checked → g.Accounted K

/-- Whether that holds after a run, and promises resume asynchronous instances only. -/
structure Sustains (K : Host) (others : List InstanceId) (w w' : World) : Prop where
  wired : w'.Wired w'.asyncInstances
  accounts : w'.Accounts K others
  grows : w.asyncInstances ⊆ w'.asyncInstances

/-- Whether all instances that execute, but for one, stay as they are. -/
def Spares (id : InstanceId) (w w' : World) : Prop :=
  ∀ i g, id ≠ i → w.instances[i]? = some g → g.status = .executing → w'.instances[i]? = some g

section Changes

variable {K : Host} {w w' w'' : World} {id : InstanceId} {g g₀ : Instance} {others : List InstanceId}

theorem Spares.of_instances (h : w'.instances = w.instances) : w.Spares id w' :=
  fun _ _ _ hg _ => h ▸ hg

theorem Spares.trans (h : w.Spares id w') (h' : w'.Spares id w'') : w.Spares id w'' :=
  fun i g hi hg he => h' i g hi (h i g hi hg he) he

theorem Spares.put : w.Spares id (w.put id g) := fun _ _ hi hg _ => (put_other hi).trans hg

theorem asyncInstances_congr (h : w'.instances = w.instances) :
    w'.asyncInstances = w.asyncInstances := by
  rw [asyncInstances, asyncInstances, h]

theorem asyncInstances_put (hg₀ : w.instances[id]? = some g₀) (ha : g.isAsync = g₀.isAsync) :
    (w.put id g).asyncInstances = w.asyncInstances := by
  ext i
  by_cases hi : id = i
  · subst hi
    simp only [asyncInstances, Set.mem_ofPred_eq, put_self hg₀, hg₀, Option.some.injEq,
      exists_eq_left', ha]
  · simp only [asyncInstances, Set.mem_ofPred_eq, put_other hi]

theorem Accounts.congr (h : w.Accounts K others) (hw : w'.instances = w.instances) :
    w'.Accounts K others := fun i g hi hg => h i g hi (hw ▸ hg)

theorem Accounts.but (h : w.Accounts K []) : w.Accounts K others :=
  fun i g _ hg => h i g List.not_mem_nil hg

theorem Accounts.put_but (h : w.Accounts K [id]) : (w.put id g).Accounts K [id] := by
  intro i g' hi hg'
  have hne : id ≠ i := fun heq => hi (by simp [heq])
  rw [put_other hne] at hg'
  exact h i g' hi hg'

theorem Accounts.put (h : w.Accounts K [id]) (hg₀ : w.instances[id]? = some g₀)
    (hg : g.Checked → g.Accounted K) : (w.put id g).Accounts K [] := by
  intro i g' _ hg' hc
  by_cases hi : id = i
  · subst hi
    cases (put_self hg₀).symm.trans hg'
    exact hg hc
  · rw [put_other hi] at hg'
    exact h i g' (by simpa using Ne.symm hi) hg' hc

theorem Wired.put {F : Set InstanceId} (h : w.Wired F) : (w.put id g).Wired F :=
  h.congr rfl (fun _ => rfl) rfl

end Changes

end World

/-- Whether all instances of a world can get what they expect, and some of them are asynchronous. -/
structure World.Prepared (K : Host) (own : Set InstanceId) (w : World) : Prop where
  orderly : w.Orderly
  wired : w.Wired w.asyncInstances
  accounts : w.Accounts K []
  owns : own ⊆ w.asyncInstances

/-- Conduct under which all that is resumed gets what it expects. -/
def expecting (K : Host) (own : Set InstanceId) : Conduct where
  State := World
  world w := w
  Good := World.Prepared K own
  Leads w w' := Kept w w' ∧ w.Sustains K [] w' ∧ own ⊆ w.asyncInstances
  Leaves w w' := Kept w w' ∧ w.Sustains K [] w' ∧ own ⊆ w.asyncInstances
  leaves_iff := ⟨fun h => ⟨_, h, rfl⟩, by rintro ⟨_, h, rfl⟩; exact h⟩
  good h := ⟨h.1.orderly, h.2.1.wired, h.2.1.accounts, h.2.2.trans h.2.1.grows⟩
  refl h := ⟨.refl h.orderly, ⟨h.wired, h.accounts, subset_rfl⟩, h.owns⟩
  trans h h' :=
    ⟨h.1.trans h'.1, ⟨h'.2.1.wired, h'.2.1.accounts, h.2.1.grows.trans h'.2.1.grows⟩, h.2.2⟩
  calm hw h := by
    have hasync := World.asyncInstances_congr h.instances
    refine ⟨_, ⟨.of_keeps hw.orderly h.instances h.asyncGenerators,
      ⟨?_, hw.accounts.congr h.instances, hasync.ge⟩, hw.owns⟩, rfl⟩
    rw [hasync]
    exact hw.wired.congr h.asyncGenerators (fun _ => h.heap.promise?_eq) h.jobs

/-- An instance that runs keeps its plan and its kind, and waits for no promise. -/
def sustained (K : Host) (own : Set InstanceId) (plan : Plan) (isAsync : Bool) :
    (expecting K own).Fitness where
  fit _ l p b _ := l = plan ∧ p = none ∧ b = isAsync
  rests := False
  stable _ h := h
  ended h := h
  received _ h := h
  started _ h := h

end Resumable
