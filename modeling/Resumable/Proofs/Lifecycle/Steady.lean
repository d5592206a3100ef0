import Resumable.Proofs.Eval.Completions
import Resumable.Proofs.Machine.Conduct

/-!
What script code does to the instances around it: those that execute stay as they are, and none other
is left executing. Main statement: `slice_yields`.
-/

set_option autoImplicit false

namespace Resumable

/-- Whether only suspended instances wait for promises, and asynchronous generators are asked only for
what a caller can ask. -/
structure World.Orderly (w : World) : Prop where
  parked : ∀ (id : InstanceId) (g : Instance), w.instances[id]? = some g → g.parked.isSome = true →
    g.status = .suspendedYield
  requests : ∀ (id : AsyncGeneratorId) (a : AsyncGenerator), w.asyncGenerators[id]? = some a →
    ∀ r ∈ a.queue, r.action.endsDelegate = false

/-- Whether the same instances execute in both worlds, and are the same. -/
structure Kept (w w' : World) : Prop where
  orderly : w'.Orderly
  stays : ∀ (id : InstanceId) (g : Instance), w.instances[id]? = some g → g.status = .executing →
    w'.instances[id]? = some g
  back : ∀ (id : InstanceId) (g : Instance), w'.instances[id]? = some g → g.status = .executing →
    w.instances[id]? = some g

namespace Kept

variable {w w₁ w₂ : World}

theorem of_keeps (h : w.Orderly) (hw : w₁.instances = w.instances)
    (ha : w₁.asyncGenerators = w.asyncGenerators) : Kept w w₁ := by
  refine ⟨⟨?_, ?_⟩, ?_, ?_⟩
  · rw [hw]
    exact h.parked
  · rw [ha]
    exact h.requests
  · rw [hw]
    exact fun id g hg _ => hg
  · rw [hw]
    exact fun id g hg _ => hg

theorem refl (h : w.Orderly) : Kept w w := of_keeps h rfl rfl

theorem trans (h : Kept w w₁) (h' : Kept w₁ w₂) : Kept w w₂ :=
  ⟨h'.orderly, fun id g hg he => h'.stays id g (h.stays id g hg he) he,
    fun id g hg he => h.back id g (h'.back id g hg he) he⟩

end Kept

def orderly : Conduct where
  State := World
  world w := w
  Good := World.Orderly
  Leads := Kept
  Leaves := Kept
  leaves_iff := ⟨fun h => ⟨_, h, rfl⟩, by rintro ⟨_, h, rfl⟩; exact h⟩
  good h := h.orderly
  refl := .refl
  trans := .trans
  calm hw h := ⟨_, .of_keeps hw h.instances h.asyncGenerators, rfl⟩

/-- Whether a run leaves the executing instances as they are, and no others executing. -/
def RunOn.Steady {α : Type} (x : Run α) : Prop := ∀ w : World, w.Orderly → (x w).Leaves (Kept w)

namespace RunOn.Steady

variable {α β : Type} {x : Run α}

theorem pure (a : α) : (Pure.pure a : Run α).Steady := Conduct.Allows.pure (C := orderly) a

theorem exhausted : (Run.exhausted : Run α).Steady := Conduct.Allows.exhausted (C := orderly)

theorem abrupt (c : Abrupt) : (Run.abrupt c : Run α).Steady := Conduct.Allows.abrupt (C := orderly) c

theorem read (view : World → α) : (Run.read view : Run α).Steady :=
  Conduct.Allows.read (C := orderly) view

theorem edit {x : Edit α} (hx : x.KeepsActivations) : (Run.edit x : Run α).Steady :=
  fun w h => .of_keeps h (hx w).1 (hx w).2

theorem bind {f : α → Run β} (hx : x.Steady) (hf : ∀ a, (f a).Steady) : (x >>= f).Steady :=
  Conduct.Allows.bind (C := orderly) hx hf

theorem attempt (hx : x.Steady) : x.attempt.Steady := Conduct.Allows.attempt (C := orderly) hx

theorem throwNew (kind : ErrorKind) (message : String) :
    (Run.throwNew kind message : Run α).Steady :=
  Conduct.Allows.throwNew (C := orderly) kind message

end RunOn.Steady

def steady : RunRelation World World := orderly.relation

/-- Whether the calls of a host are steady, and its suspend expressions are errors. -/
structure Host.Steady (host : Host) : Prop where
  call : ∀ f receiver args, (host.call f receiver args).Steady
  suspend : host.suspend = refuseSuspend

namespace Host.Steady

variable {host : Host}

theorem hosts (h : host.Steady) : orderly.Hosts host := ⟨h.call, h.suspend⟩

theorem related (h : host.Steady) : HostRelated steady.toEvalRelation host host := h.hosts.related

theorem suspends (h : host.Steady) : SuspendsRelated steady.toEvalRelation host host :=
  h.hosts.suspends

end Host.Steady

def unparked : orderly.Fitness where
  fit _ _ p _ _ := p = none
  rests := False
  stable _ h := h
  ended h := h
  received _ h := h
  started _ h := h

/-- A slice of an instance that waits for no promise. -/
theorem slice_yields {host : Host} (hh : host.Steady) {w : World} (hw : w.Orderly) (n : Nat)
    {g : Instance} (hg : g.parked = none) (a : Action) :
    (g.slice host n a w).Yields fun r w' => Kept w w' ∧ Turn.Fits unparked (.pause r.1 r.2) w' := by
  have hgives := slice_gives hh.hosts (F := unparked) n hw hg nofun a
  refine Outcome.Yields.mono hgives fun r w' => ?_
  rintro ⟨t, ht, rfl, hr⟩
  exact ⟨ht, hr⟩

end Resumable
