import Resumable.Proofs.Lifecycle.Chains
import Resumable.Proofs.Promises.Reached

/-!
Runs as sequences of steps. A run is tracked if it goes by steps from every configuration that is
reached, and the rights in use stay in use; the edits that promises are made of use up or hand over
rights besides. Main statements: `resolve_moves`, `await_moves`.
-/

set_option autoImplicit false

namespace Resumable

/-- Steps that keep certain rights in use; if they are quiet, nothing happens to requests. -/
def moving (H : Multiset Right) (quiet : Bool) : Conduct where
  State := Config
  world := Config.world
  Good c := c.Reached ∧ H ≤ c.held
  Leads c c' := (c.Reached ∧ H ≤ c.held) ∧ Retains H c c' ∧ (quiet = true → c.log.SameRequests c'.log)
  Leaves c w := ∃ c', ((c.Reached ∧ H ≤ c.held) ∧ Retains H c c' ∧
    (quiet = true → c.log.SameRequests c'.log)) ∧ c'.world = w
  leaves_iff := Iff.rfl
  good h := ⟨h.1.1.steps h.2.1.steps, h.2.1.le h.1.2⟩
  refl h := ⟨h, .refl, fun _ => .refl⟩
  trans h h' := ⟨h.1, h.2.1.trans h'.2.1, fun hq => (h.2.2 hq).trans (h'.2.2 hq)⟩
  calm h hw := ⟨⟨_, _, _⟩, ⟨h, .single (.calm hw) h.2, fun _ => .refl⟩, rfl⟩

/-- Steps that keep all rights in use, and bring no others. -/
def tracking : Conduct where
  State := Config
  world := Config.world
  Good := Config.Reached
  Leads c c' := c.Reached ∧ Retains c.held c c' ∧ c'.held = c.held
  Leaves c w := ∃ c', (c.Reached ∧ Retains c.held c c' ∧ c'.held = c.held) ∧ c'.world = w
  leaves_iff := Iff.rfl
  good h := h.1.steps h.2.1.steps
  refl h := ⟨h, .refl, rfl⟩
  trans h h' := ⟨h.1, h.2.1.trans (h.2.2 ▸ h'.2.1), h'.2.2.trans h.2.2⟩
  calm h hw := ⟨⟨_, _, _⟩, ⟨h, .single (.calm hw) (le_refl _), rfl⟩, rfl⟩

/-- Steps and jobs, after which the same rights are in use. -/
def running : Conduct where
  State := Config
  world := Config.world
  Good := Config.Reached
  Leads c c' := c.Reached ∧ Later c c' ∧ c'.held = c.held
  Leaves c w := ∃ c', (c.Reached ∧ Later c c' ∧ c'.held = c.held) ∧ c'.world = w
  leaves_iff := Iff.rfl
  good h := Relation.ReflTransGen.trans h.1 h.2.1
  refl h := ⟨h, .refl, rfl⟩
  trans h h' := ⟨h.1, h.2.1.trans h'.2.1, h'.2.2.trans h.2.2⟩
  calm h hw := ⟨⟨_, _, _⟩, ⟨h, .single (.inl (.calm hw)), rfl⟩, rfl⟩

section Conducts

variable {α : Type} {c : Config} {H : Multiset Right} {quiet : Bool} {x : Run α}
  {P : α → Config → Prop}

theorem tracking_gives_iff : tracking.Gives c x P ↔
    (moving c.held false).Gives c x fun a c' => c'.held = c.held ∧ P a c' := by
  constructor
  · intro h
    refine Outcome.Yields.mono h fun a w => ?_
    rintro ⟨c', ⟨hc, hkeeps, hheld⟩, hw, ha⟩
    exact ⟨c', ⟨⟨hc, le_refl _⟩, hkeeps, nofun⟩, hw, hheld, ha⟩
  · intro h
    refine Outcome.Yields.mono h fun a w => ?_
    rintro ⟨c', ⟨hc, hkeeps, -⟩, hw, hheld, ha⟩
    exact ⟨c', ⟨hc.1, hkeeps, hheld⟩, hw, ha⟩

theorem moves_kept (h : tracking.Gives c x P) : (moving c.held false).Gives c x fun a c' =>
    c'.held = c.held ∧ P a c' ∧ Retains c.held c c' := by
  refine Outcome.Yields.mono h fun a w => ?_
  rintro ⟨c', ⟨hc, hkeeps, hheld⟩, hw, ha⟩
  exact ⟨c', ⟨⟨hc, le_refl _⟩, hkeeps, nofun⟩, hw, hheld, ha, hkeeps⟩

theorem leaves_of_moves (h : (moving c.held false).Gives c x fun _ c' => c'.held = c.held) :
    (x c.world).Leaves (tracking.Leaves c) := by
  refine Outcome.Yields.leaves h fun _ w => ?_
  rintro ⟨c', ⟨hc, hkeeps, -⟩, hw, hheld⟩
  exact ⟨c', ⟨hc.1, hkeeps, hheld⟩, hw⟩

theorem allows_of_moves
    (h : ∀ c : Config, c.Reached → (moving c.held false).Gives c x fun _ c' => c'.held = c.held) :
    tracking.Allows x := fun c hc => leaves_of_moves (h c hc)

theorem reached_of_moves {c' : Config} (h : (moving H quiet).Leads c c') : c'.Reached :=
  ((moving H quiet).good h).1

theorem moves_mono {H' : Multiset Right} (h : (moving H quiet).Gives c x P) (hH : H' ≤ H) :
    (moving H' quiet).Gives c x P := by
  refine Outcome.Yields.mono h fun a w => ?_
  rintro ⟨c', ⟨hc, hkeeps, hq⟩, hw, ha⟩
  exact ⟨c', ⟨⟨hc.1, hH.trans hc.2⟩, hkeeps.mono hH, hq⟩, hw, ha⟩

theorem moves_of_quiet (h : (moving H true).Gives c x P) :
    (moving H false).Gives c x fun a c' => P a c' ∧ c.log.SameRequests c'.log := by
  refine Outcome.Yields.mono h fun a w => ?_
  rintro ⟨c', ⟨hc, hkeeps, hq⟩, hw, ha⟩
  exact ⟨c', ⟨hc, hkeeps, nofun⟩, hw, ha, hq rfl⟩

theorem moves_step {x : Edit α} {d : Config} (hc : c.Reached) (hH : H ≤ c.held) (h : Step c d)
    (hH' : H ≤ d.held) (hq : quiet = true → c.log.SameRequests d.log)
    (hw : d.world = (x c.world).2) (hP : P (x c.world).1 d) :
    (moving H quiet).Gives c (Run.edit x) P :=
  ⟨d, ⟨⟨hc, hH⟩, .single h hH', hq⟩, hw, hP⟩

theorem moves_after {c' : Config} {y : Run α} (hc : c.Reached) (hH : H ≤ c.held) (h : Step c c')
    (hH' : H ≤ c'.held) (hy : y c.world = x c'.world) (hx : (moving H false).Gives c' x P) :
    (moving H false).Gives c y P := by
  unfold Conduct.Gives at hx ⊢
  rw [show y ((moving H false).world c) = x ((moving H false).world c') from hy]
  refine hx.mono fun a w => ?_
  rintro ⟨c₁, h₁, hw₁, ha⟩
  exact ⟨c₁, ⟨⟨hc, hH⟩, .head ⟨h, hH'⟩ h₁.2.1, nofun⟩, hw₁, ha⟩

theorem moves_calm {x : Edit α} (hc : c.Reached) (hH : H ≤ c.held) (hx : x.IsCalm)
    (hP : ∀ a (w : World), P a { c with world := w }) : (moving H quiet).Gives c (Run.edit x) P :=
  moves_step (d := { c with world := (x c.world).2 }) hc hH (.calm (hx c.world)) hH
    (fun _ => .refl) rfl (hP _ _)

theorem calm_gives {x : Edit α} (hc : c.Reached) (hx : x.IsCalm) :
    tracking.Gives c (Run.edit x) fun a c' => a = (x c.world).1 ∧
      c' = ⟨(x c.world).2, c.held, c.log⟩ :=
  ⟨_, ⟨hc, .single (.calm (hx c.world)) (le_refl _), rfl⟩, rfl, rfl, rfl⟩

theorem keeps_moves {x : Edit α} (h : (moving H quiet).Gives c (Run.edit x) P) (hx : x.KeepsActivations) :
    (moving H quiet).Gives c (Run.edit x) fun a c' => P a c' ∧ c'.world.instances = c.world.instances ∧
      c'.world.asyncGenerators = c.world.asyncGenerators :=
  h.and (R := fun _ w => w.instances = c.world.instances ∧
    w.asyncGenerators = c.world.asyncGenerators) (hx c.world)

theorem look_moves {x : Edit α} {a : α} (hc : c.Reached) (hH : H ≤ c.held)
    (hx : x c.world = (a, c.world)) :
    (moving H quiet).Gives c (Run.edit x) fun a' c' => a' = a ∧ c = c' :=
  ⟨c, (moving H quiet).refl ⟨hc, hH⟩, (congrArg Prod.snd hx).symm, congrArg Prod.fst hx, rfl⟩

end Conducts

section Promises

variable {c : Config} {H : Multiset Right} {quiet : Bool} {p : ObjectId}

theorem Config.mem_rights {R : Right} (h : R ∈ c.held) : R ∈ c.rights :=
  Multiset.mem_add.2 (.inl h)

theorem le_of_held_cons {R : Right} (hH : c.held = R ::ₘ H) : H ≤ c.held :=
  hH ▸ Multiset.le_cons_self _ _

theorem mem_of_held_cons {R : Right} (hH : c.held = R ::ₘ H) : R ∈ c.held :=
  hH ▸ Multiset.mem_cons_self _ _

/-- Whoever may settle a promise finds it pending. -/
theorem Config.Reached.pending (hc : c.Reached) (hH : c.held = .settle p ::ₘ H) :
    ∃ rs, c.world.heap.promise? (.obj p) = some (.pending rs) :=
  hc.valid.standing.settle p (Config.mem_rights (mem_of_held_cons hH))

theorem settle_moves (s : Settlement) (hc : c.Reached) (hH : c.held = .settle p ::ₘ H) :
    (moving H quiet).Gives c (Run.edit (Promise.settle p s)) fun _ c' => c'.held = H := by
  obtain ⟨rs, hrs⟩ := hc.pending hH
  have hle := le_of_held_cons hH
  obtain ⟨w, held, L⟩ := c
  obtain rfl : held = _ := hH
  exact moves_step hc hle (.settle s hrs) (le_refl H) (fun _ => ⟨rfl, rfl, rfl, rfl⟩) rfl rfl

theorem newPromise_moves (hc : c.Reached) :
    (moving c.held quiet).Gives c (Run.edit Edit.newPromise) fun p c' =>
      c'.held = .settle p ::ₘ c.held :=
  moves_step hc (le_refl _) .newPromise (Multiset.le_cons_self _ _) (fun _ => .refl) rfl rfl

theorem newResolvers_moves (hc : c.Reached) (hH : c.held = .settle p ::ₘ H) :
    (moving H quiet).Gives c (Run.edit (Promise.newResolvers p)) fun _ c' => c'.held = H := by
  have hle := le_of_held_cons hH
  obtain ⟨w, held, L⟩ := c
  obtain rfl : held = _ := hH
  exact moves_step hc hle (.newResolvers p) (le_refl H) (fun _ => ⟨rfl, rfl, rfl, rfl⟩) rfl rfl

/-- To resolve a promise uses the right to settle it, or leaves that to a new pair of functions. -/
theorem resolve_moves (v : Value) (hc : c.Reached) (hH : c.held = .settle p ::ₘ H) :
    (moving H quiet).Gives c (Run.edit (Promise.resolve p v)) fun _ c' => c'.held = H := by
  have hle := le_of_held_cons hH
  unfold Promise.resolve
  split
  · refine .edit_bind (P := fun _ (c' : Config) => c'.held = c.held)
      (moves_calm hc hle (newError_calm _ _) fun _ _ => rfl) fun e c₁ h₁ hheld => ?_
    exact settle_moves _ (reached_of_moves h₁) (hheld.trans hH)
  · refine .edit_bind (look_moves (a := c.world.heap) hc hle rfl) ?_
    rintro _ _ - ⟨rfl, rfl⟩
    split
    · refine .edit_bind (newResolvers_moves hc hH) fun r c₁ h₁ hheld => ?_
      exact moves_step (reached_of_moves h₁) hheld.ge (.adopt _ _ _ _) hheld.ge
        (fun _ => ⟨rfl, rfl, rfl, rfl⟩) rfl hheld
    · exact settle_moves _ hc hH

theorem addReaction_moves {r : Reaction} {state : PromiseState} (hc : c.Reached)
    (hH : c.held = r.rights + H) (hp : c.world.heap.promise? (.obj p) = some state)
    (hhalts : ∀ id, .serving id ∈ r.rights → c.world.Halts id) :
    (moving H quiet).Gives c (Run.edit (Promise.addReaction p r)) fun _ c' => c'.held = H := by
  have hle : H ≤ c.held := hH ▸ Multiset.le_add_left _ _
  obtain ⟨w, held, L⟩ := c
  obtain rfl : held = _ := hH
  exact moves_step hc hle (.register r hp hhalts) (le_refl H) (fun _ => ⟨rfl, rfl, rfl, rfl⟩) rfl rfl

theorem ofValue_moves (v : Value) (hc : c.Reached) :
    (moving c.held quiet).Gives c (Run.edit (Promise.ofValue v)) fun p c' => c'.held = c.held ∧
      ∃ state, c'.world.heap.promise? (.obj p) = some state := by
  have hnew : (moving c.held quiet).Gives c (Run.edit (do
      let promise ← Edit.newPromise
      Promise.resolve promise v
      return promise)) fun p c' => c'.held = c.held ∧
        ∃ state, c'.world.heap.promise? (.obj p) = some state := by
    refine .edit_bind (newPromise_moves hc) fun p c₁ h₁ hheld => ?_
    have hc₁ := reached_of_moves h₁
    obtain ⟨rs, hrs⟩ := hc₁.pending hheld
    refine .edit_bind (resolve_moves v hc₁ hheld) fun _ c₂ h₂ hheld₂ => ?_
    refine .pure ((moving _ _).good h₂) ⟨hheld₂, ?_⟩
    obtain ⟨state, hstate, -⟩ := h₂.2.1.later.onward.promises p _ hrs
    exact ⟨state, hstate⟩
  refine .edit_bind (look_moves (a := c.world.heap) hc (le_refl _) rfl) ?_
  rintro _ _ - ⟨rfl, rfl⟩
  split
  · rename_i p hobject hpromise
    refine .pure ⟨hc, le_refl _⟩ ⟨rfl, ?_⟩
    cases v with
    | obj q =>
      cases hobject
      exact Option.isSome_iff_exists.1 hpromise
    | _ => cases hobject
  · exact hnew

theorem World.Halts.congr {w w' : World} {id : AsyncGeneratorId} (h : w.Halts id)
    (hinst : w'.instances = w.instances) (hgens : w'.asyncGenerators = w.asyncGenerators) :
    w'.Halts id := by
  intro a g ha hg
  rw [hgens] at ha
  rw [hinst] at hg
  exact h a g ha hg

theorem await_moves {k : Continuation} (v : Value) (hc : c.Reached) (hH : c.held = k.rights + H)
    (hhalts : ∀ id, .serving id ∈ k.rights → c.world.Halts id) :
    (moving H quiet).Gives c (Run.edit (Promise.await v k)) fun _ c' => c'.held = H := by
  have hle : H ≤ c.held := hH ▸ Multiset.le_add_left _ _
  refine .edit_bind (keeps_moves (moves_mono (ofValue_moves v hc) hle) (ofValue_keepsActivations v))
    fun p c₁ h₁ hp => ?_
  obtain ⟨⟨hheld, state, hstate⟩, hinst, hgens⟩ := hp
  refine addReaction_moves (r := .resume k) (reached_of_moves h₁) (hheld.trans hH) hstate
    fun id hid => ?_
  exact (hhalts id hid).congr hinst hgens

theorem derive_moves {state : PromiseState} (onFulfilled onRejected : Value) (hc : c.Reached)
    (hp : c.world.heap.promise? (.obj p) = some state) :
    (moving c.held quiet).Gives c (Run.edit (Promise.derive p onFulfilled onRejected)) fun _ c' =>
      c'.held = c.held := by
  refine .edit_bind (newPromise_moves hc) fun q c₁ h₁ hheld => ?_
  refine .edit_bind (newResolvers_moves (reached_of_moves h₁) hheld) fun r c₂ h₂ hheld₂ => ?_
  obtain ⟨state₂, hp₂, -⟩ := (h₁.2.1.trans h₂.2.1).later.onward.promises p state hp
  have hc₂ := reached_of_moves h₂
  refine .edit_bind (look_moves (a := c₂.world.heap) hc₂ hheld₂.ge rfl) ?_
  rintro _ _ - ⟨rfl, rfl⟩
  refine .edit_bind (P := fun _ (c' : Config) => c'.held = c.held) ?_ fun _ c₃ h₃ hheld₃ =>
    .pure ((moving _ _).good h₃) hheld₃
  exact addReaction_moves hc₂ (hheld₂.trans (zero_add _).symm) hp₂ nofun

end Promises

end Resumable
