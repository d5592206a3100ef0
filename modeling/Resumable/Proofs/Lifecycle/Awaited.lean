import Mathlib
import Resumable.Proofs.Lifecycle.Programs
import Resumable.Proofs.Machine.Handover

/-!
What synchronous generators hand out to wait for. Main statement: `sync_awaits_promises`: it is like a
promise, unless it is what the iterator of a `for await` loop has answered, which may be anything.
-/

set_option autoImplicit false

namespace Resumable

section Resumptions

variable {host : Host} {w w' : World} {id : InstanceId} {g : Instance} {v : Value}

/-- Whether an instance still waits for a promise, or else stands in the world, free to go on in the
same plan. -/
def Instance.Freed (g : Instance) (id : InstanceId) : Except Value (Instance × Action) → World → Prop
  | .error promise, _ => ∃ cell, g.parked = some ⟨promise, cell⟩
  | .ok (g', _), w => w.Orderly ∧ w.instances[id]? = some g' ∧ g'.plan = g.plan ∧ g'.parked = none

theorem unpark_freed (hw : w.Orderly) (hg : w.instances[id]? = some g) (a : Action) :
    Outcome.Yields (g.Freed id) ((Run.edit (unpark id g a) : Run _) w) := by
  cases hp : g.parked with
  | none =>
    simp only [unpark, hp]
    exact ⟨hw, hg, rfl, hp⟩
  | some p =>
    obtain ⟨⟨c, w₁⟩, hcell⟩ : ∃ r, Edit.takeCell p.cell w = r := ⟨_, rfl⟩
    have hinst : w₁.instances = w.instances := (congrArg (·.2.instances) hcell).symm
    have hgens : w₁.asyncGenerators = w.asyncGenerators :=
      (congrArg (·.2.asyncGenerators) hcell).symm
    have hw₁ : w₁.Orderly := (Kept.of_keeps hw hinst hgens).orderly
    have hg₁ : w₁.instances[id]? = some g := by rw [hinst]; exact hg
    have hfreed (g' : Instance) (hplan : g'.plan = g.plan) (hfree : g'.parked = none) :
        (w₁.put id g').Orderly ∧ (w₁.put id g').instances[id]? = some g' ∧ g'.plan = g.plan ∧
          g'.parked = none :=
      ⟨hw₁.put (by simp [hfree]), World.put_self hg₁, hplan, hfree⟩
    simp only [Run.edit, HasWorld.world, HasWorld.setWorld, id_eq, unpark, hp, bind, StateT.bind,
      hcell]
    cases c with
    | none =>
      cases a with
      | next v => exact ⟨p.cell, hp⟩
      | throw | ret | settled | delegateDone | delegateThrew => exact hfreed _ rfl rfl
    | some s => cases a <;> exact hfreed _ rfl rfl

theorem runSlice_handsOut (hh : host.Steady) (hw : w.Orderly) (hg : w.instances[id]? = some g)
    (hp : g.parked = none) (hsync : AwaitsIn false g.plan.code) {a : Action}
    (hr : runSlice host id g a w = .done (.stop (.awaiting v)) w') :
    w'.heap.isPromiseLike v = true ∨ ∃ g', w'.instances[id]? = some g' ∧ g'.AwaitsAnswer := by
  have hrun : (w.put id { g with status := .executing }).instances[id]? =
      some { g with status := .executing } := World.put_self hg
  have hslice := slice_yields hh (hw.put (by simp [hp])) host.fuel hp a
    (w := w.put id { g with status := .executing })
  have hr : ((g.slice host host.fuel a >>= fun r => do
      Edit.setInstance id (r.1.settle r.2)
      return r.2 : Run Pause) (w.put id { g with status := .executing })) =
      .done (.stop (.awaiting v)) w' := hr
  simp only [bind, RunOn.bind] at hr
  cases hs : g.slice host host.fuel a (w.put id { g with status := .executing }) with
  | abrupt | exhausted =>
    rw [hs] at hr
    cases hr
  | done r w₁ =>
    rw [hs] at hslice hr
    obtain ⟨g₁, p⟩ := r
    cases hr
    exact (slice_handsOut hsync hs).imp_right fun hanswer =>
      ⟨g₁.settle (.stop (.awaiting v)), World.put_self (hslice.1.stays id _ hrun rfl), hanswer⟩

/-- What an instance of the plan of a synchronous body hands out to wait for is like a promise in the
world that it leaves, unless it has been waiting for it before, or stands at a step of a `for await` loop
that has called the iterator: what that has answered is handed out unseen. -/
theorem sync_awaits_promises {params : List Pattern} {body : List Stmt} (fuel : Nat) {a : Action}
    (hw : w.Orderly) (hg : w.instances[id]? = some g) (hb : buildPlan false params body = .ok g.plan)
    (hr : resumeOne (.withFuel fuel) id a w = .done (.stop (.awaiting v)) w') :
    (∃ cell, g.parked = some ⟨v, cell⟩) ∨ w'.heap.isPromiseLike v = true ∨
      ∃ g', w'.instances[id]? = some g' ∧ g'.AwaitsAnswer := by
  have hfound : (liftM (Edit.instance? id) : Run _) w = .done (some g) w :=
    congrArg (fun o => Outcome.done o w) hg
  have hfreed := unpark_freed hw hg a
  simp only [resumeOne, bind, RunOn.bind, hfound] at hr
  cases hu : (Run.edit (unpark id g a) : Run _) w with
  | abrupt | exhausted => cases hu
  | done r w₁ =>
    rw [hu] at hfreed
    rw [show (liftM (unpark id g a) : Run _) w = _ from hu] at hr
    cases r with
    | error promise =>
      cases hr
      exact .inl hfreed
    | ok r =>
      obtain ⟨g₁, b⟩ := r
      obtain ⟨hw₁, hg₁, hplan, hp⟩ := hfreed
      have hsync : AwaitsIn false g₁.plan.code := hplan ▸ buildPlan_awaitsIn hb
      have hslice := @runSlice_handsOut _ _ w' _ _ v (withFuel_steady fuel) hw₁ hg₁ hp hsync b
      dsimp only at hr
      cases hs : g₁.status with
      | completed =>
        rw [hs] at hr
        cases b <;> cases hr
      | executing =>
        rw [hs] at hr
        dsimp only at hr
        split at hr
        · exact .inr (hslice hr)
        · cases hr
      | suspendedStart | suspendedYield =>
        rw [hs] at hr
        exact .inr (hslice hr)

end Resumptions

/-- A delegation to an iterator whose `next` gives the iterator itself, which has a method `then`. -/
theorem sync_awaits_promises_delegate :
    let body : List Stmt := [.expr (.yieldStar (some (.ident "it")))]
    let plan : Plan := ⟨[.ret none, .store none 0, .yieldStar (.ident "it") 1], 2, []⟩
    let it : Object := ⟨none, ⟨[("next", ⟨.obj 1, true, true⟩), ("then", ⟨.obj 1, true, true⟩),
      (WellKnown.iterator.key, ⟨.obj 1, true, true⟩)]⟩, .ordinary⟩
    let w : World := { World.blank with
      heap := ⟨#[it, ⟨none, .empty, .function (.native .self)⟩]⟩
      scopes := ⟨#[⟨⟨[("it", ⟨.obj 0, .let, true⟩)]⟩, none⟩]⟩
      instances := #[.start plan 0 false] }
    ∃ w', buildPlan false [] body = .ok plan ∧
      resumeOne (.withFuel 8) 0 (.next .undefined) w = .done (.stop (.awaiting (.obj 0))) w' ∧
      w'.heap.isPromiseLike (.obj 0) = true := by
  intro body plan it w
  have hb : buildPlan false [] body = .ok plan := rfl
  have hw : w.Orderly := by
    refine ⟨fun id g hg hp => ?_, by rintro id a ⟨⟩⟩
    cases id with
    | zero =>
      cases hg
      cases hp
    | succ id => cases hg
  obtain ⟨w', hr, hat⟩ : ∃ w', resumeOne (.withFuel 8) 0 (.next .undefined) w =
      .done (.stop (.awaiting (.obj 0))) w' ∧
      w'.instances[0]?.bind Instance.instr? = some (.yieldStar (.ident "it") 1) :=
    ⟨_, by cbv, by cbv⟩
  refine ⟨w', hb, hr, ?_⟩
  obtain ⟨cell, hp⟩ | hlike | ⟨g', hg', -, _, _, _, _, hi⟩ :=
    sync_awaits_promises 8 hw rfl hb hr
  · cases hp
  · exact hlike
  · rw [hg', Option.bind_some, hi] at hat
    cases hat

/-- A `for await` loop over an iterator whose `next` gives the iterator itself, which is no promise. -/
theorem sync_awaits_answer :
    let body : List Stmt := [.forOf (.declare .var (.ident "x")) (.ident "it")
      (.expr (.yield (some (.ident "x")))) true]
    let it : Object := ⟨none, ⟨[("next", ⟨.obj 1, true, true⟩),
      (WellKnown.iterator.key, ⟨.obj 1, true, true⟩)]⟩, .ordinary⟩
    ∃ plan, buildPlan false [] body = .ok plan ∧ ∃ w',
      resumeOne (.withFuel 8) 0 (.next .undefined) { World.blank with
        heap := ⟨#[it, ⟨none, .empty, .function (.native .self)⟩]⟩
        scopes := ⟨#[⟨⟨[("it", ⟨.obj 0, .let, true⟩)]⟩, none⟩]⟩
        instances := #[.start plan 0 false] } = .done (.stop (.awaiting (.obj 0))) w' ∧
      w'.heap.isPromiseLike (.obj 0) = false :=
  ⟨_, rfl, _, by cbv, by cbv⟩

end Resumable
