import Resumable.Proofs.Promises.Settlement

/-!
Calls of asynchronous functions. Once its scope is made, a call gives a promise, and what its body throws
before it awaits anything rejects that promise. What parameters and declared functions throw while the
scope is made is thrown to the caller. Main statement: `async_calls_give_promises`.
-/

set_option autoImplicit false

namespace Resumable

/-- An asynchronous function that has run up to where its body first stops. -/
structure FirstStop where
  promise : ObjectId
  stop : Stop

/-- Makes the promise of a call, and runs the body up to where it first stops. -/
def firstStop (host : Host) (plan : Plan) (scope : ScopeId) : Run FirstStop := do
  let inst ← newActivation plan scope true
  let promise ← Edit.newPromise
  return ⟨promise, ← resume host inst (.next .undefined)⟩

section Bodies

variable {host : Host} {c : Config} {H : Multiset Right} {i : InstanceId} {p : ObjectId} {s : Stop}
  {w w' : World}

theorem stepAsyncFunction_done {a : Action} (hs : resume host i a w = .done s w') :
    ∃ w'', stepAsyncFunction host i p a w = .done () w'' ∧
      ∀ reason, s = .threw reason → w'' = (Promise.reject p reason w').2 := by
  unfold stepAsyncFunction
  simp only [bind, RunOn.bind, hs]
  cases s with
  | threw reason =>
    refine ⟨_, rfl, fun _ h => ?_⟩
    cases h
    rfl
  | awaiting | returned | yielded | failed => exact ⟨_, rfl, by simp⟩

section Ends

variable {α : Type} {x : Run α} {P : α → Config → Prop}

theorem moves_yields (hx : (moving H false).Gives c x P) : (x c.world).Yields fun a w =>
    ∃ c' : Config, (moving H false).Leads c c' ∧ c'.world = w ∧ P a c' := hx

theorem moves_done {b : α} (hx : (moving H false).Gives c x P) (h : x c.world = .done b w) :
    ∃ c' : Config, (moving H false).Leads c c' ∧ c'.world = w ∧ P b c' := by
  have hyields := moves_yields hx
  rwa [h] at hyields

theorem moves_ne_abrupt {e : Abrupt} (hx : (moving H false).Gives c x P) :
    x c.world ≠ .abrupt e w := by
  intro h
  have hyields := moves_yields hx
  rwa [h] at hyields

end Ends

variable (hh : tracking.Hosts host) (hs : host.Steady)

include hh hs

/-- The promise of a body that has stopped is a promise still, and is rejected if the body has thrown
something. -/
theorem stepAsyncFunction_settles {a : Action} (hc : c.Reached)
    (hH : c.held = .own i ::ₘ .settle p ::ₘ H) (ha : a.endsDelegate = false)
    (hstop : resume host i a c.world = .done s w) :
    ∃ w' state, stepAsyncFunction host i p a c.world = .done () w' ∧
      w'.heap.promise? (.obj p) = some state ∧
      ∀ reason, s = .threw reason → state = .settled (.rejected reason) := by
  have hmem : .settle p ∈ c.held := by rw [hH]; simp
  obtain ⟨w', hstep, hreject⟩ := stepAsyncFunction_done (p := p) hstop
  obtain ⟨c', h', hw', -⟩ := moves_done (stepAsyncFunction_moves hs hh hc hH ha) hstep
  obtain ⟨rs, hrs⟩ := hc.valid.standing.settle p (Config.mem_rights hmem)
  obtain ⟨state, hstate, -⟩ := h'.2.1.later.onward.promises p _ hrs
  rw [hw'] at hstate
  refine ⟨w', state, hstep, hstate, fun reason hreason => ?_⟩
  -- the right to settle the promise has not been used, so it is pending when the body stops
  obtain ⟨c₁, h₁, rfl, hheld, -⟩ := moves_done
    (tracking_gives_iff.1 (resumeAsync_gives hs hh hc ha (.inl (mem_of_held_cons hH)))) hstop
  have hmem₁ : .settle p ∈ c₁.held := by rw [hheld]; exact hmem
  obtain ⟨rs₁, hrs₁⟩ := (reached_of_moves h₁).valid.standing.settle p (Config.mem_rights hmem₁)
  have hsettled : Promise.reject p reason c₁.world = _ := settle_eq (.rejected reason) hrs₁
  rw [hreject reason hreason, hsettled] at hstate
  exact Option.some.inj (hstate.symm.trans ((Heap.promise?_setState hrs₁).trans (if_pos rfl)))

theorem startAsyncFunction_settles (hc : c.Reached) (hH : c.held = .own i ::ₘ H)
    (hstop : resume host i (.next .undefined) (Edit.newPromise c.world).2 = .done s w) :
    ∃ w' state, startAsyncFunction host i c.world = .done (.obj (Edit.newPromise c.world).1) w' ∧
      w'.heap.promise? (.obj (Edit.newPromise c.world).1) = some state ∧
      ∀ reason, s = .threw reason → state = .settled (.rejected reason) := by
  have hmade : (Run.edit Edit.newPromise : Run ObjectId) c.world =
      .done (Edit.newPromise c.world).1 (Edit.newPromise c.world).2 := rfl
  obtain ⟨c₁, h₁, hw₁, hheld⟩ := moves_done (newPromise_moves hc) hmade
  rw [← hw₁] at hstop
  have hH₁ : c₁.held = .own i ::ₘ .settle (Edit.newPromise c.world).1 ::ₘ H := by
    rw [hheld, hH]
    exact Multiset.cons_swap _ _ _
  obtain ⟨w', state, hstep, hstate⟩ :=
    stepAsyncFunction_settles hh hs (reached_of_moves h₁) hH₁ rfl hstop
  refine ⟨w', state, ?_, hstate⟩
  rw [hw₁] at hstep
  have hstart : startAsyncFunction host i c.world = (do
      stepAsyncFunction host i (Edit.newPromise c.world).1 (.next .undefined)
      return .obj (Edit.newPromise c.world).1 : Run Value) (Edit.newPromise c.world).2 := rfl
  rw [hstart]
  simp only [bind, RunOn.bind, hstep]
  rfl

theorem body_moves (plan : Plan) (scope : ScopeId) (hc : c.Reached) :
    (moving c.held false).Gives c (do
      let inst ← newActivation plan scope true
      startAsyncFunction host inst) fun _ c' => c'.held = c.held := by
  refine .bind (newActivation_moves plan scope true hc) ?_
  rintro i c₁ h₁ ⟨hheld, -⟩
  exact startAsyncFunction_moves hs hh (reached_of_moves h₁)
    (hheld.trans (Multiset.singleton_add _ _))

theorem body_settles {plan : Plan} {scope : ScopeId} {r : FirstStop} (hc : c.Reached)
    (hr : firstStop host plan scope c.world = .done r w) : ∃ w' state,
      (do
        let inst ← newActivation plan scope true
        startAsyncFunction host inst : Run Value) c.world = .done (.obj r.promise) w' ∧
      w'.heap.promise? (.obj r.promise) = some state ∧
      ∀ reason, r.stop = .threw reason → state = .settled (.rejected reason) := by
  obtain ⟨⟨i, w₁⟩, hi⟩ : ∃ x, newActivation plan scope true c.world = x := ⟨_, rfl⟩
  have hmade : (liftM (newActivation plan scope true) : Run InstanceId) c.world = .done i w₁ :=
    congrArg (fun x : InstanceId × World => Outcome.done x.1 x.2) hi
  have hpromise : (liftM Edit.newPromise : Run ObjectId) w₁ =
      .done (Edit.newPromise w₁).1 (Edit.newPromise w₁).2 := rfl
  obtain ⟨c₁, h₁, rfl, hheld, -⟩ := moves_done (newActivation_moves plan scope true hc) hmade
  unfold firstStop at hr
  simp only [bind, RunOn.bind, hmade, hpromise] at hr
  cases hstop : resume host i (.next .undefined) (Edit.newPromise c₁.world).2 with
  | done s w₂ =>
    rw [hstop] at hr
    cases hr
    obtain ⟨w', state, hstart, hstate⟩ := startAsyncFunction_settles hh hs (reached_of_moves h₁)
      (hheld.trans (Multiset.singleton_add _ _)) hstop
    refine ⟨w', state, ?_, hstate⟩
    simp only [bind, RunOn.bind, hmade]
    exact hstart
  | abrupt e w₂ =>
    rw [hstop] at hr
    cases hr
  | exhausted =>
    rw [hstop] at hr
    cases hr

end Bodies

section Calls

theorem bind_abrupt_iff {α β : Type} {x : Run α} {g : α → Run β} {e : Abrupt} {w w' : World}
    (hg : ∀ a w₁, x w = .done a w₁ → ∀ e' w', g a w₁ ≠ .abrupt e' w') :
    (x >>= g) w = .abrupt e w' ↔ x w = .abrupt e w' := by
  simp only [bind, RunOn.bind]
  cases hx : x w with
  | done a w₁ => simpa using hg a w₁ hx e w'
  | abrupt e' w₁ => simp
  | exhausted => simp

variable {c : Config} {f receiver : Value} {args : List Value} {k : Closure} {plan : Plan} {fuel : Nat}

theorem callWithin_closure (fuel : Nat) (receiver : Value) (args : List Value) {w : World}
    (hf : w.heap.callable? f = some (.closure k)) : callWithin (fuel + 1) f receiver args w =
      k.call (Host.withFuel fuel) f receiver args w := by
  show callFunction (Host.withFuel fuel) f receiver args w = _
  rw [callFunction_apply, hf]

theorem closure_call_async (host : Host) (f receiver : Value) (args : List Value)
    (hk : k.routine = .async plan) : k.call host f receiver args = (do
      let scope ← k.enter host receiver args
      let inst ← newActivation plan scope true
      startAsyncFunction host inst) := by
  unfold Closure.call
  rw [hk]

/-- A call of an asynchronous function throws exactly what making its scope throws: the parameters and the
functions declared in its body. Else it gives a promise as soon as its body stops, and if the body has
thrown something, then the promise is rejected with that. -/
theorem async_calls_give_promises (hc : c.Reached) (hf : c.world.heap.callable? f = some (.closure k))
    (hk : k.routine = .async plan) :
    (∀ e w, callWithin (fuel + 1) f receiver args c.world = .abrupt e w ↔
      k.enter (Host.withFuel fuel) receiver args c.world = .abrupt e w) ∧
    ∀ scope w₁, k.enter (Host.withFuel fuel) receiver args c.world = .done scope w₁ →
      ∀ r w₂, firstStop (Host.withFuel fuel) plan scope w₁ = .done r w₂ → ∃ w state,
        callWithin (fuel + 1) f receiver args c.world = .done (.obj r.promise) w ∧
        w.heap.promise? (.obj r.promise) = some state ∧
        ∀ reason, r.stop = .threw reason → state = .settled (.rejected reason) := by
  have hh := withFuel_tracked fuel
  have hs := withFuel_steady fuel
  have hallowed := enter_allowed hh k receiver args c hc
  have hentered {scope : ScopeId} {w₁ : World}
      (h : k.enter (Host.withFuel fuel) receiver args c.world = .done scope w₁) :
      ∃ c₁ : Config, c₁.Reached ∧ c₁.world = w₁ := by
    have hleaves : (k.enter (Host.withFuel fuel) receiver args c.world).Leaves (tracking.Leaves c) :=
      hallowed
    rw [h] at hleaves
    obtain ⟨c₁, h₁, hw₁⟩ := hleaves
    exact ⟨c₁, tracking.good h₁, hw₁⟩
  rw [callWithin_closure fuel receiver args hf, closure_call_async _ f receiver args hk]
  constructor
  · intro e w
    refine bind_abrupt_iff fun scope w₁ henter e' w' hthrow => ?_
    obtain ⟨c₁, hc₁, rfl⟩ := hentered henter
    exact moves_ne_abrupt (body_moves hh hs plan scope hc₁) hthrow
  · intro scope w₁ henter r w₂ hr
    obtain ⟨c₁, hc₁, rfl⟩ := hentered henter
    obtain ⟨w, state, hbody, hstate⟩ := body_settles hh hs hc₁ hr
    refine ⟨w, state, ?_, hstate⟩
    simp only [bind, RunOn.bind, henter]
    exact hbody

def World.withFunction (w : World) (k : Closure) : World :=
  { w with heap := (w.heap.alloc ⟨none, .empty, .function (.closure k)⟩).2 }

theorem World.instances_withFunction (w : World) (k : Closure) :
    (w.withFunction k).instances = w.instances := rfl

theorem Config.Reached.withFunction {w : World} {H : Multiset Right} {L : Log}
    (hc : Config.Reached ⟨w, H, L⟩) (k : Closure) : Config.Reached ⟨w.withFunction k, H, L⟩ :=
  hc.step (.calm ⟨.alloc rfl, rfl, rfl, rfl, rfl⟩)

theorem callable?_withFunction (w : World) (k : Closure) :
    (w.withFunction k).heap.callable? (.obj w.heap.objects.size) = some (.closure k) := by
  show ((w.heap.alloc _).2.get? w.heap.objects.size).bind Object.callable? = _
  rw [Heap.get?_alloc, if_pos rfl]
  rfl

def thrower : Closure :=
  ⟨[], [.throw .null], World.global, true, .async ⟨[.ret none, .throw .null], 1, []⟩⟩

theorem thrower_enters (w : World) : ∃ scope scopes,
    thrower.enter (Host.withFuel 3) .undefined [] w = .done scope { w with scopes } := ⟨_, _, rfl⟩

theorem thrower_stops {w : World} (hw : w.instances = #[]) (scope : ScopeId) : ∃ r w',
    firstStop (Host.withFuel 3) ⟨[.ret none, .throw .null], 1, []⟩ scope w = .done r w' ∧
      r.stop = .threw .null := by
  cases w
  subst hw
  exact ⟨_, _, rfl, rfl⟩

/-- Its plan is the one that is built for it, and a call gives a promise that is rejected. -/
theorem async_calls_give_promises_thrower :
    buildPlan true thrower.params thrower.body = .ok ⟨[.ret none, .throw .null], 1, []⟩ ∧
    ∃ (f : Value) (p : ObjectId) (w : World),
      (World.initial.withFunction thrower).heap.callable? f = some (.closure thrower) ∧
      callWithin 4 f .undefined [] (World.initial.withFunction thrower) = .done (.obj p) w ∧
      w.heap.promise? (.obj p) = some (.settled (.rejected .null)) := by
  refine ⟨rfl, ?_⟩
  have hc : Config.Reached ⟨World.initial.withFunction thrower, 0, .empty⟩ :=
    Config.Reached.withFunction .refl thrower
  have hf := callable?_withFunction World.initial thrower
  have hinst := (World.initial.instances_withFunction thrower).trans initial_untouched.instances
  generalize World.initial.withFunction thrower = w₀ at hc hf hinst ⊢
  obtain ⟨scope, scopes, henter⟩ := thrower_enters w₀
  obtain ⟨r, w₂, hstop, hreason⟩ := thrower_stops (w := { w₀ with scopes }) hinst scope
  obtain ⟨w, state, hcall, hstate, hrejected⟩ :=
    (async_calls_give_promises hc hf rfl).2 scope _ henter r w₂ hstop
  exact ⟨_, r.promise, w, hf, hcall, hstate.trans (congrArg some (hrejected .null hreason))⟩

def destructurer : Closure := ⟨[.object []], [], World.global, true, .async ⟨[.ret none], 0, []⟩⟩

theorem destructurer_throws (f : Value) (w : World) : ∃ e w',
    destructurer.call (Host.withFuel 0) f .undefined [] w = .abrupt (.throw e) w' := ⟨_, _, rfl⟩

/-- Without an argument to take apart a call of it throws. -/
theorem async_call_throws :
    buildPlan true destructurer.params destructurer.body = .ok ⟨[.ret none], 0, []⟩ ∧
    Config.Reached ⟨World.initial.withFunction destructurer, 0, .empty⟩ ∧
    ∃ (f e : Value) (w : World),
      (World.initial.withFunction destructurer).heap.callable? f = some (.closure destructurer) ∧
      callWithin 1 f .undefined [] (World.initial.withFunction destructurer) =
        .abrupt (.throw e) w := by
  refine ⟨rfl, Config.Reached.withFunction .refl destructurer, ?_⟩
  have hf := callable?_withFunction World.initial destructurer
  generalize World.initial.withFunction destructurer = w₀ at hf ⊢
  obtain ⟨e, w, hthrow⟩ := destructurer_throws (.obj World.initial.heap.objects.size) w₀
  exact ⟨_, e, w, hf, (callWithin_closure 0 .undefined [] hf).trans hthrow⟩

end Calls

end Resumable
