import Resumable.Proofs.Lifecycle.Fuel
import Resumable.Proofs.Lifecycle.Overlooked
import Resumable.Proofs.Machine.Forwarding
import Resumable.Proofs.Polling.Waiting

/-!
A generator that delegates to another one resumes it directly. As long as the method that it would have
to call is the built-in one, this comes to the same as calling it: one result object less is made, and
nothing else differs. Main statement: `native_as_called`.
-/

set_option autoImplicit false

namespace Resumable

/-- The instance if it did not know the generator behind the iterator, and had to call methods. -/
def Instance.byCalls (g : Instance) : Instance :=
  { g with delegation := g.delegation.map fun d => { d with native := none } }

def World.withResult (w : World) (v : Value) (done : Bool) : World := (Edit.newResult v done w).2

section Chains

variable {host : Host}

/-- How those that wait go on after a pause of an instance that they delegate to. -/
def afterPause (host : Host) (n : Nat) (outer : List InstanceId) (id : InstanceId) : Pause → Run Stop
  | .delegate inner a => resumeChain host n (id :: outer) inner a
  | .stop (.returned v) =>
    match outer with
    | [] => return .returned v
    | next :: outer => resumeChain host n outer next (.delegateDone v)
  | .stop (.threw v) =>
    match outer with
    | [] => return .threw v
    | next :: outer => resumeChain host n outer next (.delegateThrew v)
  | .stop (.failed e) => do
    markOuter outer Instance.abandon
    return .failed e
  | .stop (.awaiting promise) => do
    park id promise
    markOuter outer Instance.suspend
    return .awaiting promise
  | .stop (.yielded v) => do
    markOuter outer Instance.suspend
    return .yielded v

theorem resumeChain_succ (n : Nat) (outer : List InstanceId) (id : InstanceId) (a : Action) :
    resumeChain host (n + 1) outer id a = resumeOne host id a >>= afterPause host n outer id := by
  rw [resumeChain]
  refine congrArg (resumeOne host id a >>= ·) (funext fun p => ?_)
  cases p with
  | delegate => rfl
  | stop s => cases s <;> rfl

/-- How the outermost generator goes on with the answer of those that it delegates to. -/
def handBack (host : Host) (n : Nat) (last : InstanceId) : Stop → Run Stop
  | .returned v => resumeChain host n [] last (.delegateDone v)
  | .threw v => resumeChain host n [] last (.delegateThrew v)
  | .failed e => do
    markOuter [last] Instance.abandon
    return .failed e
  | .awaiting promise => do
    markOuter [last] Instance.suspend
    return .awaiting promise
  | .yielded v => do
    markOuter [last] Instance.suspend
    return .yielded v

theorem markOuter_append (outer : List InstanceId) (last : InstanceId) (f : Instance → Instance)
    (w : World) :
    (markOuter (outer ++ [last]) f w) = markOuter [last] f (markOuter outer f w).2 := by
  induction outer generalizing w with
  | nil => rfl
  | cons id outer ih => exact ih _

/-- A chain goes through the generators that its outermost one delegates to, and then hands the answer to
that with the rest of the fuel. What it has used does not depend on how much there is. -/
theorem resumeChain_append {n : Nat} {outer : List InstanceId} {id : InstanceId} {a : Action}
    {s : Stop} {w w₁ : World} (h : resumeChain host n outer id a w = .done s w₁) :
    ∃ used ≤ n, ∀ {host' : Host} {m : Nat}, host.Within host' → n ≤ m → ∀ last,
      resumeChain host' m (outer ++ [last]) id a w = handBack host' (m - used) last s w₁ := by
  induction n generalizing outer id a w with
  | zero => cases h
  | succ n ih =>
    rw [resumeChain_succ] at h
    simp only [bind, RunOn.bind] at h
    cases hone : resumeOne host id a w with
    | exhausted | abrupt =>
      rw [hone] at h
      cases h
    | done p w₂ =>
      rw [hone] at h
      dsimp only at h
      have hstep {host' : Host} {m : Nat} (hh : host.Within host') (last : InstanceId) :
          resumeChain host' (m + 1) (outer ++ [last]) id a w =
            afterPause host' m (outer ++ [last]) id p w₂ := by
        have hsame : resumeOne host' id a w = .done p w₂ :=
          ((resumeOne_approximates hh id a).eq_of_ne (by simp [hone])).trans hone
        rw [resumeChain_succ]
        simp only [bind, RunOn.bind, hsame]
      -- one more than what the rest of the chain uses
      have hlonger {outer' : List InstanceId} {next : InstanceId} {a' : Action}
          (hrest : resumeChain host n outer' next a' w₂ = .done s w₁)
          (hgoes : ∀ (host' : Host) (m : Nat) (last : InstanceId),
            afterPause host' m (outer ++ [last]) id p = resumeChain host' m (outer' ++ [last]) next a') :
          ∃ used ≤ n + 1, ∀ {host' : Host} {m : Nat}, host.Within host' → n + 1 ≤ m → ∀ last,
            resumeChain host' m (outer ++ [last]) id a w = handBack host' (m - used) last s w₁ := by
        obtain ⟨used, hused, hall⟩ := ih hrest
        refine ⟨used + 1, Nat.succ_le_succ hused, fun {host' m} hh hm last => ?_⟩
        obtain ⟨m, rfl⟩ := Nat.exists_eq_add_of_le' (Nat.one_le_of_lt hm)
        rw [hstep hh, hgoes, hall hh (Nat.le_of_succ_le_succ hm), Nat.add_sub_add_right]
      cases p with
      | delegate inner a => exact hlonger h fun _ _ _ => rfl
      | stop t =>
        cases t with
        | returned v | threw v =>
          cases outer with
          | nil =>
            cases h
            refine ⟨1, Nat.le_add_left 1 n, fun {host' m} hh hm last => ?_⟩
            obtain ⟨m, rfl⟩ := Nat.exists_eq_add_of_le' (Nat.one_le_of_lt hm)
            exact hstep hh last
          | cons next outer => exact hlonger h fun _ _ _ => rfl
        | failed e | yielded v | awaiting v =>
          cases h
          refine ⟨0, Nat.zero_le _, fun {host' m} hh hm last => ?_⟩
          obtain ⟨m, rfl⟩ := Nat.exists_eq_add_of_le' (Nat.one_le_of_lt hm)
          rw [hstep hh]
          exact congrArg (fun r => Outcome.done _ r.2) (markOuter_append outer last _ _)

/-- Goes on from a turn of an instance for which nobody waits, up to the next answer. -/
def goOnFrom (host : Host) (n : Nat) (id : InstanceId) (t : Run Turn) : Run Stop := do
  let (g, p) ← Instance.runOn host host.fuel (← t)
  Edit.setInstance id (g.settle p)
  afterPause host n [] id p

theorem resumeChain_runs {n : Nat} {id : InstanceId} {g : Instance} {a : Action} {w : World}
    (hfound : w.instances[id]? = some g) (hp : g.parked = none)
    (hs : g.status = .suspendedYield ∨ g.status = .executing ∧ a.endsDelegate = true) :
    resumeChain host (n + 1) [] id a w =
      goOnFrom host n id (Instance.resumed host { g with status := .executing } a)
        (w.put id { g with status := .executing }) := by
  have hunpark : (liftM (unpark id g a) : Run _) w = .done (.ok (g, a)) w := by
    simp only [unpark, hp]
    rfl
  have hslice : g.slice host host.fuel a =
      Instance.resumed host { g with status := .executing } a >>= Instance.runOn host host.fuel := by
    obtain hs | ⟨hs, -⟩ := hs
    · simp only [Instance.slice, hs]
    · simp only [Instance.slice, hs]
  have hone : resumeOne host id a w = runSlice host id g a w := by
    rw [resumeOne_found hfound]
    obtain hs | ⟨hs, ha⟩ := hs
    · simp only [resumeFound, bind, RunOn.bind, hunpark, hs]
    · simp only [resumeFound, bind, RunOn.bind, hunpark, hs, ha, if_true]
  have hrun : resumeChain host (n + 1) [] id a w =
      (runSlice host id g a >>= afterPause host n [] id) w := by
    rw [resumeChain_succ]
    simp only [bind, RunOn.bind, hone]
  rw [hrun, runSlice, hslice]
  simp only [bind_assoc, pure_bind]
  rfl

end Chains

/-- Whether a call that an instance passes on reaches a generator, and there the built-in method of that
name: the `next` that was found when the delegation began, and any other method as it is now. -/
structure World.Reaches (w : World) (id : InstanceId) (g : Instance) (d : Delegation)
    (inner : InstanceId) (m : Method) : Prop where
  found : w.instances[id]? = some g
  relays : g.Relays
  delegation : g.delegation = some d
  native : d.native = some inner
  generator : w.heap.generator? d.record.iterator = some inner
  callable : w.heap.callable? (d.record.callee w.heap m) = some (.native (.generator m))

section Results

variable {w : World} {v : Value} {done : Bool}

/-- The prototypes of an object are older than the object. -/
theorem Heap.chain_congr {h h' : Heap} {id : ObjectId} (heq : ∀ i ≤ id, h'.get? i = h.get? i) :
    h'.chain id = h.chain id ∧ ∀ i ∈ h.chain id, i ≤ id := by
  induction id using Nat.strongRecOn with
  | ind id ih =>
    rw [Heap.chain, Heap.chain, heq id (le_refl _)]
    cases hp : (h.get? id).bind Object.proto with
    | none => exact ⟨rfl, by simp⟩
    | some proto =>
      dsimp only
      split
      · next hlt =>
        obtain ⟨hchain, hle⟩ := ih proto hlt fun i hi => heq i (hi.trans (Nat.le_of_lt hlt))
        refine ⟨by rw [hchain], fun i hi => ?_⟩
        obtain rfl | hi := List.mem_cons.1 hi
        · exact le_refl _
        · exact (hle i hi).trans (Nat.le_of_lt hlt)
      · exact ⟨rfl, by simp⟩

theorem Heap.property?_congr {h h' : Heap} {key : String} {id : ObjectId}
    (heq : ∀ i ≤ id, h'.get? i = h.get? i) : h'.property? id key = h.property? id key := by
  obtain ⟨hchain, hle⟩ := Heap.chain_congr heq
  rw [Heap.property?, Heap.property?, hchain]
  generalize h.chain id = chain at hle
  induction chain with
  | nil => rfl
  | cons i chain ih =>
    rw [List.findSome?_cons, List.findSome?_cons, heq i (hle i List.mem_cons_self),
      ih fun j hj => hle j (List.mem_cons_of_mem _ hj)]

def World.resultObject (w : World) (v : Value) (done : Bool) : Object :=
  ⟨some w.realm.object, (Dict.empty.insert "value" ⟨v, true, true⟩).insert "done"
    ⟨.bool done, true, true⟩, .ordinary⟩

theorem withResult_heap (w : World) (v : Value) (done : Bool) :
    (w.withResult v done).heap = (w.heap.alloc (w.resultObject v done)).2 := rfl

theorem withResult_get? (w : World) (v : Value) (done : Bool) (i : ObjectId) :
    (w.withResult v done).heap.get? i =
      if i = w.heap.objects.size then some (w.resultObject v done) else w.heap.get? i := by
  rw [withResult_heap, Heap.get?_alloc]

theorem withResult_own {key : String} {u : Value} (h : (w.resultObject v done).own? key = some u) :
    (w.withResult v done).heap.property? w.heap.objects.size key = some u := by
  rw [Heap.property?, Heap.chain, List.findSome?_cons, withResult_get?, if_pos rfl, Option.bind_some, h]

theorem withResult_plain (h : w.heap.property? w.realm.object "then" = none) (v : Value)
    (done : Bool) : (w.withResult v done).heap.isPromiseLike (.obj w.heap.objects.size) = false := by
  have hown : (w.resultObject v done).own? "then" = none := by
    simp [World.resultObject, Object.own?, Object.elements?]
  have hproto : (w.resultObject v done).proto = some w.realm.object := rfl
  suffices hnone : (w.withResult v done).heap.property? w.heap.objects.size "then" = none by
    simp only [Heap.isPromiseLike, Heap.property, hnone, Option.getD_none]
    rfl
  rw [Heap.property?, Heap.chain, List.findSome?_cons, withResult_get?, if_pos rfl, Option.bind_some,
    Option.bind_some, hown, hproto]
  dsimp only
  split
  · next hlt =>
    refine (Heap.property?_congr fun i hi => ?_).trans h
    rw [withResult_get?, if_neg (Nat.ne_of_lt (Nat.lt_of_le_of_lt hi hlt))]
  · rfl

end Results

/-- What the answer of a generator means for one that delegates to it. -/
def Stop.fate (m : Method) : Stop → Fate
  | .yielded v | .awaiting v => .yields v
  | .returned v => if m = .ret then .ends (.ret v) else .gives v
  | .threw v => .ends (.throw v)
  | .failed e => .ends (.fatal e)

/-- The world with the object that a caller gets for an answer. -/
def World.answeredBy (w : World) : Stop → World
  | .yielded v | .awaiting v => w.withResult v false
  | .returned v => w.withResult v true
  | .threw _ | .failed _ => w

section Answers

variable {n : Nat} {w w₁ : World} {id inner : InstanceId} {r : IteratorRecord} {m : Method}
  {v : Value} {s : Stop}

theorem call_generator {f receiver : Value} (hf : w.heap.callable? f = some (.native (.generator m)))
    (hr : w.heap.generator? receiver = some inner) :
    (Host.withFuel (n + 1)).call f receiver [v] w =
      (resume (Host.withFuel n) inner (.ofMethod m v) >>= Stop.toResult) w := by
  have hcall : (Host.withFuel (n + 1)).call f receiver [v] w =
      callFunction (Host.withFuel n) f receiver [v] w := rfl
  rw [hcall, callFunction_apply, hf]
  simp only [Native.call, Native.resumeGenerator, bind, RunOn.bind, Run.heap, Run.read,
    HasWorld.world, id_eq, List.headD, hr]

theorem passed_generator (hm : w.heap.callable? (r.callee w.heap m) = some (.native (.generator m)))
    (hr : w.heap.generator? r.iterator = some inner)
    (h : resume (Host.withFuel n) inner (.ofMethod m v) w = .done s w₁)
    (hplain : w₁.heap.property? w₁.realm.object "then" = none) :
    Passed (Host.withFuel (n + 1)) r w m v [⟨m, [v]⟩] (s.fate m) (w₁.answeredBy s) ∧
      r.AnswersPlainly (Host.withFuel (n + 1)) m v w := by
  have hc : w.heap.isCallable (r.callee w.heap m) = true := by rw [Heap.isCallable, hm]; rfl
  -- the object that the caller gets, for an answer that is not an abrupt one
  have hobject {x : Value} {done : Bool}
      (hout : (s.toResult : Run Value) w₁ =
        .done (.obj w₁.heap.objects.size) (w₁.withResult x done)) {fate : Fate}
      (hmeans : Means (w₁.withResult x done).heap m (.obj w₁.heap.objects.size) fate) :
      Passed (Host.withFuel (n + 1)) r w m v [⟨m, [v]⟩] fate (w₁.withResult x done) ∧
        r.AnswersPlainly (Host.withFuel (n + 1)) m v w := by
    have hcall : (Host.withFuel (n + 1)).call (r.callee w.heap m) r.iterator [v] w =
        .done (.obj w₁.heap.objects.size) (w₁.withResult x done) := by
      rw [call_generator hm hr]
      simp only [bind, RunOn.bind, h, hout]
    refine ⟨.answered hc hcall hmeans, fun _ result w' hcall' => ?_⟩
    cases hcall.symm.trans hcall'
    exact withResult_plain hplain x done
  have habrupt {c : Abrupt} (hout : (s.toResult : Run Value) w₁ = .abrupt c w₁) :
      Passed (Host.withFuel (n + 1)) r w m v [⟨m, [v]⟩] (.ends c) w₁ ∧
        r.AnswersPlainly (Host.withFuel (n + 1)) m v w := by
    have hcall : (Host.withFuel (n + 1)).call (r.callee w.heap m) r.iterator [v] w =
        .abrupt c w₁ := by
      rw [call_generator hm hr]
      simp only [bind, RunOn.bind, h, hout]
    refine ⟨.threw hc hcall, fun _ result w' hcall' => ?_⟩
    cases hcall.symm.trans hcall'
  have hown (x : Value) (done : Bool) : (w₁.resultObject x done).own? "value" = some x ∧
      (w₁.resultObject x done).own? "done" = some (.bool done) := by
    simp [World.resultObject, Object.own?]
  have hvalue (x : Value) (done : Bool) :
      (w₁.withResult x done).heap.property (.obj w₁.heap.objects.size) "value" = x := by
    rw [Heap.property, withResult_own (hown x done).1, Option.getD_some]
  have hdone (x : Value) (done : Bool) :
      (w₁.withResult x done).heap.property (.obj w₁.heap.objects.size) "done" = .bool done := by
    rw [Heap.property, withResult_own (hown x done).2, Option.getD_some]
  have hhas (x : Value) (done : Bool) :
      (w₁.withResult x done).heap.hasProperty w₁.heap.objects.size "done" = true := by
    rw [Heap.hasProperty, withResult_own (hown x done).2]
    rfl
  cases s with
  | yielded x | awaiting x =>
    refine hobject rfl ?_
    have hmeans := Means.notDone (m := m) (hhas x false) (by rw [hdone]; rfl)
    rwa [hvalue] at hmeans
  | returned x =>
    refine hobject rfl ?_
    have htruthy : ((w₁.withResult x true).heap.property (.obj w₁.heap.objects.size)
        "done").truthy = true := by rw [hdone]; rfl
    rw [Stop.fate]
    split
    · next hm =>
      subst hm
      have hmeans := Means.returned htruthy
      rwa [hvalue] at hmeans
    · next hm =>
      have hmeans := Means.done htruthy hm
      rwa [hvalue] at hmeans
  | threw x => exact habrupt rfl
  | failed e => exact habrupt rfl

end Answers

section Passing

variable {n k : Nat} {w w₁ : World} {id inner : InstanceId} {g : Instance} {d : Delegation} {m : Method}
  {v : Value} {s : Stop}

/-- The instance while it calls methods of the iterator. -/
def Instance.calling (g : Instance) : Instance := { g.byCalls with status := .executing }

theorem relay_busy (hg : g.Relays) (m : Method) : (g.relay m).Busy := ⟨rfl, hg.parked⟩

theorem calling_busy (hg : g.Relays) : g.calling.Busy := ⟨rfl, hg.parked⟩

theorem relay_orderly (hw : w.Orderly) (hg : g.Relays) : (w.put id (g.relay m)).Orderly :=
  hw.put (by simp [(relay_busy hg m).parked])

/-- The generator that is resumed finds nothing changed, whichever way the call reaches it. -/
theorem resume_calling (hw : w.Orderly) (h : w.Reaches id g d inner m)
    (hinner : resume (Host.withFuel n) inner (.ofMethod m v) (w.put id (g.relay m)) = .done s w₁) :
    resume (Host.withFuel n) inner (.ofMethod m v) (w.put id g.calling) =
        .done s (w₁.put id g.calling) ∧
      w₁.Orderly ∧ w₁.instances[id]? = some (g.relay m) := by
  have hcall : (Action.ofMethod m v).endsDelegate = false := by cases m <;> rfl
  have hresume := resume_heedless (withFuel_heedless n) inner hcall
  have horderly : (w.put id (g.relay m)).Orderly := relay_orderly hw h.relays
  have hself : (w.put id (g.relay m)).instances[id]? = some (g.relay m) := World.put_self h.found
  have hkept := hresume.steady _ horderly
  have hover := hresume.overlooks _ id (g.relay m) g.calling horderly hself (relay_busy h.relays m)
    (calling_busy h.relays)
  rw [RunOn.Overlooks, World.put_put, hinner] at hover
  rw [hinner] at hkept
  exact ⟨hover, hkept.orderly, hkept.stays id _ hself rfl⟩

theorem resume_byCalls (hw : w.Orderly) (h : w.Reaches id g d inner m)
    (hinner : resume (Host.withFuel n) inner (.ofMethod m v) (w.put id (g.relay m)) = .done s w₁)
    (hplain : w₁.heap.property? w₁.realm.object "then" = none) :
    resume (Host.withFuel (n + 1)) id (.ofMethod m v) (w.put id g.byCalls) =
      goOnFrom (Host.withFuel (n + 1)) n id
        ((s.fate m).follow (Host.withFuel (n + 1)) (g.relay m).byCalls)
        ((w₁.answeredBy s).put id g.calling) := by
  obtain ⟨hcalling, -⟩ := resume_calling hw h hinner
  have hrecord : g.calling.delegation = some { d with native := none } := by
    simp [Instance.calling, Instance.byCalls, h.delegation]
  have hstart : resume (Host.withFuel (n + 1)) id (.ofMethod m v) (w.put id g.byCalls) =
      goOnFrom (Host.withFuel (n + 1)) n id
        (Instance.passOn (Host.withFuel (n + 1)) { g.calling with awaiting := none } m v)
        (w.put id g.calling) := by
    rw [← resumed_delegating hrecord]
    refine (resumeChain_runs (World.put_self h.found) ?_ (.inl ?_)).trans ?_
    · exact h.relays.parked
    · exact h.relays.status
    · rw [World.put_put]
      rfl
  have hrelay : ({ g.calling with
      awaiting := none
      delegation := some { d with received := m, native := none } } : Instance) =
      (g.relay m).byCalls := by
    simp [Instance.calling, Instance.byCalls, Instance.relay, h.delegation]
  have hpassed : Passed (Host.withFuel (n + 1)) d.record (w.put id g.calling) m v [⟨m, [v]⟩]
        (s.fate m) ((w₁.put id g.calling).answeredBy s) ∧
      d.record.AnswersPlainly (Host.withFuel (n + 1)) m v (w.put id g.calling) :=
    passed_generator h.callable h.generator hcalling hplain
  have hworld : (w₁.put id g.calling).answeredBy s = (w₁.answeredBy s).put id g.calling := by
    cases s <;> rfl
  have hfollow : Instance.passOn (Host.withFuel (n + 1)) { g.calling with awaiting := none } m v
      (w.put id g.calling) = (s.fate m).follow (Host.withFuel (n + 1)) (g.relay m).byCalls
        ((w₁.answeredBy s).put id g.calling) := by
    have hd : ({ g.calling with awaiting := none } : Instance).delegation =
        some { d with native := none } := hrecord
    rw [← hrelay, ← hworld]
    exact passOn_follow hd rfl hpassed.2 hpassed.1
  rw [hstart]
  simp only [goOnFrom, bind, RunOn.bind, hfollow]

theorem resume_native (h : w.Reaches id g d inner m)
    (hinner : resume (Host.withFuel n) inner (.ofMethod m v) (w.put id (g.relay m)) = .done s w₁) :
    ∃ used ≤ n, ∀ N ≥ n, resume (Host.withFuel (N + 1)) id (.ofMethod m v) w =
      handBack (Host.withFuel (N + 1)) (N - used) id s w₁ := by
  have hshallow : resumeChain (Host.withFuel n) n [] inner (.ofMethod m v) (w.put id (g.relay m)) =
    .done s w₁ := hinner
  obtain ⟨used, hused, hchain⟩ := resumeChain_append hshallow
  refine ⟨used, hused, fun N hN => ?_⟩
  obtain ⟨inner', hinner', hfound⟩ := resumeFound_relay (Host.withFuel (N + 1)) h.relays id m v w
  obtain rfl : inner' = inner := by
    rw [Instance.delegate?, h.delegation, Option.bind_some, h.native] at hinner'
    exact (Option.some.inj hinner').symm
  have hone : resumeOne (Host.withFuel (N + 1)) id (.ofMethod m v) w =
      .done (.delegate inner' (.ofMethod m v)) (w.put id (g.relay m)) :=
    (resumeOne_found h.found _).trans hfound
  have hresume : resume (Host.withFuel (N + 1)) id (.ofMethod m v) w =
      resumeChain (Host.withFuel (N + 1)) (N + 1) [] id (.ofMethod m v) w := rfl
  rw [hresume, resumeChain_succ]
  simp only [bind, RunOn.bind, hone]
  exact hchain (withFuel_within (Nat.le_succ_of_le hN)) hN id

theorem returned_follow {host : Host} {x : Value} (hd : g.delegation = some d) :
    ((Stop.returned x).fate m).follow host (g.relay m).byCalls = (g.relay m).delegateDone host x := by
  have hend : (g.relay m).byCalls.endDelegation = (g.relay m).endDelegation := rfl
  have hreturning : (g.relay m).isReturning = decide (m = .ret) := by
    simp [Instance.isReturning, Instance.relay, hd]
  rw [Instance.delegateDone, hreturning, Stop.fate]
  by_cases hm : m = .ret
  · simp only [hm, if_true, decide_true]
    exact congrArg (Instance.unwind host · (.ret x)) hend
  · simp only [hm, if_false, decide_false]
    exact congrArg (Instance.storeResume host · x) hend

/-- Whatever stands in the place of an instance when it goes on, it is overwritten at the next pause. -/
theorem goOnFrom_put (hw : w₁.Orderly) (hg : w₁.instances[id]? = some g) (hb : g.Busy) {g' : Instance}
    (hb' : g'.Busy) (a : Action) :
    goOnFrom (Host.withFuel n) k id (g.resumed (Host.withFuel n) a) (w₁.put id g') =
      goOnFrom (Host.withFuel n) k id (g.resumed (Host.withFuel n) a) w₁ := by
  have hh := withFuel_heedless n
  have hover := (slice_related hh.suits (.same n) g a).2.overlooks w₁ id g g' hw hg hb hb'
  have hends := slice_yields hh.steady hw n hb.parked a
  have hgo : goOnFrom (Host.withFuel n) k id (g.resumed (Host.withFuel n) a) = (do
      let r ← g.slice (Host.withFuel n) n a
      Edit.setInstance id (r.1.settle r.2)
      afterPause (Host.withFuel n) k [] id r.2) := by
    have hslice : g.slice (Host.withFuel n) n a =
        g.resumed (Host.withFuel n) a >>= Instance.runOn (Host.withFuel n) n := by
      simp only [Instance.slice, hb.status]
      rw [show ({ g with status := .executing } : Instance) = g by rw [← hb.status]]
    rw [hslice]
    simp only [goOnFrom, bind_assoc]
    rfl
  rw [hgo]
  unfold RunOn.Overlooks at hover
  simp only [bind, RunOn.bind, hover]
  cases hrun : g.slice (Host.withFuel n) n a w₁ with
  | exhausted => rfl
  | abrupt c w₂ =>
    rw [hrun] at hends
    exact hends.elim
  | done r w₂ =>
    show afterPause _ _ _ _ _ ((w₂.put id g').put id _) = afterPause _ _ _ _ _ (w₂.put id _)
    rw [World.put_put]

theorem markOuter_single (hg : w₁.instances[id]? = some g) (f : Instance → Instance) :
    (markOuter [id] f w₁).2 = w₁.put id (f g) := by
  have heq : w₁.instances.modify id f = w₁.instances.setIfInBounds id (f g) := by
    refine Array.ext_getElem? fun i => ?_
    rw [Array.getElem?_modify, Array.getElem?_setIfInBounds]
    split
    · next hi =>
      subst hi
      rw [hg, if_pos (Array.getElem?_eq_some_iff.1 hg).1]
      rfl
    · rfl
  exact congrArg (fun gs => ({ w₁ with instances := gs } : World)) heq

end Passing

/-- How a call comes out that an instance passes on, directly and by calling a method, when the other
generator has answered. In the latter case the world has the result of the method in it. A caller gets
the same for a promise that is awaited as for one that is yielded. After an end the instance goes on in
the same way, in the former case with less fuel for generators that it delegates to later. -/
def PassedAlike (host : Host) (n used : Nat) (id : InstanceId) (g : Instance) (w : World)
    (direct called : Outcome World Stop) : Stop → Prop
  | .yielded v => direct = .done (.yielded v) (w.put id g.suspend) ∧
    called = .done (.yielded v) ((w.withResult v false).put id g.suspend.byCalls)
  | .awaiting v => direct = .done (.awaiting v) (w.put id g.suspend) ∧
    called = .done (.yielded v) ((w.withResult v false).put id g.suspend.byCalls)
  | .returned v => direct = goOnFrom host (n - used) id (g.delegateDone host v) w ∧
    called = goOnFrom host n id (g.delegateDone host v) (w.withResult v true)
  | .threw v => direct = goOnFrom host (n - used) id (g.delegateThrew host v) w ∧
    called = goOnFrom host n id (g.delegateThrew host v) w
  | .failed e => direct = .done (.failed e) (w.put id g.abandon) ∧
    called = .done (.failed e) (w.put id g.finish)

/-- A generator that passes a call on directly does what it would do by calling the built-in method,
with any fuel that is more than the other generator needs. -/
theorem native_as_called {n : Nat} {w w₁ : World} {id inner : InstanceId} {g : Instance}
    {d : Delegation} {m : Method} {v : Value} {s : Stop} (hw : w.Orderly)
    (h : w.Reaches id g d inner m)
    (hinner : resume (Host.withFuel n) inner (.ofMethod m v) (w.put id (g.relay m)) = .done s w₁)
    (hplain : w₁.heap.property? w₁.realm.object "then" = none) :
    ∃ used ≤ n + 1, ∀ N > n, PassedAlike (Host.withFuel (N + 1)) N used id (g.relay m) w₁
      (resume (Host.withFuel (N + 1)) id (.ofMethod m v) w)
      (resume (Host.withFuel (N + 1)) id (.ofMethod m v) (w.put id g.byCalls)) s := by
  obtain ⟨used, hused, hdirect⟩ := resume_native h hinner
  refine ⟨used + 1, Nat.succ_le_succ hused, fun N hN => ?_⟩
  have hle : n ≤ N := Nat.le_of_lt hN
  have hinner : resume (Host.withFuel N) inner (.ofMethod m v) (w.put id (g.relay m)) = .done s w₁ :=
    ((resume_approximates (withFuel_within hle) inner _).eq_of_ne (by simp [hinner])).trans hinner
  obtain ⟨-, hw₁, hg₁⟩ := resume_calling hw h hinner
  have hcalled := resume_byCalls hw h hinner hplain
  have hdirect := hdirect N hle
  have hbusy := relay_busy h.relays m
  have hrest : N - used = N - (used + 1) + 1 := by omega
  -- once the other generator has ended, the same follows from the same instance
  have hended {a : Action} (ha : a.endsDelegate = true) :
      resumeChain (Host.withFuel (N + 1)) (N - used) [] id a w₁ =
        goOnFrom (Host.withFuel (N + 1)) (N - (used + 1)) id
          ((g.relay m).resumed (Host.withFuel (N + 1)) a) w₁ := by
    have hsame : ({ g.relay m with status := .executing } : Instance) = g.relay m := rfl
    rw [hrest, resumeChain_runs hg₁ hbusy.parked (.inr ⟨hbusy.status, ha⟩), hsame, World.put_eq hg₁]
  cases s with
  | yielded x =>
    refine ⟨hdirect.trans ?_, hcalled.trans ?_⟩
    · exact congrArg (Outcome.done _) (markOuter_single hg₁ _)
    · exact congrArg (Outcome.done _) (World.put_put _ id _ _)
  | awaiting x =>
    refine ⟨hdirect.trans ?_, hcalled.trans ?_⟩
    · exact congrArg (Outcome.done _) (markOuter_single hg₁ _)
    · exact congrArg (Outcome.done _) (World.put_put _ id _ _)
  | returned x =>
    have hworld : (w₁.withResult x true).Orderly := ⟨hw₁.parked, hw₁.requests⟩
    refine ⟨hdirect.trans (hended (a := .delegateDone x) rfl), hcalled.trans ?_⟩
    rw [returned_follow h.delegation]
    exact goOnFrom_put hworld hg₁ hbusy (calling_busy h.relays) (.delegateDone x)
  | threw x =>
    refine ⟨hdirect.trans (hended (a := .delegateThrew x) rfl), hcalled.trans ?_⟩
    exact goOnFrom_put hw₁ hg₁ hbusy (calling_busy h.relays) (.delegateThrew x)
  | failed e =>
    refine ⟨hdirect.trans ?_, hcalled.trans ?_⟩
    · exact congrArg (Outcome.done _) (markOuter_single hg₁ _)
    · exact congrArg (Outcome.done _) (World.put_put _ id _ _)

/-- The value and the world with which a run completes normally. -/
def Outcome.done? {α : Type} : Outcome World α → Option (α × World)
  | .done a w => some (a, w)
  | .abrupt _ _ | .exhausted => none

def Stop.returned? : Stop → Option Value
  | .returned v => some v
  | .yielded _ | .awaiting _ | .threw _ | .failed _ => none

/-- The method `return` of the generator is replaced while another one delegates to it. The call of
`return` does not reach the new method. -/
theorem native_keeps_return :
    ((Session.runProgram
      [.function "inner" (.mk 0 .generator [] [.expr (.yield none)]),
        .declare .var [.mk (.ident "i") (some (.call (.ident "inner") []))],
        .function "outer" (.mk 1 .generator [] [.expr (.yieldStar (some (.ident "i")))]),
        .declare .var [.mk (.ident "it") (some (.call (.ident "outer") []))],
        .expr (.call (.dot (.ident "it") "next") []),
        .expr (.assign .set (.dot (.ident "i") "return") (.function none (.mk 2 .plain []
          [.ret (some (.object [.mk (.ident "value") (.bool true), .mk (.ident "done") (.bool true)]))])))]
      .initial).world?.bind fun w => do
        let id ← w.heap.generator? (← w.value? "it")
        let g ← w.instances[id]?
        let direct ← (resume (Host.withFuel 20) id (.ret .null) w).done?
        let called ← (resume (Host.withFuel 20) id (.ret .null) (w.put id g.byCalls)).done?
        some (direct.1.returned?.map Value.truthy, called.1.returned?.map Value.truthy)) =
      some (some false, some true) := by decide +kernel

end Resumable
