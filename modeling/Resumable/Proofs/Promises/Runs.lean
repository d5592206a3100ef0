import Resumable.Proofs.Promises.Serving

/-!
Calls, jobs and programs as sequences of steps: calls that script code makes leave the rights in use as
they are and take no job out of the queue, and between the requests of a host no right is in use. Main
statements: `withFuel_tracked`, `runJobs_allowed`, `World.Hosted.reached`.
-/

set_option autoImplicit false

namespace Resumable

/-- The worlds that are reached from a configuration with certain rights in use. -/
def Config.Ends (H : Multiset Right) (c : Config) (w : World) : Prop :=
  ∃ c', (c.Reached ∧ Retains H c c' ∧ c'.held = H) ∧ c'.world = w

section Ends

variable {α β : Type} {c : Config} {H : Multiset Right}

theorem Config.Ends.before {c' : Config} {w : World} (h : Config.Ends H c' w) (hc : c.Reached)
    (hkeeps : Retains H c c') : Config.Ends H c w := by
  obtain ⟨c₁, ⟨-, hkeeps₁, hheld⟩, hw⟩ := h
  exact ⟨c₁, ⟨hc, hkeeps.trans hkeeps₁, hheld⟩, hw⟩

theorem ends_of_moves {x : Run α} (h : (moving H false).Gives c x fun _ c' => c'.held = H) :
    (x c.world).Leaves (Config.Ends H c) := by
  refine Outcome.Yields.leaves h fun _ w => ?_
  rintro ⟨c', ⟨hc, hkeeps, -⟩, hw, hheld⟩
  exact ⟨c', ⟨hc.1, hkeeps, hheld⟩, hw⟩

theorem ends_bind {x : Run α} {f : α → Run β} {P : α → Config → Prop}
    (hx : (moving H false).Gives c x P) (hf : ∀ a c', (moving H false).Leads c c' → P a c' →
      ((f a) c'.world).Leaves (Config.Ends H c')) :
    ((x >>= f) c.world).Leaves (Config.Ends H c) := by
  have hx : (x c.world).Yields fun a w => ∃ c', (moving H false).Leads c c' ∧ c'.world = w ∧ P a c' :=
    hx
  simp only [Bind.bind, RunOn.bind]
  cases hxw : x c.world with
  | done a w =>
    rw [hxw] at hx
    obtain ⟨c', h, rfl, ha⟩ := hx
    exact (hf a c' h ha).mono fun w hw => hw.before h.1.1 h.2.1
  | abrupt e w =>
    rw [hxw] at hx
    exact hx.elim
  | exhausted => trivial

theorem Conduct.Allows.ends {x : Run α} (h : tracking.Allows x) (hc : c.Reached) (hH : c.held = H) :
    (x c.world).Leaves (Config.Ends H c) := hH ▸ h c hc

end Ends

section Natives

variable {host : Host} {c : Config} {l : LatchId} {p : ObjectId}

theorem takeLatch_closed {w : World} (h : w.latches[l]? = some true) :
    Edit.takeLatch l w = (false, w) := by
  have hset : w.latches.setIfInBounds l true = w.latches := by
    refine Array.ext_getElem? fun i => ?_
    rw [Array.getElem?_setIfInBounds]
    split
    · rename_i hi
      rw [if_pos (Array.getElem?_eq_some_iff.1 h).1, ← hi, h]
    · rfl
  show (w.latches[l]? == some false, { w with latches := w.latches.setIfInBounds l true }) = _
  rw [hset, h]
  rfl

/-- Of the calls to a pair of functions only the first gets the right to settle the promise. -/
theorem takeLatch_moves (hc : c.Reached) (ht : c.log.targets[l]? = some p) :
    (moving c.held false).Gives c (Run.edit (Edit.takeLatch l)) fun first c' =>
      c'.held = if first then .settle p ::ₘ c.held else c.held := by
  obtain ⟨hlt, -⟩ := List.getElem?_eq_some_iff.1 ht
  rw [hc.valid.targets] at hlt
  obtain ⟨taken, htaken⟩ : ∃ taken, c.world.latches[l]? = some taken :=
    ⟨_, Array.getElem?_eq_getElem hlt⟩
  cases taken with
  | false =>
    have hfirst : (Edit.takeLatch l c.world).1 = true := by
      show (c.world.latches[l]? == some false) = true
      rw [htaken]
      rfl
    exact moves_step hc (le_refl _) (.take ht htaken) (Multiset.le_cons_self _ _) (fun _ => .refl) rfl
      (by rw [hfirst]; rfl)
  | true =>
    have hsame := takeLatch_closed htaken
    refine ⟨c, (moving _ _).refl ⟨hc, le_refl _⟩, (congrArg Prod.snd hsame).symm, ?_⟩
    show c.held = if (Edit.takeLatch l c.world).1 = true then _ else _
    rw [hsame]
    rfl

theorem resolver_moves {x : Edit Unit} (hc : c.Reached) (ht : c.log.targets[l]? = some p)
    (hx : ∀ c' : Config, c'.Reached → c'.held = .settle p ::ₘ c.held →
      (moving c.held false).Gives c' (Run.edit x) fun _ c'' => c''.held = c.held) :
    (moving c.held false).Gives c (do
      if ← Edit.takeLatch l then x
      return .undefined : Run Value) fun _ c' => c'.held = c.held := by
  refine .bind (takeLatch_moves hc ht) fun first c₁ h₁ hheld => ?_
  cases first with
  | true =>
    exact .bind (hx c₁ (reached_of_moves h₁) hheld) fun _ c₂ h₂ hheld₂ => .pure ((moving _ _).good h₂) hheld₂
  | false => exact .pure ((moving _ _).good h₁) hheld

theorem thenPromise_allowed (receiver onFulfilled onRejected : Value) :
    tracking.Allows (Native.thenPromise receiver onFulfilled onRejected) := by
  intro c hc
  have hthrow := Conduct.Allows.throwNew (C := tracking) (α := Value) .typeError
    "Promise.prototype.then called on non-promise" c hc
  simp only [Native.thenPromise, Run.heap, Run.read, Bind.bind, RunOn.bind]
  cases hp : (HasWorld.world (tracking.world c)).heap.isPromise receiver with
  | false => cases receiver <;> exact hthrow
  | true =>
    cases receiver with
    | obj id =>
      obtain ⟨state, hstate⟩ := Option.isSome_iff_exists.1 hp
      have hgives : (moving c.held false).Gives c (do
          return .obj (← Promise.derive id onFulfilled onRejected) : Run Value) fun _ c' =>
            c'.held = c.held :=
        .bind (derive_moves onFulfilled onRejected hc hstate) fun _ c₁ h₁ hheld =>
          .pure ((moving _ _).good h₁) hheld
      exact leaves_of_moves hgives
    | _ => exact hthrow

variable (hh : tracking.Hosts host)

include hh

theorem constructPromise_allowed (executor : Value) :
    tracking.Allows (Native.constructPromise host executor) := by
  have hstart : tracking.Allows (Native.startPromise host executor) := by
    intro c hc
    refine ends_bind (newPromise_moves hc) fun p c₁ h₁ hheld => ?_
    refine ends_bind (newResolvers_moves (reached_of_moves h₁) hheld) fun r c₂ h₂ hheld₂ => ?_
    exact (construct_allowed hh executor p r).ends (reached_of_moves h₂) hheld₂
  refine .bind (.read _) fun h => ?_
  dsimp only
  split
  · exact .bind (.throwNew _ _) fun _ => hstart
  · exact hstart

variable (hs : host.Steady)

include hs

omit hh hs in
theorem Native.resumeGenerator_apply (receiver : Value) (m : Method) (v : Value) (w : World) :
    Native.resumeGenerator host receiver m v w =
      (match w.heap.generator? receiver with
        | some id => do (← resume host id (.ofMethod m v)).toResult
        | none =>
          let name := m.name
          Run.throwType s!"Generator.prototype.{name} called on incompatible receiver" :
            Run Value) w := rfl

theorem resumeGenerator_allowed (receiver : Value) (m : Method) (v : Value) :
    tracking.Allows (Native.resumeGenerator host receiver m v) := by
  intro c hc
  show Outcome.Leaves (tracking.Leaves c) (Native.resumeGenerator host receiver m v c.world)
  rw [Native.resumeGenerator_apply]
  cases hid : c.world.heap.generator? receiver with
  | some id =>
    have hsync := Heap.isSync_of_generator? hc hid
    have ha : Action.endsDelegate (.ofMethod m v) = false := by cases m <;> rfl
    refine ends_bind (tracking_gives_iff.1 (resumeSync_gives hs hh hc
      (.of_call (.of_orderly hc.orderly) ha) hsync)) ?_
    rintro s c₁ h₁ ⟨hheld, -⟩
    exact (toResult_allowed s).ends (reached_of_moves h₁) hheld
  | none => exact Conduct.Allows.throwNew (C := tracking) _ _ c hc

theorem native_leaves (n : Native) (receiver : Value) (args : List Value) (hc : c.Reached)
    (hn : (Role.function (.native n)).Sound c.world.instances c.world.asyncGenerators.size
      c.log.targets) : (n.call host receiver args c.world).Leaves (tracking.Leaves c) := by
  have hallowed (h : tracking.Allows (n.call host receiver args)) :
      (n.call host receiver args c.world).Leaves (tracking.Leaves c) := h c hc
  cases n with
  | log =>
    exact hallowed (.bind (.read _) fun _ => .bind (.calm fun _ => ⟨.refl, rfl, rfl, rfl, rfl⟩)
      fun _ => .pure _)
  | push => exact hallowed (pushAll_allowed receiver args)
  | join => exact hallowed (.bind (.read _) fun _ => .pure _)
  | values | keys => exact hallowed (iterateArray_allowed receiver _)
  | self => exact hallowed (.pure _)
  | arrayIteratorNext => exact hallowed (nextElement_allowed receiver)
  | generator m => exact hallowed (resumeGenerator_allowed hh hs receiver m _)
  | asyncGenerator m => exact leaves_of_moves (requestNext_moves hs hh receiver m _ hc)
  | promise => exact hallowed (constructPromise_allowed hh _)
  | promiseThen | promiseCatch => exact hallowed (thenPromise_allowed receiver _ _)
  | promiseResolve =>
    exact leaves_of_moves (.bind (ofValue_moves _ hc) fun _ c₁ h₁ hp =>
      .pure ((moving _ _).good h₁) hp.1)
  | promiseReject =>
    refine leaves_of_moves (.bind (newPromise_moves hc) fun p c₁ h₁ hheld => ?_)
    exact .bind (settle_moves _ (reached_of_moves h₁) hheld) fun _ c₂ h₂ hheld₂ =>
      .pure ((moving _ _).good h₂) hheld₂
  | resolve target latch =>
    exact leaves_of_moves (resolver_moves hc hn fun c' hc' hheld => resolve_moves _ hc' hheld)
  | reject target latch =>
    exact leaves_of_moves (resolver_moves hc hn fun c' hc' hheld => settle_moves _ hc' hheld)
  | error kind => exact hallowed (.bind (.calm (newError_calm _ _)) fun _ => .pure _)
  | symbol =>
    exact hallowed (.bind (.calm fun _ => ⟨.refl, rfl, rfl, rfl, rfl⟩) fun _ => .pure _)

end Natives

section Calls

variable {host : Host} {c : Config}

theorem Config.Reached.native_sound (hc : c.Reached) {f : Value} {n : Native}
    (hf : c.world.heap.callable? f = some (.native n)) :
    (Role.function (.native n)).Sound c.world.instances c.world.asyncGenerators.size
      c.log.targets := by
  obtain ⟨o, ho, hcallable⟩ := Option.bind_eq_some_iff.1 hf
  obtain ⟨id, -, ho⟩ := Option.bind_eq_some_iff.1 ho
  rw [← Object.callable?_eq_some.1 hcallable]
  exact hc.valid.sound id o ho

/-- A function with a plan is activated: an asynchronous activation comes with the right to resume it. -/
theorem newActivation_moves (plan : Plan) (scope : ScopeId) (isAsync : Bool) (hc : c.Reached) :
    (moving c.held false).Gives c (Run.edit (newActivation plan scope isAsync)) fun i c' =>
      c'.held = (if isAsync then {.own i} else 0) + c.held ∧
      c'.world.instances[i]? = some (.start plan scope isAsync) := by
  refine .edit_bind (P := fun _ (c' : Config) => c'.held = c.held)
    (moves_calm hc (le_refl _) (forM_calm _ fun _ => declare_calm _ _ _) fun _ _ => rfl)
    fun _ c₁ h₁ hheld => ?_
  refine moves_step (reached_of_moves h₁) hheld.ge (.activate plan scope isAsync) ?_ (fun _ => .refl)
    rfl ⟨?_, ?_⟩
  · rw [← hheld]
    exact Multiset.le_add_left _ _
  · rw [← hheld]
    rfl
  · exact Array.getElem?_push.trans (if_pos rfl)

theorem newGeneratorObject_moves {role : Role} (f : Value) (fallback : ObjectId) (hc : c.Reached)
    (hrole : role.isGenerator = true)
    (hsound : role.Sound c.world.instances c.world.asyncGenerators.size c.log.targets) :
    (moving c.held false).Gives c (Run.edit (newGeneratorObject f fallback role)) fun _ c' =>
      c'.held = c.held := by
  refine .edit_bind (look_moves (a := c.world.heap) hc (le_refl _) rfl) ?_
  rintro _ _ - ⟨rfl, rfl⟩
  exact moves_step hc (le_refl _) (.wrap _ hrole hsound) (le_refl _) (fun _ => .refl) rfl rfl

variable (hh : tracking.Hosts host) (hs : host.Steady)

include hh hs

theorem closure_allowed (f : Value) (k : Closure) (receiver : Value) (args : List Value) :
    tracking.Allows (k.call host f receiver args) := by
  refine .bind (enter_allowed hh k receiver args) fun scope => ?_
  cases k.routine with
  | plain => exact runBody_allowed hh k scope
  | generator plan =>
    refine allows_of_moves fun c hc => .bind (newActivation_moves plan scope false hc) ?_
    rintro i c₁ h₁ ⟨hheld, hi⟩
    have hc₁ := reached_of_moves h₁
    have hheld : c₁.held = c.held := hheld.trans (zero_add _)
    refine .bind (look_moves (a := c₁.world.realm) hc₁ hheld.ge rfl) ?_
    rintro _ _ - ⟨rfl, rfl⟩
    refine .bind (moves_mono (newGeneratorObject_moves f c₁.world.realm.generator hc₁ rfl ⟨_, hi, rfl⟩)
      hheld.ge) fun _ c₂ h₂ hheld₂ => .pure ((moving _ _).good h₂) (hheld₂.trans hheld)
  | async plan =>
    refine allows_of_moves fun c hc => .bind (newActivation_moves plan scope true hc) ?_
    rintro i c₁ h₁ ⟨hheld, -⟩
    exact startAsyncFunction_moves hs hh (reached_of_moves h₁)
      (hheld.trans (Multiset.singleton_add _ _))
  | asyncGenerator plan =>
    refine allows_of_moves fun c hc => .bind (newActivation_moves plan scope true hc) ?_
    rintro i ⟨w, held, L⟩ h₁ ⟨hheld, hi⟩
    have hc₁ := reached_of_moves h₁
    obtain rfl : held = .own i ::ₘ c.held := hheld.trans (Multiset.singleton_add _ _)
    refine .bind (P := fun id (c' : Config) => c'.held = c.held ∧ id < c'.world.asyncGenerators.size)
      (moves_step hc₁ (Multiset.le_cons_self _ _) (.newAsyncGenerator hi nofun rfl) (le_refl _)
        (fun _ => .refl) rfl ⟨rfl, ?_⟩) ?_
    · exact Nat.lt_of_lt_of_eq (Nat.lt_succ_self _) (Array.size_push _).symm
    · rintro id c₂ h₂ ⟨hheld₂, hid⟩
      have hc₂ := reached_of_moves h₂
      refine .bind (look_moves (a := c₂.world.realm) hc₂ hheld₂.ge rfl) ?_
      rintro _ _ - ⟨rfl, rfl⟩
      refine .bind (moves_mono (newGeneratorObject_moves f c₂.world.realm.asyncGenerator hc₂ rfl hid)
        hheld₂.ge) fun _ c₃ h₃ hheld₃ => .pure ((moving _ _).good h₃) (hheld₃.trans hheld₂)

omit hh hs in
theorem callFunction_apply (f receiver : Value) (args : List Value) (w : World) :
    callFunction host f receiver args w =
      (match w.heap.callable? f with
        | some (.native n) => n.call host receiver args
        | some (.closure k) => k.call host f receiver args
        | none =>
          let shown := w.heap.format f
          Run.throwType s!"{shown} is not a function" : Run Value) w := rfl

theorem callFunction_allowed (f receiver : Value) (args : List Value) :
    tracking.Allows (callFunction host f receiver args) := by
  intro c hc
  show Outcome.Leaves (tracking.Leaves c) (callFunction host f receiver args c.world)
  rw [callFunction_apply]
  cases hf : c.world.heap.callable? f with
  | none => exact Conduct.Allows.throwNew (C := tracking) _ _ c hc
  | some callable =>
    cases callable with
    | closure k => exact closure_allowed hh hs f k receiver args c hc
    | native n => exact native_leaves hh hs n receiver args hc (hc.native_sound hf)

end Calls

/-- Calls are tracked, however deep they nest. -/
theorem withFuel_tracked (fuel : Nat) : tracking.Hosts (Host.withFuel fuel) := by
  refine ⟨?_, rfl⟩
  show ∀ f receiver args, tracking.Allows (callWithin fuel f receiver args)
  induction fuel with
  | zero => exact fun _ _ _ => .exhausted
  | succ fuel ih =>
    exact fun f receiver args =>
      callFunction_allowed ⟨ih, rfl⟩ (withFuel_steady fuel) f receiver args

section Jobs

variable {host : Host} {c : Config} {H : Multiset Right}

/-- The queue keeps a generator that a job is to serve from executing. -/
theorem Config.Reached.halts (hc : c.Reached) {job : Job} (hjob : job ∈ c.world.jobs)
    {id : AsyncGeneratorId} (hid : .serving id ∈ job.rights) : c.world.Halts id := by
  have hworld : .serving id ∈ c.world.rights c.log.targets :=
    Multiset.mem_add.2 (.inl (Multiset.mem_add.2 (.inr (mem_gather.2 ⟨job, hjob, hid⟩))))
  have hdisjoint := (Multiset.nodup_add.1 hc.valid.standing.nodup).2.2
  intro a g ha hg
  obtain ⟨g', hg', -, hexec, -⟩ := hc.valid.attended.inst id a ha
  cases hg.symm.trans hg'
  exact hexec fun hheld => Multiset.disjoint_left.1 hdisjoint hheld hworld

variable (hh : tracking.Hosts host) (hs : host.Steady)

include hh hs

theorem job_ends {job : Job} (hc : c.Reached) (hH : c.held = job.rights + H)
    (hhalts : ∀ id, .serving id ∈ job.rights → c.world.Halts id) :
    (job.run host c.world).Leaves (Config.Ends H c) := by
  match job with
  | .react (.resume (.unpark cell)) s =>
    have hH : c.held = H := hH.trans (zero_add _)
    exact ends_of_moves (moves_calm (x := Edit.fillCell cell s) hc hH.ge
      (fun _ => ⟨.refl, rfl, rfl, rfl, rfl⟩) fun _ _ => hH)
  | .react (.resume (.asyncGenerator id)) s =>
    exact ends_of_moves (goOn_moves hs hh s hc (hH.trans (Multiset.singleton_add _ _))
      (hhalts id (Multiset.mem_singleton_self _)))
  | .react (.resume (.asyncFunction i p)) s =>
    refine ends_of_moves (stepAsyncFunction_moves hs hh hc ?_ rfl)
    simpa [Job.rights, Reaction.rights, Continuation.rights] using hH
  | .react (.handlers onFulfilled onRejected resolve reject) s =>
    exact (handlers_allowed hh onFulfilled onRejected resolve reject s).ends hc
      (hH.trans (zero_add _))
  | .adopt thenable method resolve reject =>
    exact (adopt_allowed hh thenable method resolve reject).ends hc (hH.trans (zero_add _))

theorem job_runs {job : Job} {jobs : List Job} (hc : c.Reached) (hjobs : c.world.jobs = job :: jobs) :
    (job.run host { c.world with jobs }).Leaves fun w => ∃ c₁ c' : Config, Dequeue c c₁ ∧
      c₁.world = { c.world with jobs } ∧ Retains c.held c₁ c' ∧ c'.held = c.held ∧ c'.world = w ∧
        c'.log.ran = c.log.ran ++ [job] := by
  have hdequeue : Dequeue c ⟨{ c.world with jobs }, job.rights + c.held,
    { c.log with ran := c.log.ran ++ [job] }⟩ := .mk hjobs
  refine (job_ends hh hs (hc.dequeue hdequeue) rfl fun id hid => ?_).mono fun w => ?_
  · exact (hc.halts (by rw [hjobs]; exact List.mem_cons_self) hid).congr rfl rfl
  · rintro ⟨c', ⟨-, hkeeps, hheld⟩, hw⟩
    exact ⟨_, c', hdequeue, rfl, hkeeps, hheld, hw, hkeeps.steps.jobs.2⟩

/-- Jobs are run one after the other, and each as a sequence of steps. -/
theorem runJobs_allowed (n : Nat) : running.Allows (runJobs host n) := by
  induction n with
  | zero => exact .exhausted
  | succ n ih =>
    intro c hc
    have hc : c.Reached := hc
    have hdequeue := dequeue_apply c.world
    cases hjobs : c.world.jobs with
    | nil =>
      rw [hjobs] at hdequeue
      have hdequeue : (liftM Edit.dequeue : Run _) c.world = .done none c.world :=
        congrArg (fun r : Option Job × World => Outcome.done r.1 r.2) hdequeue
      have hdone : runJobs host (n + 1) c.world = .done () c.world := by
        simp only [runJobs, bind, RunOn.bind, hdequeue]
        rfl
      show Outcome.Leaves _ (runJobs host (n + 1) c.world)
      rw [hdone]
      exact ⟨c, running.refl hc, rfl⟩
    | cons job jobs =>
      rw [hjobs] at hdequeue
      have hdequeue : (liftM Edit.dequeue : Run _) c.world = .done (some job) { c.world with jobs } :=
        congrArg (fun r : Option Job × World => Outcome.done r.1 r.2) hdequeue
      have hjob := job_runs hh hs hc hjobs
      show Outcome.Leaves _ (runJobs host (n + 1) c.world)
      simp only [runJobs, bind, RunOn.bind, hdequeue]
      have hback {w : World} (h : ∃ c₁ c' : Config, Dequeue c c₁ ∧ c₁.world = { c.world with jobs } ∧
          Retains c.held c₁ c' ∧ c'.held = c.held ∧ c'.world = w ∧ c'.log.ran = c.log.ran ++ [job]) :
          running.Leaves c w := by
        obtain ⟨c₁, c', hstep, -, hkeeps, hheld, hw, -⟩ := h
        exact ⟨c', ⟨hc, .head (.inr hstep) hkeeps.later, hheld⟩, hw⟩
      cases hrun : job.run host { c.world with jobs } with
      | done u w =>
        rw [hrun] at hjob
        obtain ⟨c', h', rfl⟩ := hback hjob
        refine (ih c' (running.good h')).mono fun w hw => ?_
        obtain ⟨c'', h'', rfl⟩ := hw
        exact ⟨c'', running.trans h' h'', rfl⟩
      | abrupt e w =>
        rw [hrun] at hjob
        exact hback hjob
      | exhausted => trivial

end Jobs

section Sessions

variable {c : Config}

theorem running_of_tracking {α : Type} {x : Run α} (h : tracking.Allows x) : running.Allows x := by
  intro c hc
  refine (h c hc).mono fun w => ?_
  rintro ⟨c', ⟨hc, hkeeps, hheld⟩, hw⟩
  exact ⟨c', ⟨hc, hkeeps.later, hheld⟩, hw⟩

theorem drainJobs_allowed : running.Allows Session.drainJobs :=
  runJobs_allowed (withFuel_tracked Session.fuel) (withFuel_steady Session.fuel) Session.fuel

theorem runProgram_allowed (program : List Stmt) : running.Allows (Session.runProgram program) := by
  have hbody := running_of_tracking
    (execStmts_allowed (withFuel_tracked Session.fuel) World.global .undefined program)
  refine .bind (.calm (hoistVars_calm _ program)) fun _ => .bind (instantiate_allowed _ _).attempt
    fun r => ?_
  cases r with
  | error c => exact .pure _
  | ok => exact .bind hbody.attempt fun _ => .bind drainJobs_allowed fun _ => .pure _

theorem resumeGenerator_ends (generator : Value) (a : Action) (hc : c.Reached)
    (hidle : c.world.Idle) :
    (Session.resumeGenerator generator a c.world).Leaves (tracking.Leaves c) := by
  rw [Session.resumeGenerator_apply]
  cases hid : c.world.heap.generator? generator with
  | none => exact ⟨c, tracking.refl hc, rfl⟩
  | some id =>
    have hgives := resumeSync_gives (withFuel_steady Session.fuel) (withFuel_tracked Session.fuel) hc
      (.of_idle (.of_orderly hc.orderly) (hidle id)) (Heap.isSync_of_generator? hc hid) (a := a)
    exact leaves_of_moves ((tracking_gives_iff.1 hgives).mono fun _ _ _ h => h.1)

/-- Between two requests of a host no right is in use. -/
theorem World.Hosted.reached {w : World} (h : w.Hosted) :
    ∃ c : Config, c.Reached ∧ c.held = 0 ∧ c.world = w := by
  induction h with
  | initial => exact ⟨.start, .refl, Config.start_held, Config.start_world⟩
  | program p _ hw ih =>
    obtain ⟨c, hc, hheld, rfl⟩ := ih
    obtain ⟨c', h', hw'⟩ := (runProgram_allowed p c hc).world hw
    exact ⟨c', running.good h', h'.2.2.trans hheld, hw'⟩
  | jobs _ hw ih =>
    obtain ⟨c, hc, hheld, rfl⟩ := ih
    obtain ⟨c', h', hw'⟩ := (drainJobs_allowed c hc).world hw
    exact ⟨c', running.good h', h'.2.2.trans hheld, hw'⟩
  | resume generator a h hw ih =>
    obtain ⟨c, hc, hheld, rfl⟩ := ih
    obtain ⟨c', h', hw'⟩ := (resumeGenerator_ends generator a hc h.idle.2).world hw
    exact ⟨c', tracking.good h', h'.2.2.trans hheld, hw'⟩

end Sessions

end Resumable
