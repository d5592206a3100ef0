import Resumable.Proofs.Lifecycle.Expected
import Resumable.Proofs.Polling.Programs
import Resumable.Proofs.Promises.Reached

/-!
Generators in scripts. Whatever a host runs and calls, instances that promises resume are asynchronous,
and synchronous ones get what they expect. Main statement: `scripts_resume_as_expected`.
-/

set_option autoImplicit false

namespace Resumable

section Wiring

variable {F F' : Set InstanceId} {w : World}

theorem Continuation.Wired.mono {k : Continuation} (h : k.Wired F) (hF : F ⊆ F') : k.Wired F' := by
  cases k with
  | asyncFunction => exact hF h
  | unpark | asyncGenerator => trivial

theorem Reaction.Wired.mono {r : Reaction} (h : r.Wired F) (hF : F ⊆ F') : r.Wired F' := by
  cases r with
  | resume k => exact Continuation.Wired.mono h hF
  | handlers => trivial

theorem Job.Wired.mono {job : Job} (h : job.Wired F) (hF : F ⊆ F') : job.Wired F' := by
  cases job with
  | react r s => exact Reaction.Wired.mono h hF
  | adopt => trivial

theorem World.Wired.mono (h : w.Wired F) (hF : F ⊆ F') : w.Wired F' where
  generators id a ha := hF (h.generators id a ha)
  reactions p rs hp r hr := (h.reactions p rs hp r hr).mono hF
  jobs job hj := (h.jobs job hj).mono hF

theorem settleHead_safe (id : AsyncGeneratorId) (s : Settlement) :
    (AsyncGenerator.settleHead id s).Safe F := by
  refine .bind (.of_eq (fun _ _ => rfl) (fun _ => rfl) (fun _ _ => rfl) fun _ => rfl) fun a => ?_
  cases a.map AsyncGenerator.queue with
  | none => exact .pure ()
  | some queue =>
    cases queue with
    | nil => exact .pure ()
    | cons r rest =>
      refine .bind (modifyAsyncGenerator_safe id fun _ => rfl) fun _ => ?_
      cases s with
      | fulfilled v => exact resolve_safe r.promise v
      | rejected v => exact reject_safe r.promise v

end Wiring

/-- Whether the calls of a host let all instances get what they expect. -/
structure Host.Provides (host K : Host) : Prop where
  steady : host.Steady
  hosts : (expecting K ∅).Hosts host
  within : host.Within K

section Preparing

variable {K host : Host} {own own' : Set InstanceId} {α : Type} {w : World}

/-- More may be known of the world that a run starts in. -/
theorem World.Prepared.leaves {x : Run α} (hw : w.Prepared K own) (hown : own' ⊆ w.asyncInstances)
    (hx : (expecting K own').Allows x) : (x w).Leaves ((expecting K own).Leaves w) :=
  (hx w ⟨hw.orderly, hw.wired, hw.accounts, hown⟩).mono fun _ h => ⟨h.1, h.2.1, hw.owns⟩

theorem allows_any {x : Run α} (hx : (expecting K ∅).Allows x) : (expecting K own).Allows x :=
  fun _ hw => hw.leaves (Set.empty_subset _) hx

theorem edit_expected {x : Edit α} (hsteady : (Run.edit x : Run α).Steady)
    (hsafe : ∀ F, own ⊆ F → x.Safe F) : (expecting K own).Allows (Run.edit x : Run α) := by
  intro w hw
  have hsafe := hsafe w.asyncInstances hw.owns
  have hsame : (x w).2.asyncInstances = w.asyncInstances :=
    World.asyncInstances_congr (congrArg (·.2.instances) (hsafe.blind w w.instances))
  refine ⟨hsteady w hw.orderly, ⟨?_, ?_, hsame.ge⟩, hw.owns⟩
  · exact hsame ▸ hsafe.wired w hw.wired
  · exact hw.accounts.congr (congrArg (·.2.instances) (hsafe.blind w w.instances))

theorem kept_expected {x : Edit α} (hx : x.KeepsActivations) (hsafe : ∀ F, own ⊆ F → x.Safe F) :
    (expecting K own).Allows (Run.edit x : Run α) := edit_expected (.edit hx) hsafe

theorem settleHead_expected (id : AsyncGeneratorId) (s : Settlement) :
    (expecting K own).Allows (Run.edit (AsyncGenerator.settleHead id s) : Run Unit) :=
  edit_expected (settleHead_steady id s) fun _ _ => settleHead_safe id s

theorem newFailure_expected (e : Fatal) :
    (expecting K own).Allows (Run.edit (newFailure e) : Run Value) :=
  kept_expected (fun _ => ⟨rfl, rfl⟩) fun _ _ => newFailure_safe e

theorem await_expected (v : Value) {k : Continuation} (hk : k.Wired own) :
    (expecting K own).Allows (Run.edit (Promise.await v k) : Run Unit) :=
  kept_expected (await_keepsActivations v k) fun _ hF => await_safe v (hk.mono hF)

theorem resolve_expected (promise : ObjectId) (v : Value) :
    (expecting K own).Allows (Run.edit (Promise.resolve promise v) : Run Unit) :=
  kept_expected (resolve_keepsActivations promise v) fun _ _ => resolve_safe promise v

theorem reject_expected (promise : ObjectId) (v : Value) :
    (expecting K own).Allows (Run.edit (Promise.reject promise v) : Run Unit) :=
  kept_expected (settle_keepsActivations promise _) fun _ _ => reject_safe promise v

theorem newPromise_expected : (expecting K own).Allows (Run.edit Edit.newPromise : Run ObjectId) :=
  kept_expected (fun _ => ⟨rfl, rfl⟩) fun _ _ => newPromise_safe

theorem newInstance_expected (plan : Plan) (base : ScopeId) (isAsync : Bool) (hw : w.Prepared K ∅) :
    let r := Edit.newInstance (.start plan base isAsync) w
    r.2.Prepared K (if isAsync then {r.1} else ∅) ∧ (expecting K ∅).Leaves w r.2 := by
  intro r
  have hkept : Kept w r.2 := newInstance_steady plan base isAsync w hw.orderly
  have hinstances : r.2.instances = w.instances.push (.start plan base isAsync) := rfl
  have hpush (i : InstanceId) (g : Instance) : r.2.instances[i]? = some g →
      w.instances[i]? = some g ∨ i = r.1 ∧ g = .start plan base isAsync := by
    intro hg
    rw [hinstances, Array.getElem?_push] at hg
    split at hg
    · rename_i hi
      exact .inr ⟨hi, (Option.some.inj hg).symm⟩
    · exact .inl hg
  have hgrows : w.asyncInstances ⊆ r.2.asyncInstances := by
    rintro i ⟨g, hg, hasync⟩
    refine ⟨g, ?_, hasync⟩
    obtain ⟨hlt, -⟩ := Array.getElem?_eq_some_iff.1 hg
    rw [hinstances, Array.getElem?_push, if_neg (Nat.ne_of_lt hlt)]
    exact hg
  have hwired : r.2.Wired r.2.asyncInstances :=
    World.Wired.congr (w := w) (hw.wired.mono hgrows) rfl (fun _ => rfl) rfl
  have haccounts : r.2.Accounts K [] := by
    intro i g hi hg hc
    obtain hg | ⟨-, rfl⟩ := hpush i g hg
    · exact hw.accounts i g hi hg hc
    · refine ⟨fun _ => ⟨base, ?_⟩, ?_⟩
      · rw [← hc.1]
        rfl
      · rintro ⟨⟩
  refine ⟨⟨hkept.orderly, hwired, haccounts, ?_⟩, hkept, ⟨hwired, haccounts, hgrows⟩, hw.owns⟩
  cases isAsync with
  | false => exact Set.empty_subset _
  | true =>
    rw [if_pos rfl, Set.singleton_subset_iff]
    refine ⟨.start plan base true, ?_, rfl⟩
    rw [hinstances]
    exact Array.getElem?_push_size

theorem newActivation_expected {f : InstanceId → Run Value} (plan : Plan) (scope : ScopeId)
    (isAsync : Bool) (hf : ∀ inst, (expecting K (if isAsync then {inst} else ∅)).Allows (f inst)) :
    (expecting K ∅).Allows (do f (← newActivation plan scope isAsync)) := by
  have hslots : (expecting K ∅).Allows
      (Run.edit (plan.slots.forM fun slot => Edit.declare scope slot .var) : Run Unit) :=
    kept_expected (forM_keepsActivations _ fun _ _ => ⟨rfl, rfl⟩) fun _ _ =>
      .forM (fun _ => declare_safe ..) _
  have hnew : (expecting K ∅).Allows
      (do f (← Edit.newInstance (.start plan scope isAsync)) : Run Value) := by
    intro w hw
    obtain ⟨hprepared, hleaves⟩ := newInstance_expected plan scope isAsync hw
    exact (hf _ _ hprepared).mono fun _ h =>
      ⟨hleaves.1.trans h.1, hleaves.2.1.trans h.2.1, hw.owns⟩
  show (expecting K ∅).Allows (Run.edit (plan.slots.forM fun slot => Edit.declare scope slot .var) >>=
    fun _ => (do f (← Edit.newInstance (.start plan scope isAsync)) : Run Value))
  exact .bind hslots fun _ => hnew

theorem derive_keepsActivations (p : ObjectId) (onFulfilled onRejected : Value) :
    (Promise.derive p onFulfilled onRejected).KeepsActivations :=
  .bind (fun _ => ⟨rfl, rfl⟩) fun _ => .bind (fun _ => ⟨rfl, rfl⟩) fun _ => .bind (fun _ => ⟨rfl, rfl⟩)
    fun _ => .bind (addReaction_keepsActivations _ _) fun _ => .pure _

theorem thenPromise_expected (receiver onFulfilled onRejected : Value) :
    (expecting K own).Allows (Native.thenPromise receiver onFulfilled onRejected) := by
  refine .bind (.read _) fun h => ?_
  split
  · exact .bind (kept_expected (derive_keepsActivations _ onFulfilled onRejected) fun _ _ =>
      derive_safe _ onFulfilled onRejected) fun _ => .pure _
  · exact .throwNew _ _

theorem takeLatch_expected (latch : LatchId) {x : Edit Unit}
    (hx : (expecting K own).Allows (Run.edit x : Run Unit)) : (expecting K own).Allows (do
      if ← Edit.takeLatch latch then x
      return .undefined : Run Value) := by
  refine .bind (kept_expected (fun _ => ⟨rfl, rfl⟩) fun _ _ => takeLatch_safe latch) fun was => ?_
  dsimp only
  split
  · exact .bind hx fun _ => .pure _
  · exact .pure _

end Preparing

section Calls

variable {K host : Host} {own : Set InstanceId} (hh : host.Provides K)

include hh

theorem Host.Provides.resume {id : InstanceId} {a : Action}
    (ha : a.isCall = true ∨ id ∈ own ∧ a.endsDelegate = false) :
    (expecting K own).Allows (resume host id a) := resume_expected hh.steady hh.hosts hh.within ha

theorem serve_expected (id : AsyncGeneratorId) {inst : InstanceId} (hi : inst ∈ own) {a : Action}
    (ha : a.endsDelegate = false) : (expecting K own).Allows (AsyncGenerator.serve host id inst a) := by
  have hsettle (s : Settlement) : (expecting K own).Allows
      (do AsyncGenerator.settleHead id s; return true : Run Bool) :=
    .bind (settleHead_expected id s) fun _ => .pure true
  refine .bind (hh.resume (.inr ⟨hi, ha⟩)) fun s => ?_
  cases s with
  | awaiting v => exact .bind (await_expected v trivial) fun _ => .pure _
  | yielded v | returned v => exact .bind (.calm (newResult_calm v _)) fun _ => hsettle _
  | threw v => exact hsettle _
  | failed e => exact .bind (newFailure_expected e) fun _ => hsettle _

theorem asyncDrain_expected (id : AsyncGeneratorId) (n : Nat) :
    (expecting K own).Allows (AsyncGenerator.drain host id n) := by
  induction n generalizing own with
  | zero => exact .exhausted
  | succ n ih =>
    have hmark {own : Set InstanceId} (b : Bool) : (expecting K own).Allows
        (Run.edit (Edit.modifyAsyncGenerator id fun a => { a with running := b }) : Run Unit) :=
      edit_expected (modifyAsyncGenerator_steady id fun _ _ hr => .inl hr) fun _ _ =>
        modifyAsyncGenerator_safe id fun _ => rfl
    -- the body and the requests are those of the world itself
    show ∀ w : World, w.Prepared K own →
      (AsyncGenerator.drain host id (n + 1) w).Leaves ((expecting K own).Leaves w)
    intro w hw
    rw [drain_apply]
    cases ha : w.asyncGenerators[id]? with
    | none => exact (expecting K own).leaves_iff.2 ⟨w, (expecting K own).refl hw, rfl⟩
    | some a =>
      dsimp only
      cases hq : a.queue with
      | nil => exact hmark false w hw
      | cons r rest =>
        have hr := hw.orderly.requests id a ha r (by rw [hq]; exact List.mem_cons_self)
        have hinst : {a.inst} ⊆ w.asyncInstances :=
          Set.singleton_subset_iff.2 (hw.wired.generators id a ha)
        refine hw.leaves hinst (Conduct.Allows.bind (hmark true) fun _ =>
          .bind (serve_expected hh id (Set.mem_singleton _) hr) fun more => ?_)
        cases more with
        | true => exact ih
        | false => exact .pure _

theorem requestNext_expected (receiver : Value) (m : Method) (v : Value) :
    (expecting K own).Allows (requestNext host receiver m v) := by
  refine .bind newPromise_expected fun promise => .bind (.read _) fun h => ?_
  cases h.asyncGenerator? receiver with
  | none =>
    exact .bind (.calm (newError_calm _ _)) fun _ => .bind (reject_expected promise _) fun _ => .pure _
  | some id =>
    refine .bind (edit_expected (modifyAsyncGenerator_steady id fun a r hr => ?_) fun _ _ =>
      modifyAsyncGenerator_safe id fun _ => rfl) fun _ =>
      .bind (.read fun w => w.asyncGenerators[id]?) fun a => ?_
    · obtain hr | hr := List.mem_append.1 hr
      · exact .inl hr
      · rw [List.mem_singleton.1 hr]
        exact .inr (Action.endsDelegate_of_isCall (Action.isCall_ofMethod m v))
    · dsimp only
      split
      · exact .bind (asyncDrain_expected hh id _) fun _ => .pure _
      · exact .pure _

theorem stepAsyncFunction_expected {inst : InstanceId} (hi : inst ∈ own) (promise : ObjectId)
    {a : Action} (ha : a.endsDelegate = false) :
    (expecting K own).Allows (stepAsyncFunction host inst promise a) := by
  refine .bind (hh.resume (.inr ⟨hi, ha⟩)) fun s => ?_
  cases s with
  | awaiting v => exact await_expected v hi
  | returned v => exact resolve_expected promise v
  | threw v => exact reject_expected promise v
  | yielded => exact .bind (.calm (newError_calm _ _)) fun _ => reject_expected promise _
  | failed e => exact .bind (newFailure_expected e) fun _ => reject_expected promise _

theorem startAsyncFunction_expected {inst : InstanceId} (hi : inst ∈ own) :
    (expecting K own).Allows (startAsyncFunction host inst) :=
  .bind newPromise_expected fun promise =>
    .bind (stepAsyncFunction_expected hh hi promise rfl) fun _ => .pure _

omit hh in
theorem continuation_apply (id : AsyncGeneratorId) (s : Settlement) (w : World) :
    (Continuation.asyncGenerator id).run host s w = (match w.asyncGenerators[id]? with
      | none => return ()
      | some a => do
        if ← AsyncGenerator.serve host id a.inst (.settled s) then
          AsyncGenerator.drain host id host.fuel : Run Unit) w := rfl

theorem continuation_expected {k : Continuation} (hk : k.Wired own) (s : Settlement) :
    (expecting K own).Allows (k.run host s) := by
  cases k with
  | unpark cell =>
    exact kept_expected (x := Edit.fillCell cell s) (fun _ => ⟨rfl, rfl⟩) fun _ _ => fillCell_safe cell s
  | asyncFunction inst promise => exact stepAsyncFunction_expected hh hk promise rfl
  | asyncGenerator id =>
    show ∀ w : World, w.Prepared K own →
      ((Continuation.asyncGenerator id).run host s w).Leaves ((expecting K own).Leaves w)
    intro w hw
    rw [continuation_apply]
    cases ha : w.asyncGenerators[id]? with
    | none => exact (expecting K own).leaves_iff.2 ⟨w, (expecting K own).refl hw, rfl⟩
    | some a =>
      have hinst : {a.inst} ⊆ w.asyncInstances :=
        Set.singleton_subset_iff.2 (hw.wired.generators id a ha)
      refine hw.leaves hinst
        (Conduct.Allows.bind (serve_expected hh id (Set.mem_singleton _) rfl) fun more => ?_)
      cases more with
      | true => exact asyncDrain_expected hh id _
      | false => exact .pure _

theorem constructPromise_expected (executor : Value) :
    (expecting K ∅).Allows (Native.constructPromise host executor) := by
  have hstart : (expecting K ∅).Allows (Native.startPromise host executor) :=
    .bind newPromise_expected fun _ =>
      .bind (kept_expected (fun _ => ⟨rfl, rfl⟩) fun _ _ => newResolvers_safe _) fun _ =>
        construct_allowed hh.hosts _ _ _
  refine .bind (.read _) fun h => ?_
  dsimp only
  split
  · exact .bind (.throwNew _ _) fun _ => hstart
  · exact hstart

theorem resumeGenerator_expected (receiver : Value) (m : Method) (v : Value) :
    (expecting K ∅).Allows (Native.resumeGenerator host receiver m v) := by
  refine .bind (.read _) fun h => ?_
  cases h.generator? receiver with
  | some id => exact .bind (hh.resume (.inl (Action.isCall_ofMethod m v))) toResult_allowed
  | none => exact .throwNew _ _

theorem native_expected (n : Native) (receiver : Value) (args : List Value) :
    (expecting K ∅).Allows (n.call host receiver args) := by
  cases n with
  | log =>
    exact .bind (.read _) fun _ =>
      .bind (kept_expected (fun _ => ⟨rfl, rfl⟩) fun _ _ => print_safe _) fun _ => .pure _
  | push => exact pushAll_allowed receiver args
  | join => exact .bind (.read _) fun _ => .pure _
  | values | keys => exact iterateArray_allowed receiver _
  | self => exact .pure _
  | arrayIteratorNext => exact nextElement_allowed receiver
  | generator m => exact resumeGenerator_expected hh receiver m _
  | asyncGenerator m => exact requestNext_expected hh receiver m _
  | promise => exact constructPromise_expected hh _
  | promiseThen | promiseCatch => exact thenPromise_expected receiver _ _
  | promiseResolve =>
    exact .bind (kept_expected (ofValue_keepsActivations _) fun _ _ => ofValue_safe _) fun _ => .pure _
  | error => exact .bind (.calm (newError_calm _ _)) fun _ => .pure _
  | symbol =>
    exact .bind (kept_expected (fun _ => ⟨rfl, rfl⟩) fun _ _ => newSymbol_safe _) fun _ => .pure _
  | promiseReject =>
    exact .bind newPromise_expected fun p => .bind (reject_expected p _) fun _ => .pure _
  | resolve target latch => exact takeLatch_expected latch (resolve_expected target _)
  | reject target latch => exact takeLatch_expected latch (reject_expected target _)

theorem closure_expected (f : Value) (c : Closure) (receiver : Value) (args : List Value) :
    (expecting K ∅).Allows (c.call host f receiver args) := by
  have hobject {own : Set InstanceId} (fallback : ObjectId) {role : Role}
      (hrole : ∀ state, role ≠ .promise state) :
      (expecting K own).Allows (do return .obj (← newGeneratorObject f fallback role) : Run Value) :=
    .bind (kept_expected (fun _ => ⟨rfl, rfl⟩) fun _ _ => newGeneratorObject_safe f fallback hrole)
      fun _ => .pure _
  refine .bind (enter_allowed hh.hosts c receiver args) fun scope => ?_
  cases c.routine with
  | plain => exact runBody_allowed hh.hosts c scope
  | generator plan =>
    exact newActivation_expected plan scope false fun inst =>
      .bind (.read _) fun _ => hobject _ (by simp)
  | async plan =>
    exact newActivation_expected plan scope true fun inst =>
      startAsyncFunction_expected hh (Set.mem_singleton _)
  | asyncGenerator plan =>
    refine newActivation_expected plan scope true fun inst => .bind ?_ fun id =>
      .bind (.read _) fun _ => hobject _ (by simp)
    exact edit_expected (newAsyncGenerator_steady inst) fun F hF =>
      newAsyncGenerator_safe (hF (Set.mem_singleton _))

theorem callFunction_expected (f receiver : Value) (args : List Value) :
    (expecting K ∅).Allows (callFunction host f receiver args) := by
  refine .bind (.read _) fun h => ?_
  split
  · exact native_expected hh _ receiver args
  · exact closure_expected hh f _ receiver args
  · exact .throwNew _ _

end Calls

/-- Calls provide for instances, however deep they nest. -/
theorem withFuel_provides {n m : Nat} (hn : n ≤ m) : (Host.withFuel n).Provides (.withFuel m) := by
  refine ⟨withFuel_steady n, ⟨?_, rfl⟩, withFuel_within hn⟩
  show ∀ f receiver args, (expecting (.withFuel m) ∅).Allows (callWithin n f receiver args)
  induction n with
  | zero => exact fun _ _ _ => .exhausted
  | succ n ih =>
    have hle : n ≤ m := Nat.le_of_succ_le hn
    exact fun f receiver args =>
      callFunction_expected ⟨withFuel_steady n, ⟨ih hle, rfl⟩, withFuel_within hle⟩ f receiver args

section Jobs

variable {K host : Host} (hh : host.Provides K)

include hh

theorem job_expected {own : Set InstanceId} {job : Job} (hj : job.Wired own) :
    (expecting K own).Allows (job.run host) := by
  cases job with
  | adopt thenable method resolve reject =>
    exact allows_any (adopt_allowed hh.hosts thenable method resolve reject)
  | react r s =>
    cases r with
    | resume k => exact continuation_expected hh hj s
    | handlers onFulfilled onRejected resolve reject =>
      exact allows_any (handlers_allowed hh.hosts onFulfilled onRejected resolve reject s)

omit hh in
theorem runJobs_apply (n : Nat) (w : World) :
    runJobs host (n + 1) w = (match (Edit.dequeue w).1 with
      | none => return ()
      | some job => do
        job.run host
        runJobs host n : Run Unit) (Edit.dequeue w).2 := rfl

theorem runJobs_expected (n : Nat) : (expecting K ∅).Allows (runJobs host n) := by
  induction n with
  | zero => exact .exhausted
  | succ n ih =>
    show ∀ w : World, w.Prepared K ∅ → (runJobs host (n + 1) w).Leaves ((expecting K ∅).Leaves w)
    intro w hw
    have hdequeue : (expecting K ∅).Leads w (Edit.dequeue w).2 :=
      kept_expected dequeue_keepsActivations (fun _ _ => dequeue_safe) w hw
    have hwired := dequeue_wired hw.wired
    rw [runJobs_apply]
    generalize Edit.dequeue w = r at hdequeue hwired
    obtain ⟨job, w₁⟩ := r
    cases job with
    | none => exact hdequeue
    | some job =>
      have hw₁ : w₁.Prepared K ∅ := (expecting K ∅).good hdequeue
      have hjob := job_expected hh ((hwired job rfl).mono hdequeue.2.1.grows)
      exact (hw₁.leaves subset_rfl (hjob.bind fun _ => allows_any ih)).mono fun _ =>
        (expecting K ∅).trans hdequeue

end Jobs

theorem runProgram_expected (program : List Stmt) :
    (expecting Session.host ∅).Allows (Session.runProgram program) := by
  have hh : Session.host.Provides Session.host := withFuel_provides le_rfl
  refine .bind (.calm (hoistVars_calm _ program)) fun _ =>
    .bind (Conduct.Allows.attempt (instantiate_allowed _ _)) fun r => ?_
  cases r with
  | error c => exact .pure _
  | ok =>
    exact .bind (Conduct.Allows.attempt (execStmts_allowed hh.hosts _ _ program)) fun _ =>
      .bind (runJobs_expected hh _) fun _ => .pure _

theorem sessionResume_expected (generator : Value) {a : Action} (ha : a.isCall = true) :
    (expecting Session.host ∅).Allows (Session.resumeGenerator generator a) := by
  have hh : Session.host.Provides Session.host := withFuel_provides le_rfl
  refine .bind (.read _) fun h => ?_
  cases h.generator? generator with
  | some id => exact hh.resume (.inl ha)
  | none => exact .pure _

theorem World.Untouched.prepared {K : Host} {w : World} (h : w.Untouched) : w.Prepared K ∅ := by
  have hnone (i : InstanceId) (g : Instance) : w.instances[i]? ≠ some g := by
    simp [h.instances]
  refine ⟨⟨fun i g hg => (hnone i g hg).elim, fun id a ha => ?_⟩,
    ⟨fun id a ha => ?_, fun p rs hp => ?_, ?_⟩, fun i g _ hg => (hnone i g hg).elim, Set.empty_subset _⟩
  · simp [h.asyncGenerators] at ha
  · simp [h.asyncGenerators] at ha
  · cases (h.promise? p).symm.trans hp
  · simp [h.jobs]

/-- The worlds that scripts come to: a host runs programs and jobs, and calls generators. -/
inductive World.Scripted : World → Prop where
  | initial : Scripted .initial
  | program {w w' : World} (program : List Stmt) : Scripted w →
    (Session.runProgram program w).world? = some w' → Scripted w'
  | jobs {w w' : World} : Scripted w → (Session.drainJobs w).world? = some w' → Scripted w'
  | call {w w' : World} (generator : Value) {a : Action} : a.isCall = true → Scripted w →
    (Session.resumeGenerator generator a w).world? = some w' → Scripted w'

theorem World.Scripted.prepared {w : World} (h : w.Scripted) : w.Prepared Session.host ∅ := by
  have hgood {w w' : World} (h : (expecting Session.host ∅).Leaves w w') : w'.Prepared Session.host ∅ :=
    (expecting Session.host ∅).good h
  induction h with
  | initial => exact initial_untouched.prepared
  | program p _ hw ih => exact hgood ((runProgram_expected p _ ih).world hw)
  | jobs _ hw ih => exact hgood ((runJobs_expected (withFuel_provides le_rfl) _ _ ih).world hw)
  | call generator ha _ hw ih => exact hgood ((sessionResume_expected generator ha _ ih).world hw)

theorem World.Scripted.hosted {w : World} (h : w.Scripted) : w.Hosted := by
  induction h with
  | initial => exact .initial
  | program p _ hw ih => exact .program p ih hw
  | jobs _ hw ih => exact .jobs ih hw
  | call generator _ _ hw ih => exact .resume generator _ ih hw

/-- In every world that scripts come to, a synchronous generator with a closed plan is suspended only
where a run has led in which it has got what it expects each time, and it keeps its cursor there; what the
next call makes it go on with it expects too. -/
theorem scripts_resume_as_expected {w : World} (hw : w.Scripted) {id : InstanceId} {g : Instance}
    (hg : w.instances[id]? = some g) (hsync : g.isAsync = false) (hplan : g.plan.Closed) :
    (g.status = .suspendedYield → ∃ base g₀ p,
      WaitedFor Session.host (.running g.plan base false) (.pause g₀ p) ∧
      (∃ status parked, g = { g₀ with status, parked }) ∧
      (Turn.pause g₀ p).KeepsCursor Session.host) ∧
    ∀ a g' b w', a.isCall = true → g.status ≠ .completed →
      unpark id g a w = (.ok (g', b), w') → g'.Takes Session.host b := by
  have hprepared := hw.prepared
  refine ⟨fun hs => ?_, fun a g' b w' ha hend h => ?_⟩
  · obtain ⟨⟨base, g₀, p, hwaited, -, hsame⟩, -⟩ :=
      (hprepared.accounts id g List.not_mem_nil hg ⟨hsync, hplan⟩).rests hs
    exact ⟨base, g₀, p, hwaited, hsame, hwaited.keepsCursor hplan⟩
  · have hfreed := unpark_expected hprepared hg fun _ => .inl ha
    simp only [Run.edit, HasWorld.world, HasWorld.setWorld, id_eq, h] at hfreed
    obtain ⟨awaiting, rfl⟩ := hfreed.freed
    refine hfreed.takes ⟨hsync, hplan⟩ hend fun hexec => ?_
    cases hs : g.status with
    | executing => exact (hw.hosted.idle.2 id (by rw [World.statusAt?, hg, Option.map_some, hs])).elim
    | _ => cases hs.symm.trans hexec

/-- A generator that a script has called once. -/
theorem scripts_resume_as_expected_yield : ∃ (w : World) (g : Instance), w.Scripted ∧
    w.instances[0]? = some g ∧ g.status = .suspendedYield ∧ ∃ base g₀ p,
      WaitedFor Session.host (.running g.plan base false) (.pause g₀ p) ∧
      (∃ status parked, g = { g₀ with status, parked }) ∧
      (Turn.pause g₀ p).KeepsCursor Session.host := by
  let program : List Stmt :=
    [.function "g" (.mk 0 .generator [] [.expr (.yield none)]),
      .declare .var [.mk (.ident "it") (some (.call (.ident "g") []))],
      .expr (.call (.dot (.ident "it") "next") [])]
  have hrun : ((Session.runProgram program .initial).world?.bind fun w => w.instances[0]?.map fun g =>
      (g.status, g.isAsync, g.plan.validate.isOk)) = some (.suspendedYield, false, true) := by
    decide +kernel
  obtain ⟨w, hw, hrun⟩ := Option.bind_eq_some_iff.1 hrun
  obtain ⟨g, hg, hrun⟩ := Option.map_eq_some_iff.1 hrun
  obtain ⟨hs, hrun⟩ := Prod.mk.inj hrun
  obtain ⟨hsync, hvalid⟩ := Prod.mk.inj hrun
  have hplan : g.plan.Closed := by
    refine validate_iff_closed.1 ?_
    cases h : g.plan.validate with
    | ok => rfl
    | error => simp [h, Except.isOk, Except.toBool] at hvalid
  have hscripted : w.Scripted := .program program .initial hw
  exact ⟨w, g, hscripted, hg, hs, (scripts_resume_as_expected hscripted hg hsync hplan).1 hs⟩

end Resumable
