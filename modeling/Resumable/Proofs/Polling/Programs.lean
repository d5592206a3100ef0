import Resumable.Proofs.Polling.Lockstep
import Resumable.Session

/-!
Programs, jobs and calls from worlds that are alike. Main statements: `withFuel_inStep`,
`runProgram_inStep`, `runJobs_inStep`, `resumeGenerator_inStep`.
-/

set_option autoImplicit false

namespace Resumable

section Asynchronous

variable {F E : Set InstanceId} {host : Host}

theorem asyncGenerator_inStep (id : AsyncGeneratorId) :
    InStep F E (Run.edit (Edit.asyncGenerator? id)) (Run.edit (Edit.asyncGenerator? id)) :=
  InStep.view (f := fun w => w.asyncGenerators[id]?) fun _ _ => rfl

theorem settleHead_inStep (id : AsyncGeneratorId) (s : Settlement) :
    InStep F E (Run.edit (AsyncGenerator.settleHead id s))
      (Run.edit (AsyncGenerator.settleHead id s)) := by
  refine .edits (asyncGenerator_inStep id) fun a => ?_
  cases a.map AsyncGenerator.queue with
  | none => exact .pure ()
  | some queue =>
    cases queue with
    | nil => exact .pure ()
    | cons r rest =>
      refine .edits (.edit (modifyAsyncGenerator_safe id fun _ => rfl)) fun _ => .edit ?_
      cases s with
      | fulfilled v => exact resolve_safe r.promise v
      | rejected v => exact reject_safe r.promise v

theorem newFailure_safe (e : Fatal) : (newFailure e).Safe F :=
  .bind (newError_safe ..) fun _ => .pure _

variable (hh : host.InStep F)

include hh

theorem serve_inStep (id : AsyncGeneratorId) {inst : InstanceId} (hi : inst ∈ E) (a : Action) :
    InStep F E (AsyncGenerator.serve host id inst a) (AsyncGenerator.serve host id inst a) := by
  have hsettle (s : Settlement) : InStep F E (do AsyncGenerator.settleHead id s; return true)
      (do AsyncGenerator.settleHead id s; return true) :=
    (settleHead_inStep id s).bind fun _ => .pure true
  refine (resume_inStep hh (.inr hi)).bind fun s => ?_
  cases s with
  | awaiting v => exact .bind (.edit (await_safe v trivial)) fun _ => .pure _
  | yielded v | returned v => exact .bind (.edit (newResult_safe v _)) fun _ => hsettle _
  | threw v => exact hsettle _
  | failed e => exact .bind (.edit (newFailure_safe e)) fun _ => hsettle _

omit hh in
theorem withGenerator_inStep {f : Option AsyncGenerator → Run Unit} (id : AsyncGeneratorId)
    (hnone : InStep F E (f none) (f none))
    (hsome : ∀ a : AsyncGenerator, a.inst ∈ E → InStep F E (f (some a)) (f (some a))) :
    InStep F E (do f (← Edit.asyncGenerator? id)) (do f (← Edit.asyncGenerator? id)) := by
  intro w w' h
  have heq : w'.asyncGenerators[id]? = w.asyncGenerators[id]? := by rw [← h.rest]
  show World.EndsAlike F E (f w.asyncGenerators[id]? w) (f w'.asyncGenerators[id]? w')
  rw [heq]
  cases ha : w.asyncGenerators[id]? with
  | none => exact hnone w w' h
  | some a => exact hsome a (h.within (h.wired.generators id a ha)) w w' h

theorem asyncDrain_inStep (id : AsyncGeneratorId) (n : Nat) :
    InStep F E (AsyncGenerator.drain host id n) (AsyncGenerator.drain host id n) := by
  induction n with
  | zero => exact .exhausted
  | succ n ih =>
    refine withGenerator_inStep id (.pure ()) fun a hi => ?_
    dsimp only
    cases a.queue with
    | nil => exact .edit (modifyAsyncGenerator_safe id fun _ => rfl)
    | cons r rest =>
      refine .bind (.edit (modifyAsyncGenerator_safe id fun _ => rfl)) fun _ =>
        (serve_inStep hh id hi r.action).bind fun more => ?_
      cases more with
      | true => exact ih
      | false => exact .pure ()

theorem requestNext_inStep (receiver : Value) (m : Method) (v : Value) :
    InStep F E (requestNext host receiver m v) (requestNext host receiver m v) := by
  refine .bind (.edit newPromise_safe) fun promise => .bind (.view fun _ _ => rfl) fun h => ?_
  cases h.asyncGenerator? receiver with
  | none =>
    exact .bind (.edit (newError_safe ..)) fun _ => .bind (.edit (reject_safe promise _))
      fun _ => .pure _
  | some id =>
    refine .bind (.edit (modifyAsyncGenerator_safe id fun _ => rfl)) fun _ =>
      (asyncGenerator_inStep id).bind fun a => ?_
    dsimp only
    split
    · exact (asyncDrain_inStep hh id _).bind fun _ => .pure _
    · exact .pure _

theorem stepAsyncFunction_inStep {inst : InstanceId} (hi : inst ∈ F) (hF : F ⊆ E) (promise : ObjectId)
    (a : Action) :
    InStep F E (stepAsyncFunction host inst promise a) (stepAsyncFunction host inst promise a) := by
  refine (resume_inStep hh (.inr (hF hi))).bind fun s => ?_
  cases s with
  | awaiting v => exact .edit (await_safe v hi)
  | returned v => exact .edit (resolve_safe promise v)
  | threw v => exact .edit (reject_safe promise v)
  | yielded => exact .bind (.edit (newError_safe ..)) fun _ => .edit (reject_safe promise _)
  | failed e => exact .bind (.edit (newFailure_safe e)) fun _ => .edit (reject_safe promise _)

theorem startAsyncFunction_inStep {inst : InstanceId} (hi : inst ∈ F) (hF : F ⊆ E) :
    InStep F E (startAsyncFunction host inst) (startAsyncFunction host inst) :=
  .bind (.edit newPromise_safe) fun promise =>
    (stepAsyncFunction_inStep hh hi hF promise _).bind fun _ => .pure _

theorem continuation_inStep {k : Continuation} (hk : k.Wired F) (hF : F ⊆ E) (s : Settlement) :
    InStep F E (k.run host s) (k.run host s) := by
  cases k with
  | unpark cell => exact .edit (fillCell_safe cell s)
  | asyncFunction inst promise => exact stepAsyncFunction_inStep hh hk hF promise _
  | asyncGenerator id =>
    refine withGenerator_inStep id (.pure ()) fun a hi => ?_
    refine (serve_inStep hh id hi _).bind fun more => ?_
    cases more with
    | true => exact asyncDrain_inStep hh id _
    | false => exact .pure ()

end Asynchronous

section Calls

variable {F E : Set InstanceId} {host : Host}

theorem throwType_inStep {α : Type} (message : String) :
    InStep F E (Run.throwType message : Run α) (Run.throwType message) :=
  .bind (.edit (newError_safe ..)) fun _ => .abrupt _

theorem pushAll_inStep (receiver : Value) (items : List Value) :
    InStep F E (Native.pushAll receiver items) (Native.pushAll receiver items) := by
  cases receiver with
  | obj id =>
    refine .bind (.view fun _ _ => rfl) fun h => ?_
    cases h.elements? (.obj id) with
    | some elements =>
      exact .bind (.edit (update_safe fun _ => rfl)) fun _ => .pure _
    | none => exact throwType_inStep _
  | _ => exact throwType_inStep _

theorem nextElement_inStep (receiver : Value) :
    InStep F E (Native.nextElement receiver) (Native.nextElement receiver) := by
  refine .bind (.view fun _ _ => rfl) fun h => ?_
  split
  · split
    · exact .bind (.edit (update_safe fun _ => rfl)) fun _ =>
        .bind (.edit (newResult_safe ..)) fun _ => .pure _
    · exact .bind (.edit (update_safe fun _ => rfl)) fun _ =>
        .bind (.edit (newResult_safe ..)) fun _ => .pure _
  · exact throwType_inStep _

theorem thenPromise_inStep (receiver onFulfilled onRejected : Value) :
    InStep F E (Native.thenPromise receiver onFulfilled onRejected)
      (Native.thenPromise receiver onFulfilled onRejected) := by
  refine .bind (.view fun _ _ => rfl) fun h => ?_
  split
  · exact .bind (.edit (derive_safe ..)) fun _ => .pure _
  · exact throwType_inStep _

theorem takeLatch_inStep (latch : LatchId) {x : Edit Unit} (hx : x.Safe F) :
    let y : Run Value := do
      if ← Edit.takeLatch latch then x
      return .undefined
    InStep F E y y := by
  refine .bind (.edit (takeLatch_safe latch)) fun was => ?_
  dsimp only
  split
  · exact .bind (.edit hx) fun _ => .pure _
  · exact .pure _

theorem newGeneratorObject_safe (f : Value) (fallback : ObjectId) {role : Role}
    (hr : ∀ state, role ≠ .promise state) : (newGeneratorObject f fallback role).Safe F := by
  refine .bind heap_safe fun h => alloc_safe fun rs hrs => ?_
  obtain ⟨h⟩ | h := role <;> simp_all [Object.promise?]

theorem newActivation_inStep {f : InstanceId → Run Value} (plan : Plan) (scope : ScopeId)
    (isAsync : Bool) (hf : ∀ inst, inst ∈ F → F ⊆ E → InStep F E (f inst) (f inst)) :
    InStep F E (do f (← newActivation plan scope isAsync))
      (do f (← newActivation plan scope isAsync)) := by
  intro w w' h
  have hslots : (plan.slots.forM fun slot => Edit.declare scope slot .var).Safe F :=
    .forM (fun _ => declare_safe ..) _
  obtain ⟨-, h⟩ := hslots.alike h
  obtain ⟨heq, hi, h⟩ := h.push (.start plan scope isAsync)
  have hrun (v : World) : (do f (← newActivation plan scope isAsync) : Run Value) v =
    (let v₁ := (plan.slots.forM (fun slot => Edit.declare scope slot .var) v).2
     let r := Edit.newInstance (.start plan scope isAsync) v₁
     f r.1 r.2) := rfl
  rw [hrun, hrun]
  dsimp only
  rw [heq]
  exact hf _ hi h.within _ _ h

variable (hh : host.InStep F)

include hh

theorem constructPromise_inStep (executor : Value) :
    InStep F E (Native.constructPromise host executor) (Native.constructPromise host executor) := by
  have hstart := InStep.bind (.edit newPromise_safe) fun promise =>
    .bind (.edit (newResolvers_safe promise)) fun r => executed_related hh.suits executor promise r E
  refine .bind (.view fun _ _ => rfl) fun h => ?_
  dsimp only
  split
  · exact (throwType_inStep _).bind fun _ => hstart
  · exact hstart

theorem nativeResume_inStep (receiver : Value) (m : Method) (v : Value) :
    InStep F E (Native.resumeGenerator host receiver m v) (Native.resumeGenerator host receiver m v) := by
  refine .bind (.view fun _ _ => rfl) fun h => ?_
  cases h.generator? receiver with
  | some id =>
    exact (resume_inStep hh (.inl (Action.isCall_ofMethod m v))).bind fun s =>
      toResult_related (lockstep F) s E
  | none => exact throwType_inStep _

theorem native_inStep (n : Native) (receiver : Value) (args : List Value) :
    InStep F E (n.call host receiver args) (n.call host receiver args) := by
  cases n with
  | log =>
    exact .bind (.view fun _ _ => rfl) fun _ => .bind (.edit (print_safe _)) fun _ => .pure _
  | push => exact pushAll_inStep receiver args
  | join => exact .bind (.view fun _ _ => rfl) fun _ => .pure _
  | values | keys => exact iterateArray_related (lockstep F) receiver _ E
  | self => exact .pure _
  | arrayIteratorNext => exact nextElement_inStep receiver
  | generator m => exact nativeResume_inStep hh receiver m _
  | asyncGenerator m => exact requestNext_inStep hh receiver m _
  | promise => exact constructPromise_inStep hh _
  | promiseThen | promiseCatch => exact thenPromise_inStep receiver _ _
  | promiseResolve => exact .bind (.edit (ofValue_safe _)) fun _ => .pure _
  | error => exact .bind (.edit (newError_safe ..)) fun _ => .pure _
  | symbol => exact .bind (.edit (newSymbol_safe _)) fun _ => .pure _
  | promiseReject =>
    exact .bind (.edit newPromise_safe) fun p => .bind (.edit (reject_safe p _)) fun _ =>
      .pure _
  | resolve target latch => exact takeLatch_inStep latch (resolve_safe target _)
  | reject target latch => exact takeLatch_inStep latch (reject_safe target _)

theorem closure_inStep (f : Value) (c : Closure) (receiver : Value) (args : List Value) :
    InStep F E (c.call host f receiver args) (c.call host f receiver args) := by
  refine (enter_related hh.suits c receiver args E).bind fun scope => ?_
  cases c.routine with
  | plain => exact runBody_related hh.suits c scope E
  | generator plan =>
    refine newActivation_inStep plan scope false fun inst _ _ => ?_
    exact .bind (.edit realm_safe) fun _ =>
      .bind (.edit (newGeneratorObject_safe _ _ nofun)) fun _ => .pure _
  | async plan =>
    exact newActivation_inStep plan scope true fun inst hi hF => startAsyncFunction_inStep hh hi hF
  | asyncGenerator plan =>
    refine newActivation_inStep plan scope true fun inst hi _ => ?_
    exact .bind (.edit (newAsyncGenerator_safe hi)) fun _ => .bind (.edit realm_safe)
      fun _ => .bind (.edit (newGeneratorObject_safe _ _ nofun)) fun _ => .pure _

theorem callFunction_inStep (f receiver : Value) (args : List Value) :
    InStep F E (callFunction host f receiver args) (callFunction host f receiver args) := by
  refine .bind (.view fun _ _ => rfl) fun h => ?_
  split
  · exact native_inStep hh _ receiver args
  · exact closure_inStep hh f _ receiver args
  · exact throwType_inStep _

end Calls

/-- Calls from worlds that are alike end alike, however deep they nest. -/
theorem withFuel_inStep (F : Set InstanceId) (fuel : Nat) : (Host.withFuel fuel).InStep F := by
  refine ⟨?_, rfl⟩
  show ∀ f receiver args E, InStep F E (callWithin fuel f receiver args) (callWithin fuel f receiver args)
  induction fuel with
  | zero => exact fun _ _ _ _ => .exhausted
  | succ fuel ih => exact fun f receiver args _ => callFunction_inStep ⟨ih, rfl⟩ f receiver args

section Jobs

variable {F E : Set InstanceId} {host : Host} (hh : host.InStep F)

include hh

theorem job_inStep {job : Job} (hj : job.Wired F) (hF : F ⊆ E) :
    InStep F E (job.run host) (job.run host) := by
  match job with
  | .react (.resume k) s => exact continuation_inStep hh hj hF s
  | .react (.handlers onFulfilled onRejected resolve reject) s =>
    exact handlers_related hh.suits onFulfilled onRejected resolve reject s E
  | .adopt thenable method resolve reject =>
    exact adopt_related hh.suits thenable method resolve reject E

theorem runJobs_inStep (n : Nat) : InStep F E (runJobs host n) (runJobs host n) := by
  induction n with
  | zero => exact .exhausted
  | succ n ih =>
    intro w w' h
    refine (InStep.edit dequeue_safe w w' h).go (P := fun job _ => ∀ j ∈ job, j.Wired F)
      (dequeue_wired h.wired) fun job v v' hj h => ?_
    cases job with
    | none => exact .done h trivial
    | some job => exact InStep.bind (job_inStep hh (hj job rfl) h.within) (fun _ => ih) v v' h

end Jobs

theorem runProgram_inStep (F E : Set InstanceId) (program : List Stmt) :
    InStep F E (Session.runProgram program) (Session.runProgram program) := by
  have hh : Session.host.InStep F := withFuel_inStep F Session.fuel
  refine .bind (hoistVars_related (R := lockstep F) (fun _ => trivial) _ program E) fun _ =>
    .bind (InStep.attempt (instantiate_related (lockstep F).toEvalRelation _ _ (fun _ _ => trivial) E))
      fun r => ?_
  cases r with
  | error c => exact .pure _
  | ok =>
    exact .bind (InStep.attempt (execStmts_suited hh.suits _ _ program E)) fun _ =>
      .bind (runJobs_inStep hh _) fun _ => .pure _

theorem drainJobs_inStep (F E : Set InstanceId) : InStep F E Session.drainJobs Session.drainJobs :=
  runJobs_inStep (withFuel_inStep F Session.fuel) _

theorem resumeGenerator_inStep (F E : Set InstanceId) (generator : Value) {a : Action}
    (ha : a.isCall = true) :
    InStep F E (Session.resumeGenerator generator a) (Session.resumeGenerator generator a) := by
  refine .bind (.view fun _ _ => rfl) fun h => ?_
  cases h.generator? generator with
  | some id => exact resume_inStep (withFuel_inStep F Session.fuel) (.inl ha)
  | none => exact .pure _

end Resumable
