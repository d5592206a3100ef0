import Resumable.Session
import Resumable.Proofs.Lifecycle.Chains

/-!
Generators over whole programs. Main statement: `generators_settle`: between the requests of a host no
instance executes, a resumption leaves the instances that it has gone through suspended or ended, and
an instance that executes cannot be resumed.
-/

set_option autoImplicit false

namespace Resumable

section Resuming

variable {host : Host} (hh : host.Steady)

include hh

theorem resume_yields {w : World} {id : InstanceId} {a : Action} (h : Asked w id [] a w) :
    (resume host id a w).Yields fun s w' => Kept w w' ∧
      ∃ chain, Passage host [] id a w chain s ∧ Settled w chain s w' :=
  resumeChain_yields hh host.fuel h

theorem resume_steady (id : InstanceId) {a : Action} (ha : a.endsDelegate = false) :
    (resume host id a).Steady := fun _ hw =>
  (resume_yields hh (.of_call (.of_orderly hw) ha)).leaves fun _ _ h => h.1

end Resuming

section Edits

theorem newInstance_steady (plan : Plan) (base : ScopeId) (isAsync : Bool) :
    (Run.edit (Edit.newInstance (.start plan base isAsync)) : Run InstanceId).Steady := by
  intro w hw
  have hpush : ∀ (i : InstanceId) (g : Instance),
      (w.instances.push (.start plan base isAsync))[i]? = some g →
      w.instances[i]? = some g ∨ g = .start plan base isAsync := by
    intro i g hg
    rw [Array.getElem?_push] at hg
    split at hg
    · exact .inr (Option.some.inj hg).symm
    · exact .inl hg
  refine ⟨⟨fun i g hg hp => ?_, hw.requests⟩, fun i g hg he => ?_, fun i g hg he => ?_⟩
  · obtain h | rfl := hpush i g hg
    · exact hw.parked i g h hp
    · cases hp
  · obtain ⟨hlt, -⟩ := Array.getElem?_eq_some_iff.1 hg
    refine (Array.getElem?_push_lt hlt).trans ?_
    rw [← Array.getElem?_eq_getElem hlt]
    exact hg
  · obtain h | rfl := hpush i g hg
    · exact h
    · cases he

theorem modifyAsyncGenerator_steady (id : AsyncGeneratorId) {f : AsyncGenerator → AsyncGenerator}
    (hf : ∀ a, ∀ r ∈ (f a).queue, r ∈ a.queue ∨ r.action.endsDelegate = false) :
    (Run.edit (Edit.modifyAsyncGenerator id f) : Run Unit).Steady := by
  intro w hw
  refine ⟨⟨hw.parked, fun i a ha r hr => ?_⟩, fun i g hg _ => hg, fun i g hg _ => hg⟩
  have ha : (w.asyncGenerators.modify id f)[i]? = some a := ha
  rw [Array.getElem?_modify] at ha
  split at ha
  · obtain ⟨b, hb, rfl⟩ := Option.map_eq_some_iff.1 ha
    exact (hf b r hr).elim (hw.requests i b hb r) fun h => h
  · exact hw.requests i a ha r hr

theorem RunOn.Steady.edit_bind {α β : Type} {x : Edit α} {f : α → Edit β}
    (hx : (Run.edit x : Run α).Steady) (hf : ∀ a, (Run.edit (f a) : Run β).Steady) :
    (Run.edit (x >>= f) : Run β).Steady :=
  .bind hx hf

theorem newAsyncGenerator_steady (inst : InstanceId) :
    (Run.edit (Edit.newAsyncGenerator inst) : Run AsyncGeneratorId).Steady := by
  intro w hw
  refine ⟨⟨hw.parked, fun i a ha r hr => ?_⟩, fun i g hg _ => hg, fun i g hg _ => hg⟩
  have ha : (w.asyncGenerators.push ⟨inst, [], false⟩)[i]? = some a := ha
  rw [Array.getElem?_push] at ha
  split at ha
  · cases ha
    cases hr
  · exact hw.requests i a ha r hr

theorem settleBy_steady (promise : ObjectId) (s : Settlement) :
    (Run.edit (match s with
      | .fulfilled v => Promise.resolve promise v
      | .rejected v => Promise.reject promise v) : Run Unit).Steady := by
  cases s with
  | fulfilled v => exact .edit (resolve_keepsActivations promise v)
  | rejected v => exact .edit (settle_keepsActivations promise _)

theorem settleHead_apply (id : AsyncGeneratorId) (s : Settlement) (w : World) :
    (Run.edit (AsyncGenerator.settleHead id s) : Run Unit) w =
      (Run.edit (match w.asyncGenerators[id]?.map AsyncGenerator.queue with
        | some (r :: rest) => do
          Edit.modifyAsyncGenerator id fun a => { a with queue := rest }
          match s with
          | .fulfilled v => Promise.resolve r.promise v
          | .rejected v => Promise.reject r.promise v
        | some [] | none => return ()) : Run Unit) w := rfl

theorem settleHead_steady (id : AsyncGeneratorId) (s : Settlement) :
    (Run.edit (AsyncGenerator.settleHead id s) : Run Unit).Steady := by
  intro w hw
  rw [settleHead_apply]
  cases ha : w.asyncGenerators[id]? with
  | none => exact .refl hw
  | some a =>
    rw [Option.map_some]
    cases hq : a.queue with
    | nil => exact .refl hw
    | cons r rest =>
      -- what is left of the queue was in it before
      refine RunOn.Steady.edit_bind (modifyAsyncGenerator_steady id fun _ r' hr => .inr ?_)
        (fun _ => settleBy_steady r.promise s) w hw
      exact hw.requests id a ha r' (by rw [hq]; exact List.mem_cons_of_mem _ hr)

end Edits

section Calls

variable {host : Host} (hh : host.Steady)

include hh

theorem serve_steady (id : AsyncGeneratorId) (inst : InstanceId) {a : Action}
    (ha : a.endsDelegate = false) : (AsyncGenerator.serve host id inst a).Steady := by
  refine .bind (resume_steady hh inst ha) fun s => ?_
  cases s with
  | awaiting v => exact .bind (.edit (await_keepsActivations v _)) fun _ => .pure _
  | threw => exact .bind (settleHead_steady id _) fun _ => .pure _
  | yielded | returned | failed =>
    exact .bind (.edit fun _ => ⟨rfl, rfl⟩) fun _ => .bind (settleHead_steady id _) fun _ => .pure _

omit hh in
theorem drain_apply (id : AsyncGeneratorId) (n : Nat) (w : World) :
    AsyncGenerator.drain host id (n + 1) w =
      (match w.asyncGenerators[id]? with
        | none => return ()
        | some a =>
          match a.queue with
          | [] => Edit.modifyAsyncGenerator id fun a => { a with running := false }
          | r :: _ => do
            Edit.modifyAsyncGenerator id fun a => { a with running := true }
            if ← AsyncGenerator.serve host id a.inst r.action then
              AsyncGenerator.drain host id n : Run Unit) w := rfl

theorem asyncDrain_steady (id : AsyncGeneratorId) (n : Nat) :
    (AsyncGenerator.drain host id n).Steady := by
  induction n with
  | zero => exact .exhausted
  | succ n ih =>
    have hmark (b : Bool) : (Run.edit (Edit.modifyAsyncGenerator id fun a => { a with running := b }) :
        Run Unit).Steady :=
      modifyAsyncGenerator_steady id fun _ _ hr => .inl hr
    -- the requests are those of the world itself, which are in order
    intro w hw
    rw [drain_apply]
    cases ha : w.asyncGenerators[id]? with
    | none => exact .refl hw
    | some a =>
      dsimp only
      cases hq : a.queue with
      | nil => exact hmark false w hw
      | cons r rest =>
        have hr := hw.requests id a ha r (by rw [hq]; exact List.mem_cons_self)
        refine RunOn.Steady.bind (hmark true)
          (fun _ => .bind (serve_steady hh id a.inst hr) fun more => ?_) w hw
        cases more with
        | true => exact ih
        | false => exact .pure _

theorem requestNext_steady (receiver : Value) (m : Method) (v : Value) :
    (requestNext host receiver m v).Steady := by
  refine .bind (.edit fun _ => ⟨rfl, rfl⟩) fun promise => .bind (.read _) fun h => ?_
  cases h.asyncGenerator? receiver with
  | none =>
    exact .bind (.edit fun _ => ⟨rfl, rfl⟩) fun _ =>
      .bind (.edit (settle_keepsActivations _ _)) fun _ => .pure _
  | some id =>
    refine .bind (modifyAsyncGenerator_steady id fun a r hr => ?_) fun _ =>
      .bind (.edit fun _ => ⟨rfl, rfl⟩) fun a => ?_
    · obtain hr | hr := List.mem_append.1 hr
      · exact .inl hr
      · rw [List.mem_singleton.1 hr]
        exact .inr (by cases m <;> rfl)
    · dsimp only
      split
      · exact .bind (asyncDrain_steady hh id _) fun _ => .pure _
      · exact .pure _

theorem stepAsyncFunction_steady (inst : InstanceId) (promise : ObjectId) {a : Action}
    (ha : a.endsDelegate = false) : (stepAsyncFunction host inst promise a).Steady := by
  refine .bind (resume_steady hh inst ha) fun s => ?_
  cases s with
  | awaiting v => exact .edit (await_keepsActivations v _)
  | returned v => exact .edit (resolve_keepsActivations promise v)
  | threw v => exact .edit (settle_keepsActivations promise _)
  | yielded | failed =>
    exact .bind (.edit fun _ => ⟨rfl, rfl⟩) fun _ => .edit (settle_keepsActivations promise _)

theorem startAsyncFunction_steady (inst : InstanceId) : (startAsyncFunction host inst).Steady :=
  .bind (.edit (x := Edit.newPromise) fun _ => ⟨rfl, rfl⟩) fun _ =>
    .bind (stepAsyncFunction_steady hh inst _ rfl) fun _ => .pure _

theorem continuation_steady (k : Continuation) (s : Settlement) : (k.run host s).Steady := by
  cases k with
  | unpark cell => exact .edit (x := Edit.fillCell cell s) fun _ => ⟨rfl, rfl⟩
  | asyncGenerator id =>
    refine .bind (.edit fun _ => ⟨rfl, rfl⟩) fun a => ?_
    cases a with
    | none => exact .pure _
    | some a =>
      refine .bind (serve_steady hh id a.inst rfl) fun more => ?_
      cases more with
      | true => exact asyncDrain_steady hh id _
      | false => exact .pure _
  | asyncFunction inst promise => exact stepAsyncFunction_steady hh inst promise rfl

theorem constructPromise_steady (executor : Value) :
    (Native.constructPromise host executor).Steady := by
  have hstart : (Native.startPromise host executor).Steady :=
    .bind (.edit fun _ => ⟨rfl, rfl⟩) fun _ => .bind (.edit fun _ => ⟨rfl, rfl⟩) fun _ =>
      construct_allowed hh.hosts _ _ _
  refine .bind (.read _) fun h => ?_
  dsimp only
  split
  · exact .bind (.throwNew _ _) fun _ => hstart
  · exact hstart

theorem resumeGenerator_steady (receiver : Value) (m : Method) (v : Value) :
    (Native.resumeGenerator host receiver m v).Steady := by
  refine .bind (.read _) fun h => ?_
  cases h.generator? receiver with
  | some id => exact .bind (resume_steady hh id (by cases m <;> rfl)) (toResult_allowed (C := orderly))
  | none => exact .throwNew _ _

omit hh in
theorem thenPromise_steady (receiver onFulfilled onRejected : Value) :
    (Native.thenPromise receiver onFulfilled onRejected).Steady := by
  refine .bind (.read _) fun h => ?_
  split
  · refine .bind (.edit ?_) fun _ => .pure _
    exact .bind (fun _ => ⟨rfl, rfl⟩) fun _ => .bind (fun _ => ⟨rfl, rfl⟩) fun _ =>
      .bind (fun _ => ⟨rfl, rfl⟩) fun _ => .bind (addReaction_keepsActivations _ _) fun _ => .pure _
  · exact .throwNew _ _

omit hh in
theorem takeLatch_steady (latch : LatchId) {x : Edit Unit} (hx : x.KeepsActivations) : (do
    if ← Edit.takeLatch latch then x
    return .undefined : Run Value).Steady := by
  refine .bind (.edit fun _ => ⟨rfl, rfl⟩) fun was => ?_
  dsimp only
  split
  · exact .bind (.edit hx) fun _ => .pure _
  · exact .pure _

theorem native_steady (n : Native) (receiver : Value) (args : List Value) :
    (n.call host receiver args).Steady := by
  cases n with
  | log => exact .bind (.read _) fun _ => .bind (.edit fun _ => ⟨rfl, rfl⟩) fun _ => .pure _
  | push => exact pushAll_allowed (C := orderly) receiver args
  | join => exact .bind (.read _) fun _ => .pure _
  | values | keys => exact iterateArray_allowed (C := orderly) receiver _
  | self => exact .pure _
  | arrayIteratorNext => exact nextElement_allowed (C := orderly) receiver
  | generator m => exact resumeGenerator_steady hh receiver m _
  | asyncGenerator m => exact requestNext_steady hh receiver m _
  | promise => exact constructPromise_steady hh _
  | promiseThen | promiseCatch => exact thenPromise_steady receiver _ _
  | promiseResolve => exact .bind (.edit (ofValue_keepsActivations _)) fun _ => .pure _
  | error | symbol => exact .bind (.edit fun _ => ⟨rfl, rfl⟩) fun _ => .pure _
  | promiseReject =>
    exact .bind (.edit fun _ => ⟨rfl, rfl⟩) fun _ =>
      .bind (.edit (settle_keepsActivations _ _)) fun _ => .pure _
  | resolve target latch => exact takeLatch_steady latch (resolve_keepsActivations target _)
  | reject target latch => exact takeLatch_steady latch (settle_keepsActivations target _)

omit hh in
theorem newActivation_steady (plan : Plan) (scope : ScopeId) (isAsync : Bool) :
    (Run.edit (newActivation plan scope isAsync) : Run InstanceId).Steady :=
  .edit_bind (.edit (forM_keepsActivations _ fun _ _ => ⟨rfl, rfl⟩)) fun _ =>
    newInstance_steady plan scope isAsync

theorem closure_steady (f : Value) (c : Closure) (receiver : Value) (args : List Value) :
    (c.call host f receiver args).Steady := by
  refine .bind (enter_allowed hh.hosts c receiver args) fun scope => ?_
  cases c.routine with
  | plain => exact runBody_allowed hh.hosts c scope
  | generator plan =>
    exact .bind (newActivation_steady plan scope false) fun _ =>
      .bind (.edit fun _ => ⟨rfl, rfl⟩) fun _ => .bind (.edit fun _ => ⟨rfl, rfl⟩) fun _ => .pure _
  | async plan =>
    exact .bind (newActivation_steady plan scope true) fun inst => startAsyncFunction_steady hh inst
  | asyncGenerator plan =>
    exact .bind (newActivation_steady plan scope true) fun inst =>
      .bind (newAsyncGenerator_steady inst) fun _ => .bind (.edit fun _ => ⟨rfl, rfl⟩) fun _ =>
        .bind (.edit fun _ => ⟨rfl, rfl⟩) fun _ => .pure _

theorem callFunction_steady (f receiver : Value) (args : List Value) :
    (callFunction host f receiver args).Steady := by
  refine .bind (.read _) fun h => ?_
  split
  · exact native_steady hh _ receiver args
  · exact closure_steady hh f _ receiver args
  · exact .throwNew _ _

end Calls

theorem withFuel_steady (fuel : Nat) : (Host.withFuel fuel).Steady := by
  refine ⟨?_, rfl⟩
  show ∀ f receiver args, (callWithin fuel f receiver args).Steady
  induction fuel with
  | zero => exact fun _ _ _ => .exhausted
  | succ fuel ih => exact fun f receiver args => callFunction_steady ⟨ih, rfl⟩ f receiver args

section Jobs

variable {host : Host} (hh : host.Steady)

include hh

theorem job_steady (job : Job) : (job.run host).Steady := by
  match job with
  | .react (.resume k) s => exact continuation_steady hh k s
  | .react (.handlers onFulfilled onRejected resolve reject) s =>
    exact handlers_allowed hh.hosts onFulfilled onRejected resolve reject s
  | .adopt thenable method resolve reject =>
    exact adopt_allowed hh.hosts thenable method resolve reject

omit hh in
theorem dequeue_apply (w : World) : Edit.dequeue w = match w.jobs with
    | [] => (none, w)
    | job :: jobs => (some job, { w with jobs }) := rfl

omit hh in
theorem dequeue_keepsActivations : Edit.dequeue.KeepsActivations := by
  intro w
  rw [dequeue_apply]
  cases w.jobs <;> exact ⟨rfl, rfl⟩

theorem runJobs_steady (n : Nat) : (runJobs host n).Steady := by
  induction n with
  | zero => exact .exhausted
  | succ n ih =>
    refine .bind (.edit dequeue_keepsActivations) fun job => ?_
    cases job with
    | none => exact .pure _
    | some job => exact .bind (job_steady hh job) fun _ => ih

end Jobs

section Setup

open Realm

theorem update_keepsActivations (id : ObjectId) (f : Object → Object) :
    (Edit.update id f).KeepsActivations := fun _ => ⟨rfl, rfl⟩

theorem realmUpdate_keepsActivations (f : Realm → Realm) : (Realm.update f).KeepsActivations :=
  fun _ => ⟨rfl, rfl⟩

theorem newNative_keepsActivations (name : String) (arity : Nat) (n : Native) :
    (Edit.newNative name arity n).KeepsActivations := fun _ => ⟨rfl, rfl⟩

theorem newPlain_keepsActivations : Edit.newPlain.KeepsActivations := fun _ => ⟨rfl, rfl⟩

theorem method_keepsActivations (owner : ObjectId) (key name : String) (arity : Nat) (n : Native) :
    (method owner key name arity n).KeepsActivations := fun _ => ⟨rfl, rfl⟩

theorem defineGlobal_keepsActivations (name : String) (kind : VarKind) (v : Value) :
    (defineGlobal name kind v).KeepsActivations := fun _ => ⟨rfl, rfl⟩

theorem newConstructor_keepsActivations (name : String) (n : Native) (proto : ObjectId) :
    (newConstructor name n proto).KeepsActivations :=
  .bind (newNative_keepsActivations _ _ _) fun _ => .bind (update_keepsActivations _ _) fun _ =>
    .bind (update_keepsActivations _ _) fun _ => .bind (defineGlobal_keepsActivations _ _ _) fun _ =>
      .pure _

theorem newIteratorProto_keepsActivations (symbol : WellKnown) :
    (newIteratorProto symbol).KeepsActivations :=
  .bind newPlain_keepsActivations fun _ => .bind (method_keepsActivations _ _ _ _ _) fun _ => .pure _

theorem setupArrays_keepsActivations (iterator : ObjectId) :
    (setupArrays iterator).KeepsActivations :=
  .bind (fun _ => ⟨rfl, rfl⟩) fun _ => .bind (method_keepsActivations _ _ _ _ _) fun _ =>
    .bind (fun _ => ⟨rfl, rfl⟩) fun _ => .bind (fun _ => ⟨rfl, rfl⟩) fun _ =>
    .bind (method_keepsActivations _ _ _ _ _) fun _ => .bind (method_keepsActivations _ _ _ _ _) fun _ =>
    .bind (newNative_keepsActivations _ _ _) fun _ => .bind (update_keepsActivations _ _) fun _ =>
    .bind (method_keepsActivations _ _ _ _ _) fun _ => .bind (update_keepsActivations _ _) fun _ =>
    realmUpdate_keepsActivations _

theorem newGeneratorProto_keepsActivations (parent : ObjectId) (tag : String) (n : Method → Native) :
    (newGeneratorProto parent tag n).KeepsActivations :=
  .bind (fun _ => ⟨rfl, rfl⟩) fun _ =>
    .bind (forM_keepsActivations _ fun _ => method_keepsActivations _ _ _ _ _) fun _ =>
    .bind (update_keepsActivations _ _) fun _ => .pure _

theorem setupPromises_keepsActivations : setupPromises.KeepsActivations :=
  .bind newPlain_keepsActivations fun _ => .bind (method_keepsActivations _ _ _ _ _) fun _ =>
    .bind (method_keepsActivations _ _ _ _ _) fun _ => .bind (newConstructor_keepsActivations _ _ _) fun _ =>
    .bind (method_keepsActivations _ _ _ _ _) fun _ => .bind (method_keepsActivations _ _ _ _ _) fun _ =>
    realmUpdate_keepsActivations _

theorem setupError_keepsActivations (parent : ObjectId) (kind : ErrorKind) :
    (setupError parent kind).KeepsActivations :=
  .bind (fun _ => ⟨rfl, rfl⟩) fun _ => .bind (update_keepsActivations _ _) fun _ =>
    .bind (update_keepsActivations _ _) fun _ => .bind (newConstructor_keepsActivations _ _ _) fun _ =>
    .bind (realmUpdate_keepsActivations _) fun _ => .pure _

theorem setup_keepsActivations : setup.KeepsActivations := by
  have hglobal := defineGlobal_keepsActivations
  refine .bind (hglobal _ _ _) fun _ => .bind (hglobal _ _ _) fun _ => .bind (hglobal _ _ _) fun _ =>
    .bind (hglobal _ _ _) fun _ => .bind (fun _ => ⟨rfl, rfl⟩) fun _ =>
    .bind (realmUpdate_keepsActivations _) fun _ => .bind (newIteratorProto_keepsActivations _) fun _ =>
    .bind (newIteratorProto_keepsActivations _) fun _ => .bind (setupArrays_keepsActivations _) fun _ =>
    .bind (newGeneratorProto_keepsActivations _ _ _) fun _ =>
    .bind (newGeneratorProto_keepsActivations _ _ _) fun _ =>
    .bind (realmUpdate_keepsActivations _) fun _ => .bind setupPromises_keepsActivations fun _ =>
    .bind ?errors fun _ => .bind ?symbols fun _ => ?console
  case errors =>
    exact .bind (fun _ => ⟨rfl, rfl⟩) fun _ => .bind (setupError_keepsActivations _ _) fun _ =>
      forM_keepsActivations _ fun kind => .bind (setupError_keepsActivations _ kind) fun _ => .pure _
  case symbols =>
    exact .bind (newNative_keepsActivations _ _ _) fun _ => .bind (update_keepsActivations _ _) fun _ =>
      hglobal _ _ _
  case console =>
    exact .bind newPlain_keepsActivations fun _ => .bind (method_keepsActivations _ _ _ _ _) fun _ =>
      hglobal _ _ _

theorem initial_orderly : World.initial.Orderly ∧ World.initial.instances = #[] := by
  obtain ⟨hinst, hgens⟩ := setup_keepsActivations World.blank
  have hinst : World.initial.instances = #[] := by
    rw [World.initial, StateT.run, hinst]
    rfl
  have hgens : World.initial.asyncGenerators = #[] := by
    rw [World.initial, StateT.run, hgens]
    rfl
  refine ⟨⟨?_, ?_⟩, hinst⟩
  · rw [hinst]
    intro id g hg
    cases Array.getElem?_empty.symm.trans hg
  · rw [hgens]
    intro id a ha
    cases Array.getElem?_empty.symm.trans ha

end Setup

def World.Idle (w : World) : Prop := ∀ id : InstanceId, w.statusAt? id ≠ some .executing

def Outcome.world? {α : Type} : Outcome World α → Option World
  | .done _ w | .abrupt _ w => some w
  | .exhausted => none

/-- The worlds that a host can have between two requests. -/
inductive World.Hosted : World → Prop where
  | initial : Hosted .initial
  | program {w w' : World} (program : List Stmt) : Hosted w →
    (Session.runProgram program w).world? = some w' → Hosted w'
  | jobs {w w' : World} : Hosted w → (Session.drainJobs w).world? = some w' → Hosted w'
  | resume {w w' : World} (generator : Value) (a : Action) : Hosted w →
    (Session.resumeGenerator generator a w).world? = some w' → Hosted w'

section Requests

variable {w w' : World}

theorem Outcome.Leaves.world {α : Type} {P : World → Prop} {r : Outcome World α} (h : r.Leaves P)
    (hw : r.world? = some w') : P w' := by
  cases r with
  | done a w | abrupt c w =>
    cases hw
    exact h
  | exhausted => cases hw

theorem Kept.idle (h : Kept w w') (hw : w.Idle) : w'.Idle := by
  intro id he
  obtain ⟨g, hg, he⟩ := Option.map_eq_some_iff.1 he
  exact hw id (by rw [World.statusAt?, h.back id g hg he, Option.map_some, he])

theorem runProgram_steady (program : List Stmt) : (Session.runProgram program).Steady := by
  have hh : Session.host.Steady := withFuel_steady Session.fuel
  have hbody : (execStmts Session.host World.global .undefined program).Steady :=
    (execStmts_related hh.related (fun _ => trivial) (fun _ => trivial) program _ _
      fun _ => hh.suspends).2
  have hmake : (instantiate World.global (declaredFunctions program) : Run Unit).Steady :=
    (instantiate_related steady.toEvalRelation _ _ fun _ _ => trivial).2
  refine .bind (Conduct.Allows.calm (C := orderly) (hoistVars_calm _ program)) fun _ => .bind hmake.attempt fun r => ?_
  cases r with
  | error c => exact .pure _
  | ok => exact .bind hbody.attempt fun _ => .bind (runJobs_steady hh _) fun _ => .pure _

theorem Session.resumeGenerator_apply (generator : Value) (a : Action) (w : World) :
    Session.resumeGenerator generator a w =
      (match w.heap.generator? generator with
        | some id => resume Session.host id a
        | none => return .failed .notAGenerator : Run Stop) w := rfl

theorem resumeGenerator_leaves (generator : Value) (a : Action) (hw : w.Orderly) (hidle : w.Idle) :
    (Session.resumeGenerator generator a w).Leaves (Kept w) := by
  have hh : Session.host.Steady := withFuel_steady Session.fuel
  rw [Session.resumeGenerator_apply]
  cases w.heap.generator? generator with
  | none => exact .refl hw
  | some id =>
    exact (resume_yields hh (.of_idle (.of_orderly hw) (hidle id))).leaves fun _ _ h => h.1

theorem World.Hosted.idle (h : w.Hosted) : w.Orderly ∧ w.Idle := by
  induction h with
  | initial =>
    obtain ⟨horderly, hinst⟩ := initial_orderly
    refine ⟨horderly, fun id he => ?_⟩
    rw [World.statusAt?, hinst, Array.getElem?_empty] at he
    cases he
  | program p _ hw ih =>
    have hkept := (runProgram_steady p _ ih.1).world hw
    exact ⟨hkept.orderly, hkept.idle ih.2⟩
  | jobs _ hw ih =>
    have hkept := (runJobs_steady (withFuel_steady Session.fuel) _ _ ih.1).world hw
    exact ⟨hkept.orderly, hkept.idle ih.2⟩
  | resume generator a _ hw ih =>
    have hkept := (resumeGenerator_leaves generator a ih.1 ih.2).world hw
    exact ⟨hkept.orderly, hkept.idle ih.2⟩

/-- An instance that executes takes nothing but the end of its delegate. -/
theorem resumeOne_executing {host : Host} {id : InstanceId} {g : Instance} {a : Action}
    (hg : w.instances[id]? = some g) (he : g.status = .executing) (hp : g.parked = none)
    (ha : a.endsDelegate = false) :
    resumeOne host id a w = .done (.stop (.failed .generatorRunning)) w := by
  have hfound : (liftM (Edit.instance? id) : Run _) w = .done (some g) w :=
    congrArg (fun o => Outcome.done o w) hg
  have hunpark : (liftM (unpark id g a) : Run _) w = .done (.ok (g, a)) w := by
    simp only [unpark, hp]
    rfl
  simp only [resumeOne, bind, RunOn.bind, hfound, hunpark, he, ha]
  rfl

theorem resume_executing {host : Host} {id : InstanceId} {g : Instance} {a : Action}
    (hw : w.Orderly) (hg : w.instances[id]? = some g) (he : g.status = .executing)
    (ha : a.endsDelegate = false) (hfuel : 0 < host.fuel) :
    resume host id a w = .done (.failed .generatorRunning) w := by
  have hp : g.parked = none := by
    cases hp : g.parked with
    | none => rfl
    | some p => cases he.symm.trans (hw.parked id g hg (by rw [hp]; rfl))
  obtain ⟨n, hn⟩ := Nat.exists_eq_add_of_lt hfuel
  rw [resume, hn, Nat.zero_add, resumeChain]
  simp only [bind, RunOn.bind, resumeOne_executing hg he hp ha]
  rfl

end Requests

/-- What generators go through over whole programs. -/
structure Lifecycle : Prop where
  /-- Between two requests of a host no instance executes. -/
  idle : ∀ w : World, w.Hosted → w.Orderly ∧ w.Idle
  /-- Calls that script code makes leave the world in order, and all that executes as it is. -/
  calls : ∀ (fuel : Nat) (f receiver : Value) (args : List Value),
    (callWithin fuel f receiver args).Steady
  /-- A resumption leaves the instances of its chain suspended if they wait to go on, and ended if one
  of them has failed, except for those that executed before. -/
  resumes : ∀ (fuel : Nat) (w : World) (id : InstanceId) (a : Action) (s : Stop) (w' : World),
    w.Orderly → (a.endsDelegate = true → w.statusAt? id ≠ some .executing) →
    resume (Host.withFuel fuel) id a w = .done s w' →
    Kept w w' ∧ ∃ chain, Passage (Host.withFuel fuel) [] id a w chain s ∧ Settled w chain s w'
  /-- An instance that executes cannot be resumed, and nothing changes. -/
  refuses : ∀ (fuel : Nat) (w : World) (id : InstanceId) (g : Instance) (a : Action),
    w.Orderly → w.instances[id]? = some g → g.status = .executing → a.endsDelegate = false →
    resume (Host.withFuel (fuel + 1)) id a w = .done (.failed .generatorRunning) w

/-- Generators are suspended, ended or not yet started whenever the host is asked for nothing. -/
theorem generators_settle : Lifecycle where
  idle _ h := h.idle
  calls fuel := (withFuel_steady fuel).call
  resumes fuel w id a s w' hw ha hr := by
    have hasked : Asked w id [] a w := by
      by_cases h : w.statusAt? id = some .executing
      · exact .of_call (.of_orderly hw) (Bool.eq_false_iff.2 fun hd => ha hd h)
      · exact .of_idle (.of_orderly hw) h
    have h := resume_yields (withFuel_steady fuel) hasked
    rw [hr] at h
    exact h
  refuses fuel w id g a hw hg he ha := resume_executing hw hg he ha (Nat.succ_pos fuel)

end Resumable
