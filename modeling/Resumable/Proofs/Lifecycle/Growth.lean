import Resumable.Proofs.Lifecycle.Programs
import Resumable.Proofs.Scopes.Links

/-!
What every run leaves behind: the scopes that there were, linked as before and with all that they bound,
and the plans that there were, at most one for a definition. Main statements: `withFuel_grows`,
`sessionResume_grows`.
-/

set_option autoImplicit false

namespace Resumable

/-- Whether a world has the scopes and the plans of an earlier one. -/
structure World.Later (w w' : World) : Prop where
  scopes : w.scopes.Extends w'.scopes
  records : RecordsGrow w.builds w'.builds

namespace World.Later

variable {w w₁ w₂ : World}

theorem refl (w : World) : w.Later w := ⟨.refl _, .refl _⟩

theorem trans (h : w.Later w₁) (h' : w₁.Later w₂) : w.Later w₂ :=
  ⟨h.scopes.trans h'.scopes, h.records.trans h'.records⟩

end World.Later

/-- Whether a store has all scopes of another one, each with its link and with all that it bound. -/
structure Scopes.Retains (s t : Scopes) : Prop extends s.Extends t where
  bound : ∀ id name, (s.binding? id name).isSome = true → (t.binding? id name).isSome = true

namespace Scopes.Retains

variable {s t u : Scopes}

theorem refl (s : Scopes) : s.Retains s := ⟨.refl s, fun _ _ h => h⟩

theorem trans (h : s.Retains t) (h' : t.Retains u) : s.Retains u :=
  ⟨h.toExtends.trans h'.toExtends, fun id name hb => h'.bound id name (h.bound id name hb)⟩

theorem bind (id : ScopeId) (name : String) (b : Binding) : s.Retains (s.bind id name b) := by
  refine ⟨.bind id name b, fun other key h => ?_⟩
  rw [binding?_bind]
  split
  · cases hget : s.get? other with
    | none => simp [binding?, hget] at h
    | some scope => rfl
  · exact h

theorem declare (id : ScopeId) (name : String) (kind : VarKind) :
    s.Retains (s.declare id name kind) := by
  unfold Scopes.declare
  split
  · exact refl s
  · exact bind ..

theorem assign {id : ScopeId} {name : String} {v : Value} (h : s.assign? id name v = some t) :
    s.Retains t := by
  obtain rfl | ⟨owner, b, rfl⟩ := assign?_cases h
  · exact refl t
  · exact bind ..

theorem alloc (scope : Scope) : s.Retains (s.alloc scope).2 := by
  refine ⟨.alloc scope, fun id name h => ?_⟩
  have hid : id ≠ s.all.size := by
    rintro rfl
    simp [binding?, get?] at h
  rw [binding?, get?_alloc, if_neg hid]
  exact h

theorem copy (id : ScopeId) : s.Retains (s.copy id).2 := alloc _

end Scopes.Retains

/-- Whether a world has the scopes and the plans of an earlier one, and all that was bound there. -/
structure World.Keeps (w w' : World) : Prop where
  scopes : w.scopes.Retains w'.scopes
  records : RecordsGrow w.builds w'.builds

namespace World.Keeps

variable {w w₁ w₂ : World}

theorem refl (w : World) : w.Keeps w := ⟨.refl _, .refl _⟩

theorem trans (h : w.Keeps w₁) (h' : w₁.Keeps w₂) : w.Keeps w₂ :=
  ⟨h.scopes.trans h'.scopes, h.records.trans h'.records⟩

theorem later (h : w.Keeps w₁) : w.Later w₁ := ⟨h.scopes.toExtends, h.records⟩

end World.Keeps

/-- The same, and only asynchronous arrow functions have got plans for themselves. -/
structure World.Adds (w w' : World) : Prop where
  scopes : w.scopes.Retains w'.scopes
  records : RecordsAdd w.builds w'.builds

namespace World.Adds

variable {w w₁ w₂ : World}

theorem refl (w : World) : w.Adds w := ⟨.refl _, .refl _⟩

theorem trans (h : w.Adds w₁) (h' : w₁.Adds w₂) : w.Adds w₂ :=
  ⟨h.scopes.trans h'.scopes, h.records.trans h'.records⟩

theorem of_eq {w' : World} (hs : w'.scopes = w.scopes) (hb : w'.builds = w.builds) : w.Adds w' :=
  ⟨hs ▸ .refl _, hb ▸ .refl _⟩

theorem keeps (h : w.Adds w₁) : w.Keeps w₁ := ⟨h.scopes, h.records.toRecordsGrow⟩

end World.Adds

/-- Whether a run only adds scopes, bindings and plans, however it completes. -/
def RunOn.Grows {α : Type} (x : Run α) : Prop := ∀ w, (x w).Leaves w.Adds

def Edit.Grows {α : Type} (x : Edit α) : Prop := ∀ w : World, w.Adds (x w).2

section Closure

variable {α β : Type}

theorem Edit.Grows.pure (a : α) : (Pure.pure a : Edit α).Grows := fun w => .refl w

theorem Edit.Grows.bind {x : Edit α} {f : α → Edit β} (hx : x.Grows) (hf : ∀ a, (f a).Grows) :
    (x >>= f).Grows := fun w => (hx w).trans (hf _ _)

theorem Edit.Grows.forM {f : α → Edit PUnit} (hf : ∀ a, (f a).Grows) (xs : List α) :
    (xs.forM f).Grows := by
  induction xs with
  | nil => exact .pure _
  | cons x xs ih => exact .bind (hf x) fun _ => ih

theorem Edit.Grows.of_eq {x : Edit α}
    (h : ∀ w, (x w).2.scopes = w.scopes ∧ (x w).2.builds = w.builds) : x.Grows :=
  fun w => .of_eq (h w).1 (h w).2

theorem Edit.Grows.of_local {x : Edit α} (hx : x.IsLocal) : x.Grows :=
  fun w => ⟨hx.scopes_eq w ▸ .refl _, hx.records w⟩

theorem Edit.Grows.of_scopes {f : Scopes → α × Scopes} (hf : ∀ s : Scopes, s.Retains (f s).2) :
    (Edit.scopes f).Grows := fun w => ⟨hf w.scopes, .refl _⟩

namespace RunOn.Grows

theorem pure (a : α) : (Pure.pure a : Run α).Grows := fun w => .refl w

theorem abrupt (c : Abrupt) : (Run.abrupt c : Run α).Grows := fun w => .refl w

theorem exhausted : (Run.exhausted : Run α).Grows := fun _ => trivial

theorem read (view : World → α) : (Run.read view : Run α).Grows := fun w => .refl w

theorem edit {x : Edit α} (hx : x.Grows) : (Run.edit x : Run α).Grows := hx

theorem bind {x : Run α} {f : α → Run β} (hx : x.Grows) (hf : ∀ a, (f a).Grows) :
    (x >>= f).Grows := by
  intro w
  have hw := hx w
  simp only [Bind.bind, RunOn.bind]
  cases hxw : x w with
  | done a w₁ =>
    rw [hxw] at hw
    exact (hf a w₁).mono fun _ => hw.trans
  | abrupt c w₁ =>
    rw [hxw] at hw
    exact hw
  | exhausted => trivial

theorem attempt {x : Run α} (hx : x.Grows) : x.attempt.Grows := by
  intro w
  have hw := hx w
  simp only [RunOn.attempt]
  cases hxw : x w with
  | done a w₁ | abrupt c w₁ =>
    rw [hxw] at hw
    exact hw
  | exhausted => trivial

theorem done_keeps {x : Run α} (hx : x.Grows) {w w' : World} {a : α} (h : x w = .done a w') :
    w.Keeps w' := by
  have hw := hx w
  rw [h] at hw
  exact World.Adds.keeps hw

theorem done {x : Run α} (hx : x.Grows) {w w' : World} {a : α} (h : x w = .done a w') : w.Later w' :=
  (hx.done_keeps h).later

/-- The first part of a run that is done leads to a later world, from where the rest is done. -/
theorem done_bind {x : Run α} {f : α → Run β} (hx : x.Grows) {w w' : World} {b : β}
    (h : (x >>= f) w = .done b w') : ∃ a w₁, w.Later w₁ ∧ f a w₁ = .done b w' := by
  simp only [Bind.bind, RunOn.bind] at h
  cases hxw : x w with
  | done a w₁ =>
    rw [hxw] at h
    exact ⟨a, w₁, hx.done hxw, h⟩
  | abrupt | exhausted =>
    rw [hxw] at h
    cases h

end RunOn.Grows

end Closure

section Scopes

theorem newScope_grows (scope : ScopeId) : (Edit.newScope scope).Grows := .of_scopes fun _ => .alloc _

theorem copyScope_grows (scope : ScopeId) : (Edit.copyScope scope).Grows :=
  .of_scopes fun _ => .copy _

theorem declare_grows (scope : ScopeId) (name : String) (kind : VarKind) :
    (Edit.declare scope name kind).Grows := .of_scopes fun _ => .declare ..

theorem assign_grows (scope : ScopeId) (name : String) (v : Value) :
    (Edit.assign scope name v).Grows := by
  refine .of_scopes fun s => ?_
  cases h : s.assign? scope name v with
  | some t => exact .assign h
  | none => exact .refl _

theorem define_grows (scope : ScopeId) (name : String) (kind : VarKind) (v : Value) :
    (Edit.define scope name kind v).Grows :=
  .bind (declare_grows scope name kind) fun _ => assign_grows scope name v

end Scopes

/-- Runs that are the same and only add scopes and plans. -/
def growing : RunRelation World World where
  rel x y := y = x ∧ x.Grows
  occurs _ := True
  names _ := True
  throw_occurs _ := trivial
  fatal_occurs _ := trivial
  pure a := ⟨rfl, .pure a⟩
  bind hx hf := ⟨by rw [hx.1, funext fun a => (hf a).1], .bind hx.2 fun a => (hf a).2⟩
  attempt hx hok herror := by
    refine ⟨?_, .bind hx.2.attempt fun r => ?_⟩
    · rw [hx.1]
      refine congrArg _ (funext fun r => ?_)
      cases r with
      | ok a => exact (hok a).1
      | error c => exact (herror c trivial).1
    · cases r with
      | ok a => exact (hok a).2
      | error c => exact (herror c trivial).2
  abrupt c _ := ⟨rfl, .abrupt c⟩
  exhausted := ⟨rfl, .exhausted⟩
  heap := ⟨rfl, .read _⟩
  lookup _ _ _ := ⟨rfl, .read _⟩
  has _ _ _ := ⟨rfl, .read _⟩
  this _ := ⟨rfl, .read _⟩
  edit _ hl _ := ⟨rfl, .edit (.of_local hl)⟩
  newScope scope := ⟨rfl, .edit (newScope_grows scope)⟩
  copyScope scope := ⟨rfl, .edit (copyScope_grows scope)⟩
  declare scope name kind _ := ⟨rfl, .edit (declare_grows scope name kind)⟩
  assign scope name v _ := ⟨rfl, .edit (assign_grows scope name v)⟩
  define scope name kind v _ := ⟨rfl, .edit (define_grows scope name kind v)⟩

/-- Whether calls of a host only add scopes and plans, and its suspend expressions are errors. -/
structure Host.Grows (host : Host) : Prop where
  calls : ∀ f receiver args, (host.call f receiver args).Grows
  suspend_eq : host.suspend = refuseSuspend

theorem Host.Grows.suits {host : Host} (h : host.Grows) : growing.Suits host host where
  calls := by
    refine ⟨fun f receiver args => ⟨rfl, h.calls f receiver args⟩, .same _, fun x y _ => ?_⟩
    rw [h.suspend_eq]
    exact refuseSuspend_related growing.toEvalRelation .await x y
  suspends kind x y _ := by
    rw [h.suspend_eq]
    exact refuseSuspend_related growing.toEvalRelation kind x y
  names _ := trivial
  occurs _ := trivial

section Promises

theorem enqueue_grows (job : Job) : (Edit.enqueue job).Grows := .of_eq fun _ => ⟨rfl, rfl⟩

theorem setState_grows (p : ObjectId) (state : PromiseState) : (Promise.setState p state).Grows :=
  .of_eq fun _ => ⟨rfl, rfl⟩

theorem newPromise_grows : Edit.newPromise.Grows := .of_eq fun _ => ⟨rfl, rfl⟩

theorem newResolvers_grows (p : ObjectId) : (Promise.newResolvers p).Grows :=
  .of_eq fun _ => ⟨rfl, rfl⟩

theorem newError_grows (kind : ErrorKind) (message : String) : (Edit.newError kind message).Grows :=
  .of_eq fun _ => ⟨rfl, rfl⟩

theorem newResult_grows (v : Value) (done : Bool) : (Edit.newResult v done).Grows :=
  .of_eq fun _ => ⟨rfl, rfl⟩

theorem heap_grows : Edit.heap.Grows := .of_eq fun _ => ⟨rfl, rfl⟩

theorem state_grows (p : ObjectId) : (Promise.state? p).Grows := .of_eq fun _ => ⟨rfl, rfl⟩

theorem settle_grows (p : ObjectId) (s : Settlement) : (Promise.settle p s).Grows := by
  refine .bind (state_grows p) fun state => ?_
  match state with
  | some (.pending reactions) =>
    exact .bind (setState_grows p _) fun _ => .forM (fun _ => enqueue_grows _) reactions
  | some (.settled _) | none => exact .pure _

theorem resolve_grows (p : ObjectId) (v : Value) : (Promise.resolve p v).Grows := by
  unfold Promise.resolve
  split
  · exact .bind (newError_grows _ _) fun _ => settle_grows p _
  · refine .bind heap_grows fun h => ?_
    split
    · exact .bind (newResolvers_grows p) fun _ => enqueue_grows _
    · exact settle_grows p _

theorem addReaction_grows (p : ObjectId) (r : Reaction) : (Promise.addReaction p r).Grows := by
  refine .bind (state_grows p) fun state => ?_
  match state with
  | some (.pending _) => exact setState_grows p _
  | some (.settled _) => exact enqueue_grows _
  | none => exact .pure _

theorem derive_grows (p : ObjectId) (onFulfilled onRejected : Value) :
    (Promise.derive p onFulfilled onRejected).Grows :=
  .bind newPromise_grows fun _ => .bind (newResolvers_grows _) fun _ => .bind heap_grows fun _ =>
    .bind (addReaction_grows p _) fun _ => .pure _

theorem ofValue_grows (v : Value) : (Promise.ofValue v).Grows := by
  refine .bind heap_grows fun h => ?_
  split
  · exact .pure _
  · exact .bind newPromise_grows fun _ => .bind (resolve_grows _ v) fun _ => .pure _

theorem await_grows (v : Value) (k : Continuation) : (Promise.await v k).Grows :=
  .bind (ofValue_grows v) fun _ => addReaction_grows _ _

theorem newFailure_grows (e : Fatal) : (newFailure e).Grows :=
  .bind (newError_grows _ _) fun _ => .pure _

end Promises

section Resuming

theorem setInstance_grows (id : InstanceId) (g : Instance) : (Edit.setInstance id g).Grows :=
  .of_eq fun _ => ⟨rfl, rfl⟩

theorem instance_grows (id : InstanceId) : (Edit.instance? id).Grows := .of_eq fun _ => ⟨rfl, rfl⟩

theorem modifyAsyncGenerator_grows (id : AsyncGeneratorId) (f : AsyncGenerator → AsyncGenerator) :
    (Edit.modifyAsyncGenerator id f).Grows := .of_eq fun _ => ⟨rfl, rfl⟩

theorem asyncGenerator_grows (id : AsyncGeneratorId) : (Edit.asyncGenerator? id).Grows :=
  .of_eq fun _ => ⟨rfl, rfl⟩

theorem markOuter_grows (outer : List InstanceId) (f : Instance → Instance) :
    (markOuter outer f).Grows :=
  .forM (fun _ => .of_eq fun _ => ⟨rfl, rfl⟩) outer

theorem park_grows (id : InstanceId) (promise : Value) : (park id promise).Grows := by
  refine .bind (instance_grows id) fun g => ?_
  cases g with
  | none => exact .pure _
  | some g =>
    dsimp only
    split
    · exact .bind (.of_eq fun _ => ⟨rfl, rfl⟩) fun _ => .bind (await_grows _ _) fun _ =>
        setInstance_grows id _
    · exact .pure _

theorem unpark_grows (id : InstanceId) (g : Instance) (a : Action) : (unpark id g a).Grows := by
  have hfreed (g : Instance) (a : Action) : (unpark.freed id g a).Grows :=
    .bind (setInstance_grows id g) fun _ => .pure _
  unfold unpark
  cases g.parked with
  | none => exact .pure _
  | some p =>
    refine .bind (.of_eq fun _ => ⟨rfl, rfl⟩) fun s => ?_
    split
    · exact .pure _
    · exact hfreed _ _
    · exact hfreed _ _

variable {host : Host} (hh : host.Grows)

include hh

theorem runSlice_grows (id : InstanceId) (g : Instance) (a : Action) :
    (runSlice host id g a).Grows :=
  .bind (.edit (setInstance_grows id _)) fun _ => .bind (slice_related hh.suits (.same _) g a).2 fun _ =>
    .bind (.edit (setInstance_grows id _)) fun _ => .pure _

theorem resumeOne_grows (id : InstanceId) (a : Action) : (resumeOne host id a).Grows := by
  refine .bind (.edit (instance_grows id)) fun g => ?_
  cases g with
  | none => exact .pure _
  | some g =>
    refine .bind (.edit (unpark_grows id g a)) fun r => ?_
    cases r with
    | error promise => exact .pure _
    | ok r =>
      dsimp only
      split
      · exact .pure _
      · split
        · exact runSlice_grows hh id _ _
        · exact .pure _
      · exact runSlice_grows hh id _ _
      · exact runSlice_grows hh id _ _

theorem resumeChain_grows (n : Nat) (outer : List InstanceId) (id : InstanceId) (a : Action) :
    (resumeChain host n outer id a).Grows := by
  induction n generalizing outer id a with
  | zero => exact .exhausted
  | succ n ih =>
    refine .bind (resumeOne_grows hh id a) fun p => ?_
    split
    · exact ih _ _ _
    · cases outer with
      | nil => exact .pure _
      | cons next outer => exact ih _ _ _
    · cases outer with
      | nil => exact .pure _
      | cons next outer => exact ih _ _ _
    · exact .bind (.edit (markOuter_grows outer _)) fun _ => .pure _
    · exact .bind (.edit (park_grows id _)) fun _ => .bind (.edit (markOuter_grows outer _)) fun _ =>
        .pure _
    · exact .bind (.edit (markOuter_grows outer _)) fun _ => .pure _

theorem resume_grows (id : InstanceId) (a : Action) : (resume host id a).Grows :=
  resumeChain_grows hh host.fuel [] id a

omit hh in
theorem settleHead_grows (id : AsyncGeneratorId) (s : Settlement) :
    (AsyncGenerator.settleHead id s).Grows := by
  refine .bind (asyncGenerator_grows id) fun a => ?_
  match a.map AsyncGenerator.queue with
  | some (r :: rest) =>
    refine .bind (modifyAsyncGenerator_grows id _) fun _ => ?_
    cases s with
    | fulfilled v => exact resolve_grows r.promise v
    | rejected v => exact settle_grows r.promise _
  | some [] | none => exact .pure _

theorem serve_grows (id : AsyncGeneratorId) (inst : InstanceId) (a : Action) :
    (AsyncGenerator.serve host id inst a).Grows := by
  refine .bind (resume_grows hh inst a) fun s => ?_
  cases s with
  | awaiting v => exact .bind (.edit (await_grows v _)) fun _ => .pure _
  | yielded v | returned v =>
    exact .bind (.edit (newResult_grows v _)) fun _ => .bind (.edit (settleHead_grows id _)) fun _ =>
      .pure _
  | threw v => exact .bind (.edit (settleHead_grows id _)) fun _ => .pure _
  | failed e =>
    exact .bind (.edit (newFailure_grows e)) fun _ => .bind (.edit (settleHead_grows id _)) fun _ =>
      .pure _

theorem asyncDrain_grows (id : AsyncGeneratorId) (n : Nat) :
    (AsyncGenerator.drain host id n).Grows := by
  induction n with
  | zero => exact .exhausted
  | succ n ih =>
    refine .bind (.edit (asyncGenerator_grows id)) fun a => ?_
    cases a with
    | none => exact .pure _
    | some a =>
      dsimp only
      cases a.queue with
      | nil => exact .edit (modifyAsyncGenerator_grows id _)
      | cons r rest =>
        refine .bind (.edit (modifyAsyncGenerator_grows id _)) fun _ =>
          .bind (serve_grows hh id _ _) fun more => ?_
        cases more with
        | true => exact ih
        | false => exact .pure _

theorem requestNext_grows (receiver : Value) (m : Method) (v : Value) :
    (requestNext host receiver m v).Grows := by
  refine .bind (.edit newPromise_grows) fun promise => .bind (.read _) fun h => ?_
  cases h.asyncGenerator? receiver with
  | none =>
    exact .bind (.edit (newError_grows _ _)) fun _ => .bind (.edit (settle_grows _ _)) fun _ => .pure _
  | some id =>
    refine .bind (.edit (modifyAsyncGenerator_grows id _)) fun _ =>
      .bind (.edit (asyncGenerator_grows id)) fun a => ?_
    dsimp only
    split
    · exact .bind (asyncDrain_grows hh id _) fun _ => .pure _
    · exact .pure _

theorem stepAsyncFunction_grows (inst : InstanceId) (promise : ObjectId) (a : Action) :
    (stepAsyncFunction host inst promise a).Grows := by
  refine .bind (resume_grows hh inst a) fun s => ?_
  cases s with
  | awaiting v => exact .edit (await_grows v _)
  | returned v => exact .edit (resolve_grows promise v)
  | threw v => exact .edit (settle_grows promise _)
  | yielded => exact .bind (.edit (newError_grows _ _)) fun _ => .edit (settle_grows promise _)
  | failed e => exact .bind (.edit (newFailure_grows e)) fun _ => .edit (settle_grows promise _)

theorem continuation_grows (k : Continuation) (s : Settlement) : (k.run host s).Grows := by
  cases k with
  | unpark cell => exact .edit (x := Edit.fillCell cell s) (.of_eq fun _ => ⟨rfl, rfl⟩)
  | asyncGenerator id =>
    refine .bind (.edit (asyncGenerator_grows id)) fun a => ?_
    cases a with
    | none => exact .pure _
    | some a =>
      refine .bind (serve_grows hh id _ _) fun more => ?_
      cases more with
      | true => exact asyncDrain_grows hh id _
      | false => exact .pure _
  | asyncFunction inst promise => exact stepAsyncFunction_grows hh inst promise _

end Resuming

section Calls

theorem throwType_grows {α : Type} (message : String) : (Run.throwType message : Run α).Grows :=
  (throwType_related growing.toEvalRelation message).2

theorem pushAll_grows (receiver : Value) (items : List Value) :
    (Native.pushAll receiver items).Grows := by
  cases receiver with
  | obj id =>
    refine .bind (.read _) fun h => ?_
    dsimp only
    split
    · exact .bind (.edit (.of_local (update_local id _))) fun _ => .pure _
    · exact throwType_grows _
  | _ => exact throwType_grows _

theorem nextElement_grows (receiver : Value) : (Native.nextElement receiver).Grows := by
  refine .bind (.read _) fun h => ?_
  split
  · split
    · exact .bind (.edit (.of_local (update_local _ _))) fun _ =>
        .bind (.edit (newResult_grows _ _)) fun _ => .pure _
    · exact .bind (.edit (.of_local (update_local _ _))) fun _ =>
        .bind (.edit (newResult_grows _ _)) fun _ => .pure _
  · exact throwType_grows _

theorem thenPromise_grows (receiver onFulfilled onRejected : Value) :
    (Native.thenPromise receiver onFulfilled onRejected).Grows := by
  refine .bind (.read _) fun h => ?_
  split
  · exact .bind (.edit (derive_grows _ _ _)) fun _ => .pure _
  · exact throwType_grows _

theorem takeLatch_grows (latch : LatchId) {x : Edit Unit} (hx : x.Grows) : (do
    if ← Edit.takeLatch latch then x
    return .undefined : Run Value).Grows := by
  refine .bind (.edit (.of_eq fun _ => ⟨rfl, rfl⟩)) fun was => ?_
  dsimp only
  split
  · exact .bind (.edit hx) fun _ => .pure _
  · exact .pure _

theorem newActivation_grows (plan : Plan) (scope : ScopeId) (isAsync : Bool) :
    (newActivation plan scope isAsync).Grows :=
  .bind (.forM (fun _ => declare_grows _ _ _) plan.slots) fun _ => .of_eq fun _ => ⟨rfl, rfl⟩

theorem newGeneratorObject_grows (f : Value) (fallback : ObjectId) (role : Role) :
    (newGeneratorObject f fallback role).Grows := .of_eq fun _ => ⟨rfl, rfl⟩

variable {host : Host} (hh : host.Grows)

include hh

theorem constructPromise_grows (executor : Value) :
    (Native.constructPromise host executor).Grows := by
  have hstart : (Native.startPromise host executor).Grows :=
    .bind (.edit newPromise_grows) fun promise => .bind (.edit (newResolvers_grows promise)) fun r =>
      (executed_related hh.suits executor promise r).2
  refine .bind (.read _) fun h => ?_
  dsimp only
  split
  · exact .bind (throwType_grows _) fun _ => hstart
  · exact hstart

theorem resumeGenerator_grows (receiver : Value) (m : Method) (v : Value) :
    (Native.resumeGenerator host receiver m v).Grows := by
  refine .bind (.read _) fun h => ?_
  cases h.generator? receiver with
  | some id => exact .bind (resume_grows hh id _) fun s => (toResult_related growing s).2
  | none => exact throwType_grows _

theorem native_grows (n : Native) (receiver : Value) (args : List Value) :
    (n.call host receiver args).Grows := by
  cases n with
  | log =>
    exact .bind (.read _) fun _ => .bind (.edit (.of_eq fun _ => ⟨rfl, rfl⟩)) fun _ => .pure _
  | push => exact pushAll_grows receiver args
  | join => exact .bind (.read _) fun _ => .pure _
  | values | keys => exact (iterateArray_related growing receiver _).2
  | self => exact .pure _
  | arrayIteratorNext => exact nextElement_grows receiver
  | generator m => exact resumeGenerator_grows hh receiver m _
  | asyncGenerator m => exact requestNext_grows hh receiver m _
  | promise => exact constructPromise_grows hh _
  | promiseThen | promiseCatch => exact thenPromise_grows receiver _ _
  | promiseResolve => exact .bind (.edit (ofValue_grows _)) fun _ => .pure _
  | error => exact .bind (.edit (newError_grows _ _)) fun _ => .pure _
  | symbol => exact .bind (.edit (.of_eq fun _ => ⟨rfl, rfl⟩)) fun _ => .pure _
  | promiseReject =>
    exact .bind (.edit newPromise_grows) fun p => .bind (.edit (settle_grows p _)) fun _ => .pure _
  | resolve target latch => exact takeLatch_grows latch (resolve_grows target _)
  | reject target latch => exact takeLatch_grows latch (settle_grows target _)

theorem closure_grows (f : Value) (c : Closure) (receiver : Value) (args : List Value) :
    (c.call host f receiver args).Grows := by
  have hrealm : (Run.edit Edit.realm : Run Realm).Grows := .edit (.of_local realm_local)
  refine .bind (enter_related hh.suits c receiver args).2 fun scope => ?_
  cases c.routine with
  | plain => exact (runBody_related hh.suits c scope).2
  | generator plan =>
    exact .bind (.edit (newActivation_grows plan scope false)) fun _ => .bind hrealm fun _ =>
      .bind (.edit (newGeneratorObject_grows _ _ _)) fun _ => .pure _
  | async plan =>
    exact .bind (.edit (newActivation_grows plan scope true)) fun inst =>
      .bind (.edit newPromise_grows) fun promise =>
        .bind (stepAsyncFunction_grows hh inst promise _) fun _ => .pure _
  | asyncGenerator plan =>
    exact .bind (.edit (newActivation_grows plan scope true)) fun _ =>
      .bind (.edit (.of_eq fun _ => ⟨rfl, rfl⟩)) fun _ => .bind hrealm fun _ =>
        .bind (.edit (newGeneratorObject_grows _ _ _)) fun _ => .pure _

theorem callFunction_grows (f receiver : Value) (args : List Value) :
    (callFunction host f receiver args).Grows := by
  refine .bind (.read _) fun h => ?_
  split
  · exact native_grows hh _ receiver args
  · exact closure_grows hh f _ receiver args
  · exact throwType_grows _

end Calls

/-- Calls only add scopes and plans, however deep they nest. -/
theorem withFuel_grows (fuel : Nat) : (Host.withFuel fuel).Grows := by
  refine ⟨?_, rfl⟩
  show ∀ f receiver args, (callWithin fuel f receiver args).Grows
  induction fuel with
  | zero => exact fun _ _ _ => .exhausted
  | succ fuel ih => exact fun f receiver args => callFunction_grows ⟨ih, rfl⟩ f receiver args

section Jobs

variable {host : Host} (hh : host.Grows)

include hh

theorem job_grows (job : Job) : (job.run host).Grows := by
  match job with
  | .react (.resume k) s => exact continuation_grows hh k s
  | .react (.handlers onFulfilled onRejected resolve reject) s =>
    exact (handlers_related hh.suits onFulfilled onRejected resolve reject s).2
  | .adopt thenable method resolve reject =>
    exact (adopt_related hh.suits thenable method resolve reject).2

theorem runJobs_grows (n : Nat) : (runJobs host n).Grows := by
  induction n with
  | zero => exact .exhausted
  | succ n ih =>
    refine .bind (.edit fun w => ?_) fun job => ?_
    · show w.Adds (Edit.dequeue w).2
      rw [dequeue_apply]
      cases w.jobs <;> exact .of_eq rfl rfl
    · cases job with
      | none => exact .pure _
      | some job => exact .bind (job_grows hh job) fun _ => ih

end Jobs

theorem runProgram_grows (program : List Stmt) : (Session.runProgram program).Grows := by
  have hh : Session.host.Grows := withFuel_grows Session.fuel
  refine .bind (hoistVars_related (R := growing) (fun _ => trivial) _ program).2 fun _ =>
    .bind (instantiate_related growing.toEvalRelation _ _ fun _ _ => trivial).2.attempt fun r => ?_
  cases r with
  | error c => exact .pure _
  | ok =>
    exact .bind (execStmts_suited hh.suits _ _ program).2.attempt fun _ =>
      .bind (runJobs_grows hh _) fun _ => .pure _

theorem sessionResume_grows (generator : Value) (a : Action) :
    (Session.resumeGenerator generator a).Grows := by
  refine .bind (.read _) fun h => ?_
  cases h.generator? generator with
  | some id => exact resume_grows (withFuel_grows Session.fuel) id a
  | none => exact .pure _

end Resumable
