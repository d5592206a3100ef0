import Resumable.Call
import Resumable.Proofs.Eval.Statements

/-!
How calls end: with a value, an exception or a fatal error, and never with a jump or a `return` that
is still on its way. Main statement: `callWithin_onlyThrows`.
-/

set_option autoImplicit false

namespace Resumable

def Abrupt.leavesCalls : Abrupt → Bool
  | .throw _ | .fatal _ => true
  | .ret _ | .brk _ | .cont _ => false

/-- Whether every abrupt completion of a run has a property. -/
def RunOn.EndsIn {α : Type} (P : Abrupt → Prop) (x : Run α) : Prop :=
  ∀ s c s', x s = .abrupt c s' → P c

namespace RunOn.EndsIn

variable {α β : Type} {x : Run α} {P Q : Abrupt → Prop}

theorem pure (a : α) : (Pure.pure a : Run α).EndsIn P := nofun

theorem exhausted : (Run.exhausted : Run α).EndsIn P := nofun

theorem mono (hx : x.EndsIn Q) (h : ∀ c, Q c → P c) : x.EndsIn P :=
  fun s c s' hc => h c (hx s c s' hc)

theorem bind {f : α → Run β} (hx : x.EndsIn P) (hf : ∀ a, (f a).EndsIn P) :
    (x >>= f).EndsIn P := by
  intro s c s' h
  simp only [Bind.bind, RunOn.bind] at h
  cases hxs : x s with
  | done a t =>
    rw [hxs] at h
    exact hf a t c s' h
  | abrupt d t =>
    rw [hxs] at h
    cases h
    exact hx s c s' hxs
  | exhausted =>
    rw [hxs] at h
    cases h

theorem attempt (x : Run α) : x.attempt.EndsIn P := by
  intro s c s' h
  simp only [RunOn.attempt] at h
  cases hxs : x s <;> simp [hxs] at h

theorem edit (x : Edit α) : (Run.edit x : Run α).EndsIn P := nofun

theorem read (view : World → α) : (Run.read view : Run α).EndsIn P := nofun

theorem abrupt {c : Abrupt} (hc : P c) : (Run.abrupt c : Run α).EndsIn P := by
  intro s d s' h
  cases h
  exact hc

/-- Binding after an attempt, when it is known how the run could end. -/
theorem attempt_bind {f : Except Abrupt α → Run β} (hx : x.EndsIn Q)
    (hok : ∀ a, (f (.ok a)).EndsIn P) (herror : ∀ c, Q c → (f (.error c)).EndsIn P) :
    (x.attempt >>= f).EndsIn P := by
  intro s c s' h
  simp only [Bind.bind, RunOn.bind, RunOn.attempt] at h
  cases hxs : x s with
  | done a t =>
    rw [hxs] at h
    exact hok a t c s' h
  | abrupt d t =>
    rw [hxs] at h
    exact herror d (hx s d t hxs) t c s' h
  | exhausted =>
    rw [hxs] at h
    cases h

end RunOn.EndsIn

/-- Whether a run completes abruptly only as a call may. -/
abbrev RunOn.OnlyThrows {α : Type} (x : Run α) : Prop := x.EndsIn (·.leavesCalls = true)

theorem RunOn.EndsIn.throwNew {α : Type} (kind : ErrorKind) (message : String) :
    (Run.throwNew kind message : Run α).OnlyThrows :=
  .bind (.edit _) fun _ => .abrupt rfl

open RunOn (OnlyThrows)

/-- Whether all values that a run can give have a property. -/
def RunOn.Gives {α : Type} (P : α → Prop) (x : Run α) : Prop := ∀ w a w', x w = .done a w' → P a

namespace RunOn.Gives

variable {α β : Type} {P : β → Prop} {x : Run α}

theorem pure {b : β} (h : P b) : RunOn.Gives P (Pure.pure b : Run β) := by
  intro w a w' ha
  cases ha
  exact h

theorem exhausted : RunOn.Gives P (Run.exhausted : Run β) := nofun

theorem bind {f : α → Run β} (h : ∀ a, RunOn.Gives P (f a)) : RunOn.Gives P (x >>= f) := by
  intro w b w' hb
  simp only [Bind.bind, RunOn.bind] at hb
  cases hx : x w with
  | done a w₁ =>
    rw [hx] at hb
    exact h a w₁ b w' hb
  | abrupt c w₁ | exhausted =>
    rw [hx] at hb
    cases hb

theorem attempt_bind {f : Except Abrupt α → Run β} (hx : x.OnlyThrows)
    (hok : ∀ a, RunOn.Gives P (f (.ok a)))
    (herror : ∀ c, c.leavesCalls = true → RunOn.Gives P (f (.error c))) :
    RunOn.Gives P (x.attempt >>= f) := by
  intro w b w' hb
  simp only [Bind.bind, RunOn.bind, RunOn.attempt] at hb
  cases hxw : x w with
  | done a w₁ =>
    rw [hxw] at hb
    exact hok a w₁ b w' hb
  | abrupt c w₁ =>
    rw [hxw] at hb
    exact herror c (hx w c w₁ hxw) w₁ b w' hb
  | exhausted =>
    rw [hxw] at hb
    cases hb

end RunOn.Gives

/-- Runs that are the same and complete only as calls may. -/
def onlyThrows : RunRelation World World where
  rel x y := x = y ∧ x.OnlyThrows
  occurs c := c.leavesCalls = true
  names _ := True
  throw_occurs _ := rfl
  fatal_occurs _ := rfl
  pure a := ⟨rfl, .pure a⟩
  bind hx hf := ⟨by rw [hx.1, funext fun a => (hf a).1], hx.2.bind fun a => (hf a).2⟩
  attempt := by
    rintro α β x _ f g ⟨rfl, hx⟩ hok herror
    refine ⟨?_, hx.attempt_bind (fun a => (hok a).2) fun c hc => (herror c hc).2⟩
    funext s
    simp only [Bind.bind, RunOn.bind, RunOn.attempt]
    cases hxs : x s with
    | done a t => exact congrFun (hok a).1 t
    | abrupt c t => exact congrFun (herror c (hx s c t hxs)).1 t
    | exhausted => rfl
  abrupt c hc := ⟨rfl, .abrupt hc⟩
  exhausted := ⟨rfl, .exhausted⟩
  heap := ⟨rfl, .read _⟩
  lookup _ _ _ := ⟨rfl, .read _⟩
  has _ _ _ := ⟨rfl, .read _⟩
  this _ := ⟨rfl, .read _⟩
  edit _ _ _ := ⟨rfl, .edit _⟩
  newScope _ := ⟨rfl, .edit _⟩
  copyScope _ := ⟨rfl, .edit _⟩
  declare _ _ _ _ := ⟨rfl, .edit _⟩
  assign _ _ _ _ := ⟨rfl, .edit _⟩
  define _ _ _ _ _ := ⟨rfl, .edit _⟩

/-- Whether the calls of a host end as calls do, and its suspend expressions are errors. -/
structure Host.Proper (host : Host) : Prop where
  call : ∀ f receiver args, (host.call f receiver args).OnlyThrows
  suspend : host.suspend = refuseSuspend

theorem Host.Proper.related {host : Host} (h : host.Proper) :
    HostRelated onlyThrows.toEvalRelation host host where
  call f receiver args := ⟨rfl, h.call f receiver args⟩
  fuel := .same _
  await x y _ := by
    rw [h.suspend]
    exact refuseSuspend_related onlyThrows.toEvalRelation .await x y

theorem Host.Proper.suspends {host : Host} (h : host.Proper) :
    SuspendsRelated onlyThrows.toEvalRelation host host := by
  intro kind x y _
  rw [h.suspend]
  exact refuseSuspend_related onlyThrows.toEvalRelation kind x y

section Machine

variable (host : Host)

theorem unwindThrough_onlyThrows (g : Instance) (signal : Signal) (frames : List Frame) :
    (g.unwindThrough host signal frames).OnlyThrows := by
  induction frames generalizing g signal with
  | nil => exact .pure _
  | cons f outer ih =>
    unfold Instance.unwindThrough
    cases signal.landing? (outer.length + 1) with
    | some j => exact .pure _
    | none =>
      dsimp only
      cases f.kind.receive signal with
      | handle | finalize => exact .pure _
      | pass => exact ih g signal
      | close iterator =>
        refine .bind (.attempt _) fun r => ?_
        match r with
        | .error (.throw v) => exact ih _ (.throw v)
        | .error (.fatal e) => exact .pure _
        | .error (.ret _) | .error (.brk _) | .error (.cont _) | .ok () => exact ih _ signal

theorem unwind_onlyThrows (g : Instance) (signal : Signal) :
    (g.unwind host signal).OnlyThrows :=
  unwindThrough_onlyThrows host g signal g.frames

theorem jump_onlyThrows (g : Instance) (label : Option String) (isContinue : Bool) :
    (g.jump host label isContinue).OnlyThrows := by
  unfold Instance.jump
  cases jumpAmong label isContinue g.loops with
  | some j => exact unwind_onlyThrows host g _
  | none => exact .bind (.edit _) fun _ => unwind_onlyThrows host g _

theorem complete_onlyThrows (g : Instance) (c : Abrupt) : (g.complete host c).OnlyThrows := by
  cases c with
  | ret | throw => exact unwind_onlyThrows host g _
  | brk | cont => exact jump_onlyThrows host g _ _
  | fatal => exact .pure _

theorem after_onlyThrows {α : Type} (g : Instance) (x : Run α) (next : α → Run Turn)
    (h : ∀ a, (next a).OnlyThrows) : (g.after host x next).OnlyThrows := by
  refine .bind (.attempt x) fun r => ?_
  cases r with
  | ok a => exact h a
  | error c => exact complete_onlyThrows host g c

theorem store_onlyThrows (g : Instance) (slot : Option String) (next : Nat) (v : Value) :
    (g.store host slot next v).OnlyThrows := by
  cases slot with
  | none => exact .pure _
  | some name => exact after_onlyThrows host g _ _ fun _ => .pure _

theorem storeResume_onlyThrows (g : Instance) (v : Value) : (g.storeResume host v).OnlyThrows := by
  unfold Instance.storeResume
  split
  · exact store_onlyThrows host g _ _ v
  all_goals
    first
    | exact .exhausted
    | split
      · exact store_onlyThrows host _ _ _ v
      · exact .exhausted

theorem delegateDone_onlyThrows (g : Instance) (v : Value) :
    (g.delegateDone host v).OnlyThrows := by
  unfold Instance.delegateDone
  split
  · exact unwind_onlyThrows host _ _
  · exact storeResume_onlyThrows host _ v

theorem delegateResult_onlyThrows (g : Instance) (result : Value) :
    (g.delegateResult host result).OnlyThrows := by
  refine .bind (.read _) fun h => ?_
  split
  · exact .pure _
  · cases malformed? h result with
    | some e => exact .pure _
    | none =>
      dsimp only
      split
      · exact delegateDone_onlyThrows host g _
      · exact .pure _

theorem delegateMissing_onlyThrows (g : Instance) (iterator : Value) (m : Method) (v : Value) :
    (g.delegateMissing host iterator m v).OnlyThrows := by
  cases m with
  | next | ret => exact unwind_onlyThrows host g _
  | throw =>
    refine after_onlyThrows host g _ _ fun _ => ?_
    exact .bind (.edit _) fun _ => unwind_onlyThrows host g _

theorem passOn_onlyThrows (g : Instance) (m : Method) (v : Value) :
    (g.passOn host m v).OnlyThrows := by
  unfold Instance.passOn
  cases g.delegation with
  | none => exact storeResume_onlyThrows host g v
  | some d =>
    dsimp only
    cases d.native with
    | some inner => exact .pure _
    | none =>
      refine .bind (.attempt _) fun r => ?_
      rcases r with c | _ | result
      · exact complete_onlyThrows host _ c
      · exact delegateMissing_onlyThrows host _ _ m v
      · exact delegateResult_onlyThrows host _ result

theorem startDelegation_onlyThrows (g : Instance) (iterable : Value) :
    (g.startDelegation host iterable).OnlyThrows :=
  .bind (.read _) fun _ => after_onlyThrows host g _ _ fun _ =>
    .bind (.read _) fun _ => passOn_onlyThrows host _ _ _

theorem bindElement_onlyThrows (g : Instance) (v : Value) :
    (g.bindElement host v).OnlyThrows := by
  unfold Instance.bindElement
  split
  · exact .bind (.edit _) fun _ => after_onlyThrows host _ _ _ fun _ => .pure _
  · exact .pure _

theorem iteratorResult_onlyThrows (g : Instance) (result : Value) :
    (g.iteratorResult host result).OnlyThrows := by
  refine .bind (.read _) fun h => ?_
  cases malformed? h result with
  | some e => exact .pure _
  | none =>
    dsimp only
    split
    · split <;> exact .pure _
    · split
      · exact .pure _
      · exact bindElement_onlyThrows host g _

theorem moveNext_onlyThrows (g : Instance) (isAsync : Bool) :
    (g.moveNext host isAsync).OnlyThrows := by
  unfold Instance.moveNext
  cases g.iterator? with
  | none => exact .bind (.edit _) fun _ => unwind_onlyThrows host g _
  | some record =>
    refine .bind (.attempt _) fun r => ?_
    cases r with
    | error c => exact complete_onlyThrows host _ c
    | ok result =>
      dsimp only
      split
      · exact .pure _
      · exact iteratorResult_onlyThrows host g result

theorem exitTry_onlyThrows (g : Instance) (next : Nat) (close : Bool) :
    (g.exitTry host next close).OnlyThrows := by
  unfold Instance.exitTry
  split
  · exact .pure _
  · dsimp only
    split
    all_goals
      first
      | exact .pure _
      | split
        · exact after_onlyThrows host _ _ _ fun _ => .pure _
        · exact .pure _

theorem endFinally_onlyThrows (g : Instance) (next : Nat) :
    (g.endFinally host next).OnlyThrows := by
  unfold Instance.endFinally
  split
  · exact unwind_onlyThrows host _ _
  · exact .pure _

theorem bindCatch_onlyThrows (g : Instance) (param : Option Pattern) (next : Nat) :
    (g.bindCatch host param next).OnlyThrows := by
  refine .bind (.edit _) fun scope => ?_
  cases param with
  | none => exact .pure _
  | some p => exact after_onlyThrows host _ _ _ fun _ => .pure _

theorem dispatch_onlyThrows (g : Instance) (i : Instr) : (g.dispatch host i).OnlyThrows := by
  cases i with
  | evaluate | yield | await | branch | openIterator =>
    exact after_onlyThrows host g _ _ fun _ => .pure _
  | yieldStar => exact after_onlyThrows host g _ _ fun _ => startDelegation_onlyThrows host g _
  | store => exact storeResume_onlyThrows host g _
  | jump | enterTry | popScope | enterLoop | exitLoop => exact .pure _
  | exitTry next close => exact exitTry_onlyThrows host g next close
  | bindCatch param next => exact bindCatch_onlyThrows host g param next
  | endFinally next => exact endFinally_onlyThrows host g next
  | pushScope => exact .bind (.edit _) fun _ => after_onlyThrows host _ _ _ fun _ => .pure _
  | copyScope => exact .bind (.edit _) fun _ => .pure _
  | brk | cont => exact jump_onlyThrows host g _ _
  | moveNext _ _ _ _ isAsync => exact moveNext_onlyThrows host g isAsync
  | ret | throw => exact after_onlyThrows host g _ _ fun _ => unwind_onlyThrows host g _

theorem execute_onlyThrows (n : Nat) (g : Instance) : (g.execute host n).OnlyThrows := by
  induction n generalizing g with
  | zero => exact .exhausted
  | succ n ih =>
    unfold Instance.execute
    cases g.instr? with
    | none => exact .exhausted
    | some i =>
      refine .bind (dispatch_onlyThrows host g i) fun t => ?_
      cases t with
      | goOn g => exact ih g
      | pause g p => exact .pure _

theorem settled_onlyThrows (g : Instance) (awaiting : Option AwaitKind) (s : Settlement) :
    (g.settled host awaiting s).OnlyThrows := by
  cases s with
  | fulfilled v =>
    match awaiting with
    | some .delegate => exact delegateResult_onlyThrows host g v
    | some .result => exact iteratorResult_onlyThrows host g v
    | some .element => exact bindElement_onlyThrows host g v
    | some .value | none => exact storeResume_onlyThrows host g v
  | rejected v =>
    match awaiting with
    | some .delegate => exact passOn_onlyThrows host g _ v
    | some .result | some .element | some .value | none => exact unwind_onlyThrows host _ _

theorem resumed_onlyThrows (g : Instance) (a : Action) : (g.resumed host a).OnlyThrows := by
  cases a with
  | settled s => exact settled_onlyThrows host _ _ s
  | delegateDone v => exact delegateDone_onlyThrows host _ v
  | delegateThrew v => exact unwind_onlyThrows host _ _
  | next v => exact passOn_onlyThrows host _ _ v
  | throw v | ret v =>
    simp only [Instance.resumed]
    split
    · exact passOn_onlyThrows host _ _ v
    · exact unwind_onlyThrows host _ _

theorem runOn_onlyThrows (steps : Nat) (t : Turn) : (Instance.runOn host steps t).OnlyThrows := by
  cases t with
  | goOn g => exact execute_onlyThrows host steps g
  | pause g p => exact .pure _

theorem slice_onlyThrows (steps : Nat) (g : Instance) (a : Action) :
    (g.slice host steps a).OnlyThrows := by
  unfold Instance.slice
  cases g.status with
  | suspendedStart => exact runOn_onlyThrows host steps _
  | suspendedYield | executing | completed =>
    exact .bind (resumed_onlyThrows host _ a) (runOn_onlyThrows host steps)

theorem runSlice_onlyThrows (id : InstanceId) (g : Instance) (a : Action) :
    (runSlice host id g a).OnlyThrows :=
  .bind (.edit _) fun _ => .bind (slice_onlyThrows host _ g a) fun _ =>
    .bind (.edit _) fun _ => .pure _

theorem resumeOne_onlyThrows (id : InstanceId) (a : Action) :
    (resumeOne host id a).OnlyThrows := by
  refine .bind (.edit _) fun g => ?_
  cases g with
  | none => exact .pure _
  | some g =>
    refine .bind (.edit _) fun r => ?_
    match r with
    | .error promise => exact .pure _
    | .ok (g, a) =>
      dsimp only
      cases g.status with
      | completed => exact .pure _
      | executing =>
        dsimp only
        split
        · exact runSlice_onlyThrows host id g a
        · exact .pure _
      | suspendedStart | suspendedYield => exact runSlice_onlyThrows host id g a

theorem resumeChain_onlyThrows (n : Nat) (outer : List InstanceId) (id : InstanceId) (a : Action) :
    (resumeChain host n outer id a).OnlyThrows := by
  induction n generalizing outer id a with
  | zero => exact .exhausted
  | succ n ih =>
    refine .bind (resumeOne_onlyThrows host id a) fun p => ?_
    match p with
    | .delegate inner a => exact ih _ inner a
    | .stop (.returned v) | .stop (.threw v) =>
      cases outer with
      | nil => exact .pure _
      | cons next outer => exact ih outer next _
    | .stop (.failed e) => exact .bind (.edit _) fun _ => .pure _
    | .stop (.awaiting promise) => exact .bind (.edit _) fun _ => .bind (.edit _) fun _ => .pure _
    | .stop (.yielded v) => exact .bind (.edit _) fun _ => .pure _

theorem resume_onlyThrows (id : InstanceId) (a : Action) : (resume host id a).OnlyThrows :=
  resumeChain_onlyThrows host _ _ id a

end Machine

section Calls

variable (host : Host)

theorem toResult_onlyThrows (s : Stop) : s.toResult.OnlyThrows := by
  cases s with
  | yielded | awaiting | returned => exact .bind (.edit _) fun _ => .pure _
  | threw | failed => exact .abrupt rfl

theorem serve_onlyThrows (id : AsyncGeneratorId) (inst : InstanceId) (a : Action) :
    (AsyncGenerator.serve host id inst a).OnlyThrows := by
  refine .bind (resume_onlyThrows host inst a) fun s => ?_
  cases s with
  | awaiting | threw => exact .bind (.edit _) fun _ => .pure _
  | yielded | returned | failed =>
    exact .bind (.edit _) fun _ => .bind (.edit _) fun _ => .pure _

theorem asyncDrain_onlyThrows (id : AsyncGeneratorId) (n : Nat) :
    (AsyncGenerator.drain host id n).OnlyThrows := by
  induction n with
  | zero => exact .exhausted
  | succ n ih =>
    refine .bind (.edit _) fun a => ?_
    cases a with
    | none => exact .pure _
    | some a =>
      dsimp only
      cases a.queue with
      | nil => exact .edit _
      | cons r _ =>
        refine .bind (.edit _) fun _ => .bind (serve_onlyThrows host id a.inst r.action) fun more => ?_
        cases more with
        | true => exact ih
        | false => exact .pure _

theorem requestNext_onlyThrows (receiver : Value) (m : Method) (v : Value) :
    (requestNext host receiver m v).OnlyThrows := by
  refine .bind (.edit _) fun promise => .bind (.read _) fun h => ?_
  cases h.asyncGenerator? receiver with
  | none => exact .bind (.edit _) fun _ => .bind (.edit _) fun _ => .pure _
  | some id =>
    refine .bind (.edit _) fun _ => .bind (.edit _) fun a => ?_
    dsimp only
    split
    · exact .bind (asyncDrain_onlyThrows host id _) fun _ => .pure _
    · exact .pure _

theorem stepAsyncFunction_onlyThrows (inst : InstanceId) (promise : ObjectId) (a : Action) :
    (stepAsyncFunction host inst promise a).OnlyThrows := by
  refine .bind (resume_onlyThrows host inst a) fun s => ?_
  cases s with
  | awaiting | returned | threw => exact .edit _
  | yielded | failed => exact .bind (.edit _) fun _ => .edit _

theorem startAsyncFunction_onlyThrows (inst : InstanceId) :
    (startAsyncFunction host inst).OnlyThrows :=
  .bind (.edit _) fun _ => .bind (stepAsyncFunction_onlyThrows host inst _ _) fun _ => .pure _

/-- What the constructor of promises does with its executor, which gets the two functions of the
promise; an exception rejects it. -/
def Native.callExecutor (executor : Value) (promise : ObjectId) (r : Promise.Resolvers) : Run Value := do
  match ← (host.call executor .undefined [r.resolve, r.reject]).attempt with
  | .error (.throw v) =>
    let _ ← (host.call r.reject .undefined [v]).attempt
  | .error (.fatal e) => Run.fatal e
  | _ => pure ()
  return .obj promise

/-- The constructor of promises on an executor that can be called. -/
def Native.startPromise (executor : Value) : Run Value := do
  let promise ← Edit.newPromise
  let r ← Promise.newResolvers promise
  Native.callExecutor host executor promise r

theorem callExecutor_onlyThrows (executor : Value) (promise : ObjectId) (r : Promise.Resolvers) :
    (Native.callExecutor host executor promise r).OnlyThrows := by
  refine .bind (.attempt _) fun x => ?_
  cases x with
  | ok => exact .pure _
  | error c =>
    cases c with
    | throw v => exact .bind (.attempt _) fun _ => .pure _
    | fatal e => exact .bind (.abrupt rfl) fun _ => .pure _
    | ret | brk | cont => exact .pure _

theorem constructPromise_onlyThrows (executor : Value) :
    (Native.constructPromise host executor).OnlyThrows := by
  have hrest := callExecutor_onlyThrows host executor
  refine .bind (.read _) fun h => ?_
  dsimp only
  split
  · exact .bind (.throwNew _ _) fun _ => .bind (.edit _) fun _ => .bind (.edit _) fun _ => hrest _ _
  · exact .bind (.edit _) fun _ => .bind (.edit _) fun _ => hrest _ _

theorem pushAll_onlyThrows (receiver : Value) (items : List Value) :
    (Native.pushAll receiver items).OnlyThrows := by
  cases receiver with
  | obj id =>
    refine .bind (.read _) fun h => ?_
    cases h.elements? (.obj id) with
    | some elements => exact .bind (.edit _) fun _ => .pure _
    | none => exact .throwNew _ _
  | _ => exact .throwNew _ _

theorem iterateArray_onlyThrows (receiver : Value) (overKeys : Bool) :
    (Native.iterateArray receiver overKeys).OnlyThrows := by
  cases receiver with
  | obj id => exact .bind (.edit _) fun _ => .pure _
  | _ => exact .throwNew _ _

theorem nextElement_onlyThrows (receiver : Value) : (Native.nextElement receiver).OnlyThrows := by
  refine .bind (.read _) fun h => ?_
  split
  · split
    · exact .bind (.edit _) fun _ => .bind (.edit _) fun _ => .pure _
    · exact .bind (.edit _) fun _ => .bind (.edit _) fun _ => .pure _
  · exact .throwNew _ _

theorem resumeGenerator_onlyThrows (receiver : Value) (m : Method) (v : Value) :
    (Native.resumeGenerator host receiver m v).OnlyThrows := by
  refine .bind (.read _) fun h => ?_
  cases h.generator? receiver with
  | some id => exact .bind (resume_onlyThrows host id _) toResult_onlyThrows
  | none => exact .throwNew _ _

theorem thenPromise_onlyThrows (receiver onFulfilled onRejected : Value) :
    (Native.thenPromise receiver onFulfilled onRejected).OnlyThrows := by
  refine .bind (.read _) fun h => ?_
  split
  · exact .bind (.edit _) fun _ => .pure _
  · exact .throwNew _ _

theorem takeLatch_onlyThrows (latch : LatchId) (x : Edit Unit) : (do
    if ← Edit.takeLatch latch then x
    return .undefined : Run Value).OnlyThrows := by
  refine .bind (.edit _) fun was => ?_
  dsimp only
  split
  · exact .bind (.edit _) fun _ => .pure _
  · exact .pure _

theorem native_onlyThrows (n : Native) (receiver : Value) (args : List Value) :
    (n.call host receiver args).OnlyThrows := by
  cases n with
  | log => exact .bind (.read _) fun _ => .bind (.edit _) fun _ => .pure _
  | push => exact pushAll_onlyThrows receiver args
  | join => exact .bind (.read _) fun _ => .pure _
  | values | keys => exact iterateArray_onlyThrows receiver _
  | self => exact .pure _
  | arrayIteratorNext => exact nextElement_onlyThrows receiver
  | generator m => exact resumeGenerator_onlyThrows host receiver m _
  | asyncGenerator m => exact requestNext_onlyThrows host receiver m _
  | promise => exact constructPromise_onlyThrows host _
  | promiseThen | promiseCatch => exact thenPromise_onlyThrows receiver _ _
  | promiseResolve | error | symbol => exact .bind (.edit _) fun _ => .pure _
  | promiseReject => exact .bind (.edit _) fun _ => .bind (.edit _) fun _ => .pure _
  | resolve _ latch | reject _ latch => exact takeLatch_onlyThrows latch _

variable {host : Host}

theorem enter_onlyThrows (hh : host.Proper) (c : Closure) (receiver : Value) (args : List Value) :
    (c.enter host receiver args).OnlyThrows := by
  have hrest (scope : ScopeId) : (do
      bindParams host scope c.params args
      hoistVars scope c.body
      instantiate scope (declaredFunctions c.body)
      return scope : Run ScopeId).OnlyThrows :=
    .bind (bindParams_related hh.related (fun _ => trivial) hh.suspends scope c.params args).2
      fun _ => .bind (.edit _) fun _ =>
        .bind (instantiate_related onlyThrows.toEvalRelation scope _ fun _ _ => trivial).2
          fun _ => .pure _
  refine .bind (.edit _) fun scope => ?_
  dsimp only
  split
  · exact .bind (.edit _) fun _ => hrest scope
  · exact hrest scope

theorem runBody_onlyThrows (c : Closure) (scope : ScopeId) :
    (c.runBody host scope).OnlyThrows := by
  refine .bind (.attempt _) fun r => ?_
  match r with
  | .ok _ | .error (.ret _) => exact .pure _
  | .error (.brk _) | .error (.cont _) => exact .throwNew _ _
  | .error (.throw _) | .error (.fatal _) => exact .abrupt rfl

theorem closure_onlyThrows (hh : host.Proper) (f : Value) (c : Closure) (receiver : Value)
    (args : List Value) : (c.call host f receiver args).OnlyThrows := by
  refine .bind (enter_onlyThrows hh c receiver args) fun scope => ?_
  cases c.routine with
  | plain => exact runBody_onlyThrows c scope
  | generator plan =>
    exact .bind (.edit _) fun _ => .bind (.edit _) fun _ => .bind (.edit _) fun _ => .pure _
  | async plan => exact .bind (.edit _) fun inst => startAsyncFunction_onlyThrows host inst
  | asyncGenerator plan =>
    exact .bind (.edit _) fun _ => .bind (.edit _) fun _ => .bind (.edit _) fun _ =>
      .bind (.edit _) fun _ => .pure _

theorem callFunction_onlyThrows (hh : host.Proper) (f receiver : Value) (args : List Value) :
    (callFunction host f receiver args).OnlyThrows := by
  refine .bind (.read _) fun h => ?_
  split
  · exact native_onlyThrows host _ receiver args
  · exact closure_onlyThrows hh f _ receiver args
  · exact .throwNew _ _

end Calls

theorem callWithin_onlyThrows (fuel : Nat) (f receiver : Value) (args : List Value) :
    (callWithin fuel f receiver args).OnlyThrows := by
  induction fuel generalizing f receiver args with
  | zero => exact .exhausted
  | succ fuel ih => exact callFunction_onlyThrows ⟨ih, rfl⟩ f receiver args

theorem withFuel_proper (fuel : Nat) : (Host.withFuel fuel).Proper :=
  ⟨callWithin_onlyThrows fuel, rfl⟩

theorem eval_onlyThrows {host : Host} (hh : host.Proper) (scope : ScopeId) (hint : Option String)
    (e : Expr) : (e.eval host scope hint).OnlyThrows :=
  (e.eval_related_of_all hh.related (fun _ => trivial) scope hint fun _ => hh.suspends).2

end Resumable
