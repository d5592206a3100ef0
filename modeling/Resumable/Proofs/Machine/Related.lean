import Resumable.Jobs
import Resumable.Proofs.Eval.Statements

/-!
Calls and instances respect every relation between runs that the script code in them respects. Main
statements: `enter_related`, `dispatch_related`, `slice_related`.
-/

set_option autoImplicit false

namespace Resumable

/-- Whether all code that one host runs is related to the same code run by another. -/
structure RunRelation.Suits (R : RunRelation World World) (host host' : Host) : Prop where
  calls : HostRelated R.toEvalRelation host host'
  suspends : SuspendsRelated R.toEvalRelation host host'
  names : ∀ name, R.names name
  occurs : ∀ c, R.occurs c

section Iterators

variable {R : EvalRelation World World} {host host' : Host} (hh : HostRelated R host host')

include hh

theorem openIterator_related (v : Value) (isAsync overKeys : Bool) :
    R.rel (Instance.openIterator host v isAsync overKeys)
      (Instance.openIterator host' v isAsync overKeys) := by
  unfold Instance.openIterator
  split
  · exact overKeys_related R v
  · split
    · exact ofAsync_related hh v
    · exact ofValue_related hh v

theorem forward_related (r : IteratorRecord) (m : Method) (v : Value) :
    R.rel (r.forward host m v) (r.forward host' m v) := by
  cases m with
  | next => exact R.bind (callNext_related hh r [v]) fun _ => R.pure _
  | throw | ret =>
    refine R.bind (method_related R r.iterator _) fun f => ?_
    cases f with
    | some f => exact R.bind (hh.call f r.iterator [v]) fun _ => R.pure _
    | none => exact R.pure _

end Iterators

section Scripts

variable {R : RunRelation World World} {host host' : Host} (hR : R.Suits host host')

theorem newError_related (R : RunRelation World World) (kind : ErrorKind) (message : String) :
    R.rel (Run.edit (Edit.newError kind message)) (Run.edit (Edit.newError kind message)) :=
  R.edit _ (newError_local kind message) (newError_calm kind message)

include hR

theorem eval_suited (scope : ScopeId) (hint : Option String) (e : Expr) :
    R.rel (e.eval host scope hint) (e.eval host' scope hint) :=
  e.eval_related_of_all hR.calls hR.names scope hint fun _ => hR.suspends

theorem evalOption_suited (scope : ScopeId) (e : Option Expr) :
    R.rel (evalOption host scope e) (evalOption host' scope e) :=
  evalOption_related hR.calls hR.names scope e fun _ => hR.suspends

theorem exec_suited (scope : ScopeId) (s : Stmt) :
    R.rel (s.exec host scope []) (s.exec host' scope []) :=
  s.exec_related hR.calls hR.names hR.occurs scope [] fun _ => hR.suspends

theorem bind_suited (scope : ScopeId) (kind : Option VarKind) (p : Pattern) (v : Value) :
    R.rel (p.bind host scope kind v) (p.bind host' scope kind v) :=
  p.bind_related hR.calls hR.names scope kind v fun _ => hR.suspends

end Scripts

section Calls

variable {R : RunRelation World World} {host host' : Host} (hR : R.Suits host host')

theorem toResult_related (R : RunRelation World World) (s : Stop) : R.rel s.toResult s.toResult := by
  cases s with
  | yielded | awaiting | returned =>
    exact R.bind (R.edit _ (newResult_local _ _) (newResult_calm _ _)) fun _ => R.pure _
  | threw v => exact throwValue_related R.toEvalRelation v
  | failed e => exact fatal_related R.toEvalRelation e

theorem iterateArray_related (R : RunRelation World World) (receiver : Value) (overKeys : Bool) :
    R.rel (Native.iterateArray receiver overKeys) (Native.iterateArray receiver overKeys) := by
  cases receiver with
  | obj id =>
    exact R.bind (R.edit _ (newArrayIterator_local _ _) (newArrayIterator_calm _ _)) fun _ => R.pure _
  | _ => exact throwType_related R.toEvalRelation _

theorem hoistVars_related (hn : ∀ name, R.names name) (scope : ScopeId) (body : List Stmt) :
    R.rel (Run.edit (hoistVars scope body)) (Run.edit (hoistVars scope body)) := by
  unfold hoistVars
  induction hoistedNames body with
  | nil => exact R.pure ()
  | cons name names ih => exact R.bind (R.declare scope name .var (hn name)) fun _ => ih

include hR

/-- The scope of a call. -/
theorem enter_related (c : Closure) (receiver : Value) (args : List Value) :
    R.rel (c.enter host receiver args) (c.enter host' receiver args) := by
  have hrest (scope : ScopeId) := R.bind
    (bindParams_related hR.calls hR.names hR.suspends scope c.params args) fun _ =>
      R.bind (hoistVars_related hR.names scope c.body) fun _ =>
        R.bind (instantiate_related R.toEvalRelation scope (declaredFunctions c.body)
          fun _ _ => hR.names _) fun _ => R.pure scope
  refine R.bind (R.newScope _) fun scope => ?_
  dsimp only
  split
  · exact R.bind (R.define _ _ _ _ (hR.names _)) fun _ => hrest scope
  · exact hrest scope

theorem execStmts_suited (scope : ScopeId) (last : Value) (ss : List Stmt) :
    R.rel (execStmts host scope last ss) (execStmts host' scope last ss) :=
  execStmts_related hR.calls hR.names hR.occurs ss scope last fun _ => hR.suspends

theorem runBody_related (c : Closure) (scope : ScopeId) :
    R.rel (c.runBody host scope) (c.runBody host' scope) := by
  refine R.attempt (execStmts_suited hR scope _ c.body) (fun _ => R.pure _) fun e he => ?_
  match e with
  | .ret _ => exact R.pure _
  | .brk _ | .cont _ => exact throwNew_related R.toEvalRelation _ _
  | .throw _ | .fatal _ => exact R.abrupt _ he

theorem executed_related (executor : Value) (promise : ObjectId) (r : Promise.Resolvers) :
    let x (host : Host) : Run Value := do
      match ← (host.call executor .undefined [r.resolve, r.reject]).attempt with
      | .error (.throw v) => let _ ← (host.call r.reject .undefined [v]).attempt
      | .error (.fatal e) => Run.fatal e
      | _ => pure ()
      return .obj promise
    R.rel (x host) (x host') := by
  refine R.attempt (hR.calls.call _ _ _) (fun _ => R.pure _) fun c hc => ?_
  match c with
  | .throw v => exact R.bind (attempt_related (hR.calls.call _ _ _)) fun _ => R.pure _
  | .fatal e => exact R.bind (R.abrupt _ hc) fun _ => R.pure _
  | .ret _ | .brk _ | .cont _ => exact R.pure _

theorem settleDerived_related (outcome : Except Abrupt Value) (resolve reject : Value) :
    R.rel (settleDerived host outcome resolve reject) (settleDerived host' outcome resolve reject) := by
  match outcome with
  | .ok _ | .error (.throw _) =>
    exact R.bind (attempt_related (hR.calls.call _ _ _)) fun _ => R.pure _
  | .error (.ret _) | .error (.brk _) | .error (.cont _) | .error (.fatal _) => exact R.pure _

theorem handle_related (onFulfilled onRejected : Option Value) (s : Settlement) :
    R.rel (handle host onFulfilled onRejected s) (handle host' onFulfilled onRejected s) := by
  match s, onFulfilled, onRejected with
  | .fulfilled _, some _, _ | .rejected _, _, some _ =>
    exact attempt_related (hR.calls.call _ _ _)
  | .fulfilled _, none, _ | .rejected _, _, none => exact R.pure _

theorem adopt_related (thenable method resolve reject : Value) :
    R.rel ((Job.adopt thenable method resolve reject).run host)
      ((Job.adopt thenable method resolve reject).run host') := by
  refine R.attempt (hR.calls.call _ _ _) (fun _ => R.pure _) fun c _ => ?_
  match c with
  | .throw _ => exact R.bind (attempt_related (hR.calls.call _ _ _)) fun _ => R.pure _
  | .ret _ | .brk _ | .cont _ | .fatal _ => exact R.pure _

theorem handlers_related (onFulfilled onRejected : Option Value) (resolve reject : Value)
    (s : Settlement) :
    R.rel ((Reaction.handlers onFulfilled onRejected resolve reject).run host s)
      ((Reaction.handlers onFulfilled onRejected resolve reject).run host' s) :=
  R.bind (handle_related hR onFulfilled onRejected s) fun outcome =>
    settleDerived_related hR outcome resolve reject

end Calls

section Leaving

variable {R : RunRelation World World} {host host' : Host} (hR : R.Suits host host')

include hR

theorem unwindThrough_related (g : Instance) (signal : Signal) (frames : List Frame) :
    R.rel (g.unwindThrough host signal frames) (g.unwindThrough host' signal frames) := by
  induction frames generalizing g signal with
  | nil => exact R.pure _
  | cons f outer ih =>
    unfold Instance.unwindThrough
    cases signal.landing? (outer.length + 1) with
    | some j => exact R.pure _
    | none =>
      dsimp only
      cases f.kind.receive signal with
      | handle | finalize => exact R.pure _
      | pass => exact ih g signal
      | close iterator =>
        refine R.attempt (closeIterator_related hR.calls iterator _) (fun _ => ih _ _) fun c _ => ?_
        match c with
        | .throw v => exact ih _ _
        | .fatal e => exact R.pure _
        | .ret _ | .brk _ | .cont _ => exact ih _ _

theorem unwind_related (g : Instance) (signal : Signal) :
    R.rel (g.unwind host signal) (g.unwind host' signal) :=
  unwindThrough_related hR g signal g.frames

theorem jump_related (g : Instance) (label : Option String) (isContinue : Bool) :
    R.rel (g.jump host label isContinue) (g.jump host' label isContinue) := by
  unfold Instance.jump
  cases jumpAmong label isContinue g.loops with
  | some j => exact unwind_related hR g _
  | none => exact R.bind (newError_related R _ _) fun _ => unwind_related hR g _

theorem complete_related (g : Instance) (c : Abrupt) :
    R.rel (g.complete host c) (g.complete host' c) := by
  cases c with
  | ret | throw => exact unwind_related hR g _
  | brk | cont => exact jump_related hR g _ _
  | fatal => exact R.pure _

theorem after_related {α : Type} (g : Instance) {x y : Run α} (hx : R.rel x y)
    {next next' : α → Run Turn} (hnext : ∀ a, R.rel (next a) (next' a)) :
    R.rel (g.after host x next) (g.after host' y next') :=
  R.attempt hx hnext fun c _ => complete_related hR g c

theorem store_related (g : Instance) (slot : Option String) (next : Nat) (v : Value) :
    R.rel (g.store host slot next v) (g.store host' slot next v) := by
  cases slot with
  | none => exact R.pure _
  | some name =>
    exact after_related hR g (writeName_related R.toEvalRelation _ name v (hR.names name))
      fun _ => R.pure _

theorem storeResume_related (g : Instance) (v : Value) :
    R.rel (g.storeResume host v) (g.storeResume host' v) := by
  unfold Instance.storeResume
  split
  · exact store_related hR g _ _ v
  · split
    · exact store_related hR _ _ _ v
    · exact R.exhausted
  · split
    · exact store_related hR _ _ _ v
    · exact R.exhausted
  · split
    · exact store_related hR _ _ _ v
    · exact R.exhausted
  · exact R.exhausted

end Leaving

section Delegating

variable {R : RunRelation World World} {host host' : Host} (hR : R.Suits host host')

include hR

theorem delegateDone_related (g : Instance) (v : Value) :
    R.rel (g.delegateDone host v) (g.delegateDone host' v) := by
  unfold Instance.delegateDone
  split
  · exact unwind_related hR _ _
  · exact storeResume_related hR _ v

theorem delegateResult_related (g : Instance) (result : Value) :
    R.rel (g.delegateResult host result) (g.delegateResult host' result) := by
  refine R.bind R.heap fun h => ?_
  split
  · exact R.pure _
  · split
    · exact R.pure _
    · dsimp only
      split
      · exact delegateDone_related hR g _
      · exact R.pure _

theorem delegateMissing_related (g : Instance) (iterator : Value) (m : Method) (v : Value) :
    R.rel (g.delegateMissing host iterator m v) (g.delegateMissing host' iterator m v) := by
  cases m with
  | next | ret => exact unwind_related hR g _
  | throw =>
    exact after_related hR g (closeIterator_related hR.calls iterator false) fun _ =>
      R.bind (newError_related R _ _) fun _ => unwind_related hR g _

theorem passOn_related (g : Instance) (m : Method) (v : Value) :
    R.rel (g.passOn host m v) (g.passOn host' m v) := by
  unfold Instance.passOn
  cases g.delegation with
  | none => exact storeResume_related hR g v
  | some d =>
    dsimp only
    cases d.native with
    | some inner => exact R.pure _
    | none =>
      refine R.attempt (forward_related hR.calls d.record m v) (fun result => ?_) fun c _ =>
        complete_related hR _ c
      cases result with
      | some result => exact delegateResult_related hR _ result
      | none => exact delegateMissing_related hR _ _ m v

theorem startDelegation_related (g : Instance) (iterable : Value) :
    R.rel (g.startDelegation host iterable) (g.startDelegation host' iterable) := by
  refine R.bind R.heap fun h => after_related hR g ?_ fun record =>
    R.bind R.heap fun _ => passOn_related hR _ _ _
  split
  · exact ofAsync_related hR.calls iterable
  · exact ofValue_related hR.calls iterable

end Delegating

section Dispatching

variable {R : RunRelation World World} {host host' : Host} (hR : R.Suits host host')

include hR

theorem bindElement_related (g : Instance) (v : Value) :
    R.rel (g.bindElement host v) (g.bindElement host' v) := by
  unfold Instance.bindElement
  split
  · exact R.bind (R.newScope _) fun scope =>
      after_related hR _ (bind_suited hR scope _ _ v) fun _ => R.pure _
  · exact R.pure _

theorem iteratorResult_related (g : Instance) (result : Value) :
    R.rel (g.iteratorResult host result) (g.iteratorResult host' result) := by
  refine R.bind R.heap fun h => ?_
  split
  · exact R.pure _
  · split
    · split
      · exact R.pure _
      · exact R.pure _
    · dsimp only
      split
      · exact R.pure _
      · exact bindElement_related hR g _

theorem moveNext_related (g : Instance) (isAsync : Bool) :
    R.rel (g.moveNext host isAsync) (g.moveNext host' isAsync) := by
  unfold Instance.moveNext
  cases g.iterator? with
  | none => exact R.bind (newError_related R _ _) fun _ => unwind_related hR g _
  | some record =>
    refine R.attempt (callNext_related hR.calls record []) (fun result => ?_) fun c _ =>
      complete_related hR _ c
    cases isAsync with
    | true => exact R.pure _
    | false => exact iteratorResult_related hR g result

theorem exitTry_related (g : Instance) (next : Nat) (close : Bool) :
    R.rel (g.exitTry host next close) (g.exitTry host' next close) := by
  unfold Instance.exitTry
  split
  · exact R.pure _
  · dsimp only
    split
    · exact R.pure _
    · exact R.pure _
    · exact R.pure _
    · split
      · exact after_related hR _ (closeIterator_related hR.calls _ false) fun _ => R.pure _
      · exact R.pure _

theorem endFinally_related (g : Instance) (next : Nat) :
    R.rel (g.endFinally host next) (g.endFinally host' next) := by
  unfold Instance.endFinally
  split
  · exact unwind_related hR _ _
  · exact R.pure _

theorem bindCatch_related (g : Instance) (param : Option Pattern) (next : Nat) :
    R.rel (g.bindCatch host param next) (g.bindCatch host' param next) := by
  refine R.bind (R.newScope _) fun scope => ?_
  cases param with
  | none => exact R.pure _
  | some p => exact after_related hR _ (bind_suited hR scope _ p _) fun _ => R.pure _

theorem enterScope_related (g : Instance) (functions : List FunctionDecl) (next : Nat) :
    R.rel (g.enterScope host functions next) (g.enterScope host' functions next) :=
  R.bind (R.newScope _) fun scope => after_related hR _
    (instantiate_related R.toEvalRelation scope functions fun _ _ => hR.names _) fun _ => R.pure _

/-- One instruction. -/
theorem dispatch_related (g : Instance) (i : Instr) :
    R.rel (g.dispatch host i) (g.dispatch host' i) := by
  have heval (e : Expr) := eval_suited hR g.scope none e
  cases i with
  | evaluate s next => exact after_related hR g (exec_suited hR g.scope s) fun _ => R.pure _
  | yield operand next =>
    exact after_related hR g (evalOption_suited hR g.scope operand) fun _ => R.pure _
  | await operand next => exact after_related hR g (heval operand) fun _ => R.pure _
  | yieldStar operand next =>
    exact after_related hR g (heval operand) fun v => startDelegation_related hR g v
  | store => exact storeResume_related hR g _
  | jump | enterTry | popScope | enterLoop | exitLoop => exact R.pure _
  | branch condition => exact after_related hR g (heval condition) fun _ => R.pure _
  | exitTry next close => exact exitTry_related hR g next close
  | bindCatch param next => exact bindCatch_related hR g param next
  | endFinally next => exact endFinally_related hR g next
  | pushScope functions next => exact enterScope_related hR g functions next
  | copyScope next => exact R.bind (R.copyScope _) fun _ => R.pure _
  | brk label => exact jump_related hR g label false
  | cont label => exact jump_related hR g label true
  | openIterator iterable isAsync overKeys next =>
    exact after_related hR g (R.bind (heval iterable) fun v =>
      openIterator_related hR.calls v isAsync overKeys) fun _ => R.pure _
  | moveNext _ _ _ _ isAsync => exact moveNext_related hR g isAsync
  | ret operand =>
    exact after_related hR g (evalOption_suited hR g.scope operand) fun v => unwind_related hR g _
  | throw operand => exact after_related hR g (heval operand) fun v => unwind_related hR g _

theorem execute_related {n m : Nat} (hn : R.Fuels n m) (g : Instance) :
    R.rel (g.execute host n) (g.execute host' m) := by
  induction n generalizing m g with
  | zero => exact hn.exhausted (y := (g.execute host' ·)) rfl
  | succ n ih =>
    obtain ⟨m, rfl, hm⟩ := hn.pred
    unfold Instance.execute
    cases g.instr? with
    | none => exact R.exhausted
    | some i =>
      refine R.bind (dispatch_related hR g i) fun t => ?_
      cases t with
      | goOn g => exact ih hm g
      | pause g p => exact R.pure _

theorem settled_related (g : Instance) (awaiting : Option AwaitKind) (s : Settlement) :
    R.rel (g.settled host awaiting s) (g.settled host' awaiting s) := by
  cases s with
  | fulfilled v =>
    match awaiting with
    | some .delegate => exact delegateResult_related hR g v
    | some .result => exact iteratorResult_related hR g v
    | some .element => exact bindElement_related hR g v
    | some .value | none => exact storeResume_related hR g v
  | rejected v =>
    match awaiting with
    | some .delegate => exact passOn_related hR g .throw v
    | some .result | some .element | some .value | none => exact unwind_related hR _ _

theorem resumed_related (g : Instance) (a : Action) :
    R.rel (g.resumed host a) (g.resumed host' a) := by
  cases a with
  | next v => exact passOn_related hR _ .next v
  | throw | ret =>
    unfold Instance.resumed
    dsimp only
    split
    · exact passOn_related hR _ _ _
    · exact unwind_related hR _ _
  | settled s => exact settled_related hR _ _ s
  | delegateDone v => exact delegateDone_related hR _ v
  | delegateThrew v => exact unwind_related hR _ _

/-- From a resumption to the next pause. -/
theorem slice_related {n m : Nat} (hn : R.Fuels n m) (g : Instance) (a : Action) :
    R.rel (g.slice host n a) (g.slice host' m a) := by
  have hrun (t : Turn) : R.rel (Instance.runOn host n t) (Instance.runOn host' m t) := by
    cases t with
    | goOn g => exact execute_related hR hn g
    | pause g p => exact R.pure _
  unfold Instance.slice
  cases g.status with
  | suspendedStart => exact hrun _
  | suspendedYield | executing | completed => exact R.bind (resumed_related hR _ a) hrun

end Dispatching

end Resumable
