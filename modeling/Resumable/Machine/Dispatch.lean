import Resumable.Eval.Stmt
import Resumable.Machine.Delegation

/-!
The meaning of each instruction of a plan.
-/

set_option autoImplicit false

namespace Resumable

def Frame.pending? (f : Frame) : Option Signal :=
  match f.kind with
  | .region _ _ (.finalizer pending) => pending
  | _ => none

namespace Instance

/-- Gives an element of a loop to its pattern, in a scope of its own. -/
def bindElement (host : Host) (g : Instance) (v : Value) : Run Turn := do
  match g.instr? with
  | some (.moveNext kind pattern body _ _) =>
    let scope ← Edit.newScope g.scope
    let g := g.pushScope scope
    g.after host (pattern.bind host scope kind v) fun () => return .goOn (g.goto body)
  | _ => return .goOn g

def awaitsElements (g : Instance) : Bool := g.iterator?.any fun r => r.isAsync && r.fromSync

def iteratorResult (host : Host) (g : Instance) (result : Value) : Run Turn := do
  let h ← Run.heap
  match malformed? h result with
  | some e => return .stop g (.failed e)
  | none =>
    if (h.property result "done").truthy then
      match g.instr? with
      | some (.moveNext _ _ _ exit _) => return .goOn (g.goto exit)
      | _ => return .goOn g
    else
      let v := h.property result "value"
      if g.awaitsElements && h.isPromiseLike v then
        return .stop { g with awaiting := some .element } (.awaiting v)
      g.bindElement host v

/-- Asks the iterator of a loop for its next result. A failing `next` leaves the iterator open. -/
def moveNext (host : Host) (g : Instance) (isAsync : Bool) : Run Turn := do
  match g.iterator? with
  | none =>
    let e ← Edit.newError .typeError "for-of step without an iterator"
    g.unwind host (.throw (.obj e))
  | some record =>
    match ← (record.callNext host []).attempt with
    | .error c => g.popFrame.complete host c
    | .ok result =>
      if isAsync then return .stop { g with awaiting := some .result } (.awaiting result)
      g.iteratorResult host result

def openIterator (host : Host) (v : Value) (isAsync overKeys : Bool) : Run IteratorRecord :=
  if overKeys then IteratorRecord.overKeys v
  else if isAsync then IteratorRecord.ofAsync host v
  else IteratorRecord.ofValue host v

/-- Leaves the innermost frame without a signal: through its finally block if that is still to come,
else past it. -/
def exitTry (host : Host) (g : Instance) (next : Nat) (close : Bool) : Run Turn :=
  match g.frames with
  | [] => return .goOn (g.goto next)
  | f :: outer =>
    let past := { g with frames := outer, ip := next }
    match f.kind with
    | .region onThrow (some target) .body | .region onThrow (some target) .handler =>
      let kind := .region onThrow (some target) (.finalizer none)
      return .goOn { g with frames := { f with kind } :: outer, ip := target }
    | .region _ _ _ => return .goOn past
    | .iterator record =>
      if close then
        past.after host (closeIterator host record.iterator false) fun () => return .goOn past
      else return .goOn past

def endFinally (host : Host) (g : Instance) (next : Nat) : Run Turn :=
  match g.frames.head?.bind Frame.pending? with
  | some signal => g.popFrame.unwind host signal
  | none => return .goOn (g.popFrame.goto next)

def bindCatch (host : Host) (g : Instance) (param : Option Pattern) (next : Nat) : Run Turn := do
  let caught := g.caught.getD .undefined
  let scope ← Edit.newScope g.scope
  let g := { g.pushScope scope with caught := none }
  match param with
  | none => return .goOn (g.goto next)
  | some p => g.after host (p.bind host scope (some .let) caught) fun () => return .goOn (g.goto next)

def enterScope (host : Host) (g : Instance) (functions : List FunctionDecl) (next : Nat) :
    Run Turn := do
  let scope ← Edit.newScope g.scope
  let g := g.pushScope scope
  g.after host (instantiate scope functions) fun () => return .goOn (g.goto next)

def dispatch (host : Host) (g : Instance) (i : Instr) : Run Turn := do
  let eval (e : Expr) : Run Value := e.eval host g.scope none
  match i with
  | .evaluate s next => g.after host (s.exec host g.scope []) fun _ => return .goOn (g.goto next)
  | .yield operand next =>
    g.after host (evalOption host g.scope operand) fun v =>
      return .stop (g.goto next) (.yielded v)
  | .await operand next =>
    g.after host (eval operand) fun v =>
      return .stop { g.goto next with awaiting := some .value } (.awaiting v)
  | .yieldStar operand _ => g.after host (eval operand) (g.startDelegation host)
  | .store _ _ => g.storeResume host .undefined
  | .jump target => return .goOn (g.goto target)
  | .branch condition onTrue onFalse =>
    g.after host (eval condition) fun v =>
      return .goOn (g.goto (if v.truthy then onTrue else onFalse))
  | .enterTry onThrow onExit next =>
    return .goOn ((g.pushFrame (.region onThrow onExit .body)).goto next)
  | .exitTry next close => g.exitTry host next close
  | .bindCatch param next => g.bindCatch host param next
  | .endFinally next => g.endFinally host next
  | .pushScope functions next => g.enterScope host functions next
  | .popScope next => return .goOn (g.popScope.goto next)
  | .copyScope next =>
    let scope ← Edit.copyScope g.scope
    return .goOn ((g.replaceScope scope).goto next)
  | .enterLoop labels kind onContinue onBreak next =>
    let loop := ⟨labels, kind, onContinue, onBreak, g.scopes.length, g.frames.length⟩
    return .goOn { g with loops := loop :: g.loops, ip := next }
  | .exitLoop next => return .goOn { g with loops := g.loops.tail, ip := next }
  | .brk label => g.jump host label false
  | .cont label => g.jump host label true
  | .openIterator iterable isAsync overKeys next =>
    let opened := do openIterator host (← eval iterable) isAsync overKeys
    g.after host opened fun record => return .goOn ((g.pushFrame (.iterator record)).goto next)
  | .moveNext _ _ _ _ isAsync => g.moveNext host isAsync
  | .ret operand =>
    g.after host (evalOption host g.scope operand) fun v => g.unwind host (.ret v)
  | .throw operand => g.after host (eval operand) fun v => g.unwind host (.throw v)

def execute (host : Host) : Nat → Instance → Run (Instance × Pause)
  | 0, _ => Run.exhausted
  | n + 1, g => do
    match g.instr? with
    | none => Run.exhausted
    | some i =>
      match ← g.dispatch host i with
      | .goOn g => execute host n g
      | .pause g p => return (g, p)

end Instance

end Resumable
