import Resumable.Plan.Builder

/-!
Emission: the code of a body written, instruction by instruction, at the end of one list. Where control
has to come to a position that is not written yet, a placeholder stands in for the jump, and is overwritten
once the position is known. A statement that is refused takes back what has been written for it. Main
definition: `Stmt.emit`.
-/

set_option autoImplicit false

namespace Resumable

/-- What has been written, what surrounds the next statement (innermost first), and the temporaries that
have been named. -/
structure Emitter where
  code : List Instr
  inAsync : Bool
  breakables : List Breakable
  temps : List String

namespace Emitter

def new (inAsync : Bool) : Emitter := ⟨[], inAsync, [], []⟩

def around (b : Emitter) : Surroundings := ⟨b.inAsync, b.breakables⟩

def enter (b : Emitter) (labels : List String) (kind : LoopKind) : Emitter :=
  { b with breakables := ⟨labels, kind⟩ :: b.breakables }

def leave (b : Emitter) : Emitter := { b with breakables := b.breakables.tail }

def rewind (b before : Emitter) : Emitter :=
  { b with
    code := b.code.take before.code.length
    breakables := b.breakables.drop (b.breakables.length - before.breakables.length) }

end Emitter

/-- Writing, which may be refused; what was written before a refusal stays, unless it is taken back. -/
abbrev Emit := ExceptT Refusal (StateM Emitter)

namespace Emit

def hole : Nat := Nat.pow 2 64 - 1

def write (i : Instr) : Emit Nat :=
  modifyGet fun b => (b.code.length, { b with code := b.code ++ [i] })

def reserve : Emit Nat := write (.jump hole)

def overwrite (position : Nat) (i : Instr) : Emit Unit :=
  modify fun b => { b with code := b.code.set position i }

def freshTemp : Emit String :=
  modifyGet fun b => (tempName b.temps.length, { b with temps := b.temps ++ [tempName b.temps.length] })

def orUndo (x : Emit Nat) : Emit Nat := do
  let before ← get
  try x
  catch r =>
    modify (·.rewind before)
    throw r

def inside {α : Type} (labels : List String) (kind : LoopKind) (x : Emit α) : Emit α := do
  modify (·.enter labels kind)
  try x finally modify Emitter.leave

end Emit

open Emit

def emitSuspend (slot : Option String) (next : Nat) (e : Expr) : Emit Nat := do
  let inAsync := (← get).inAsync
  match e with
  | .yield operand =>
    if operand.any (·.hasSuspend inAsync) then throw .unloweredExpression
    else write (.yield operand (← write (.store slot next)))
  | .yieldStar (some e) =>
    if e.hasSuspend inAsync then throw .unloweredExpression
    else write (.yieldStar e (← write (.store slot next)))
  | .await e =>
    if !inAsync || e.hasSuspend inAsync then throw .unloweredExpression
    else write (.await e (← write (.store slot next)))
  | _ => throw .unloweredExpression

mutual

def Expr.emitEffect (next : Nat) : Expr → Emit Nat
  | .seq items => emitEffects next items
  | .assign .set (.ident name) value => emitSuspend (some name) next value
  | .assign .set _ _ => throw .nonBinding
  | e => emitSuspend none next e

def emitEffects (next : Nat) : List Expr → Emit Nat
  | [] => return next
  | e :: es => do
    let next ← emitEffects next es
    orUndo do
      if !e.hasSuspend (← get).inAsync then write (.evaluate (.expr e) next)
      else e.emitEffect next

end

/-- A branch on an expression. The leading items of a lowered sequence run before the branch on the
last one. -/
def Expr.emitCondition (onTrue onFalse : Nat) (e : Expr) : Emit Nat := do
  if !e.hasSuspend (← get).inAsync then write (.branch e onTrue onFalse)
  else match e with
    | .seq items =>
      match items.getLast? with
      | none => throw .unloweredCondition
      | some last => emitEffects (← write (.branch last onTrue onFalse)) items.dropLast
    | _ => throw .unloweredCondition

def emitTest (onTrue onFalse : Nat) : Option Expr → Emit Nat
  | none => return onTrue
  | some e => e.emitCondition onTrue onFalse

def emitUpdate (next : Nat) : Option Expr → Emit Nat
  | none => return next
  | some e => emitEffects next [e]

def ForInit.emit (next : Nat) : ForInit → Emit Nat
  | .absent => return next
  | .expr e => emitEffects next [e]
  | .declare kind ds => orUndo do
    if (Stmt.declare kind ds).hasSuspend (← get).inAsync then throw .unloweredDeclaration
    else write (.evaluate (.declare kind ds) next)

/-- A loop whose test stands at a reserved position, where `continue` leads too. -/
def emitTestLoop (labels : List String) (next : Nat) (test : Expr) (testsFirst : Bool)
    (body : Nat → Emit Nat) : Emit Nat := do
  let exit ← write (.exitLoop next)
  let start ← reserve
  let entry ← inside labels .loop (body start)
  let condition ← test.emitCondition entry exit
  overwrite start (.jump condition)
  write (.enterLoop labels .loop (some start) next (if testsFirst then start else entry))

/-- A loop with a head. With bindings of its own it starts by opening a scope and ends by closing it, and
copies them before each update. -/
def emitHeadLoop (labels : List String) (next : Nat) (init : ForInit) (test update : Option Expr)
    (body : Nat → Emit Nat) : Emit Nat := do
  let after ← if init.isScoped then write (.popScope next) else pure next
  let exit ← write (.exitLoop after)
  let start ← reserve
  let updated ← emitUpdate start update
  let turn ← if init.isScoped then write (.copyScope updated) else pure updated
  let entry ← inside labels .loop (body turn)
  let condition ← emitTest entry exit test
  overwrite start (.jump condition)
  let enter ← write (.enterLoop labels .loop (some turn) after start)
  let first ← init.emit enter
  if init.isScoped then write (.pushScope [] first) else return first

def emitIteration (labels : List String) (next : Nat) (target : ForTarget) (subject : Expr)
    (isAsync overKeys : Bool) (body : Nat → Emit Nat) : Emit Nat := do
  let past ← write (.exitTry next false)
  let exit ← write (.exitLoop past)
  let move ← reserve
  let pop ← write (.popScope move)
  let entry ← inside labels .loop (body pop)
  overwrite move (.moveNext target.kind? target.pattern entry exit isAsync)
  let close ← write (.exitTry next true)
  let enter ← write (.enterLoop labels .loop (some move) close move)
  write (.openIterator subject isAsync overKeys enter)

def emitScope (next : Nat) (functions : List FunctionDecl) (body : Nat → Emit Nat) : Emit Nat := do
  let pop ← write (.popScope next)
  let entry ← body pop
  write (.pushScope functions entry)

def emitFinalizer (next : Nat) : Option (Nat → Emit Nat) → Emit (Option Nat)
  | none => return none
  | some body => do
    let last ← write (.endFinally next)
    some <$> body last

def emitHandler (next : Nat) : Option (Option Pattern × (Nat → Emit Nat)) → Emit (Option Nat)
  | none => return none
  | some (param, body) => do
    let exit ← write (.exitTry next false)
    let pop ← write (.popScope exit)
    let entry ← body pop
    some <$> write (.bindCatch param entry)

def emitTry (next : Nat) (finalizer : Option (Nat → Emit Nat))
    (handler : Option (Option Pattern × (Nat → Emit Nat))) (block : Nat → Emit Nat) : Emit Nat := do
  let onExit ← emitFinalizer next finalizer
  let onThrow ← emitHandler next handler
  let exit ← write (.exitTry next false)
  let entry ← block exit
  write (.enterTry onThrow onExit entry)

def emitTests (subject : String) (otherwise : Nat) : List (Case × Nat) → Emit Nat
  | [] => write (.jump otherwise)
  | (c, entry) :: rest => do
    let after ← emitTests subject otherwise rest
    match c.test with
    | none => return after
    | some test => write (.branch (.binary .strictEq (.ident subject) test) entry after)

def emitSwitch (labels : List String) (next : Nat) (subject : Expr) (cases : List Case)
    (bodies : Nat → Emit (List Nat)) : Emit Nat := do
  let after ← write (.popScope next)
  let exit ← write (.exitLoop after)
  let entries ← inside labels .switch (bodies exit)
  let name ← Emit.freshTemp
  let targets := cases.zip entries
  let tests ← emitTests name (defaultEntry exit targets) targets
  let store ← write (.evaluate (.expr (.assign .set (.ident name) subject)) tests)
  let enter ← write (.enterLoop labels .switch none after store)
  write (.pushScope (cases.flatMap fun c => declaredFunctions c.body) enter)

def emitEnclosed (labels : List String) (next : Nat) (body : Nat → Emit Nat) : Emit Nat := do
  if labels.isEmpty then body next
  else
    let exit ← write (.exitLoop next)
    let entry ← inside labels .block (orUndo (body exit))
    write (.enterLoop labels .block none next entry)

def Stmt.emitLeaf (next : Nat) (s : Stmt) : Emit Nat := do
  match s with
  | .brk label =>
    liftExcept ((← get).around.checkJump label false)
    write (.brk label)
  | .cont label =>
    liftExcept ((← get).around.checkJump label true)
    write (.cont label)
  | .ret value => write (.ret value)
  | .throw value => write (.throw value)
  | s => write (.evaluate s next)
where
  liftExcept (x : Except Refusal Unit) : Emit Unit := ExceptT.mk (pure x)

mutual

def Stmt.emitUnder (labels : List String) (next : Nat) (s : Stmt) : Emit Nat := do
  if !s.hasSuspend (← get).inAsync then s.emitLeaf next
  else match s with
    | .labeled label body => body.emitUnder (labels ++ [label]) next
    | .expr e => emitEnclosed labels next fun next => e.emitEffect next
    | .block body =>
      emitEnclosed labels next fun next =>
        emitScope next (declaredFunctions body) fun next => emitStmts next body
    | .ifElse test yes none => emitEnclosed labels next fun next => do
        let onTrue ← orUndo (yes.emitUnder [] next)
        test.emitCondition onTrue next
    | .ifElse test yes (some no) => emitEnclosed labels next fun next => do
        let onFalse ← orUndo (no.emitUnder [] next)
        let onTrue ← orUndo (yes.emitUnder [] next)
        test.emitCondition onTrue onFalse
    | .whileDo test body =>
      emitTestLoop labels next test true fun next => orUndo (body.emitUnder [] next)
    | .doWhile body test =>
      emitTestLoop labels next test false fun next => orUndo (body.emitUnder [] next)
    | .forLoop init test update body =>
      emitHeadLoop labels next init test update fun next => orUndo (body.emitUnder [] next)
    | .forIn target subject body =>
      emitIteration labels next target subject false true fun next => orUndo (body.emitUnder [] next)
    | .forOf target subject body isAwait =>
      emitIteration labels next target subject isAwait false fun next =>
        orUndo (body.emitUnder [] next)
    | .tryCatch block none none =>
      emitEnclosed labels next fun next =>
        emitTry next none none
          fun next => emitScope next (declaredFunctions block) fun next => emitStmts next block
    | .tryCatch block none (some finalizer) =>
      emitEnclosed labels next fun next =>
        emitTry next
          (some fun next =>
            emitScope next (declaredFunctions finalizer) fun next => emitStmts next finalizer)
          none
          fun next => emitScope next (declaredFunctions block) fun next => emitStmts next block
    | .tryCatch block (some (.mk param handler)) none =>
      emitEnclosed labels next fun next =>
        emitTry next none
          (some (param, fun next =>
            emitScope next (declaredFunctions handler) fun next => emitStmts next handler))
          fun next => emitScope next (declaredFunctions block) fun next => emitStmts next block
    | .tryCatch block (some (.mk param handler)) (some finalizer) =>
      emitEnclosed labels next fun next =>
        emitTry next
          (some fun next =>
            emitScope next (declaredFunctions finalizer) fun next => emitStmts next finalizer)
          (some (param, fun next =>
            emitScope next (declaredFunctions handler) fun next => emitStmts next handler))
          fun next => emitScope next (declaredFunctions block) fun next => emitStmts next block
    | .switch subject cases =>
      emitSwitch labels next subject cases fun exit => emitCases exit cases
    | .declare _ _ => throw .unloweredDeclaration
    | .ret _ => throw .unloweredReturn
    | .throw _ => throw .unloweredThrow
    | .empty | .brk _ | .cont _ | .function _ _ => throw .unloweredStatement

def emitStmts (next : Nat) : List Stmt → Emit Nat
  | [] => return next
  | s :: ss => do
    let next ← emitStmts next ss
    orUndo (s.emitUnder [] next)

def emitCases (exit : Nat) : List Case → Emit (List Nat)
  | [] => return []
  | .mk _ body :: cases => do
    let entries ← emitCases exit cases
    let entry ← emitStmts (entries.headD exit) body
    return entry :: entries

end

/-- Writes the code of a statement, or nothing; gives the position at which it is entered. -/
def Stmt.emit (next : Nat) (s : Stmt) : Emit Nat := orUndo (s.emitUnder [] next)

def emitBody (body : List Stmt) : Emit Nat := do
  emitStmts (← write (.ret none)) body

def emitPlan (inAsync : Bool) (params : List Pattern) (body : List Stmt) : Except Refusal Plan := do
  if params.any (·.hasSuspend inAsync) then throw .parameterList
  let lowered ← lowerBody inAsync body
  let (entry, b) := (emitBody lowered.body).run (Emitter.new inAsync)
  let plan : Plan := { code := b.code, entry := ← entry, slots := lowered.slots ++ b.temps }
  plan.validate
  return plan

end Resumable
