import Resumable.Eval.Pattern

/-!
Execution of statements. A statement gives a value when it completes normally; loops give
`undefined`. The labels are those directly before the statement.
-/

set_option autoImplicit false

namespace Resumable

variable {σ : Type} [HasWorld σ]

def loopBody (labels : List String) (body : RunOn σ Value) : RunOn σ Bool := do
  match ← body.attempt with
  | .ok _ | .error (.cont none) => return true
  | .error (.brk none) => return false
  | .error (.cont (some l)) =>
    if labels.contains l then return true else Run.abrupt (.cont (some l))
  | .error (.brk (some l)) =>
    if labels.contains l then return false else Run.abrupt (.brk (some l))
  | .error c => Run.abrupt c

def whileLoop (labels : List String) (test body : RunOn σ Value) : Nat → RunOn σ Unit
  | 0 => Run.exhausted
  | n + 1 => do
    if (← test).truthy then
      if ← loopBody labels body then whileLoop labels test body n

def doLoop (labels : List String) (test body : RunOn σ Value) : Nat → RunOn σ Unit
  | 0 => Run.exhausted
  | n + 1 => do
    if ← loopBody labels body then
      if (← test).truthy then doLoop labels test body n

/-- A loop with a head. With bindings of its own each turn gets a copy of them, made before the
update. -/
def headLoop (labels : List String) (ownScope : Bool) (test : ScopeId → RunOn σ Bool)
    (update body : ScopeId → RunOn σ Value) : Nat → ScopeId → RunOn σ Unit
  | 0, _ => Run.exhausted
  | n + 1, scope => do
    if ← test scope then
      if ← loopBody labels (body scope) then
        let scope ← if ownScope then Edit.copyScope scope else pure scope
        let _ ← update scope
        headLoop labels ownScope test update body n scope

/-- Runs one turn of a loop over an iterator; says whether the loop goes on. An iterator is closed
when the loop is left, but not by a fatal error. -/
def iterationBody (host : HostOn σ) (labels : List String) (r : IteratorRecord)
    (body : RunOn σ Value) : RunOn σ Bool := do
  match ← (loopBody labels body).attempt with
  | .ok true => return true
  | .ok false =>
    closeIterator host r.iterator false
    return false
  | .error (.fatal e) => Run.fatal e
  | .error (.throw v) =>
    closeIterator host r.iterator true
    Run.throwValue v
  | .error c =>
    closeIterator host r.iterator false
    Run.abrupt c

def iterationLoop (host : HostOn σ) (labels : List String) (r : IteratorRecord)
    (body : Value → RunOn σ Value) : Nat → RunOn σ Unit
  | 0 => Run.exhausted
  | n + 1 => do
    match ← r.step host with
    | none => return ()
    | some v =>
      if ← iterationBody host labels r (body v) then iterationLoop host labels r body n

def enterBlock (scope : ScopeId) (body : List Stmt) : RunOn σ ScopeId := do
  let inner ← Edit.newScope scope
  instantiate inner (declaredFunctions body)
  return inner

/-- Binds an element in a loop: declared names go into the scope of the turn, names that exist are
looked for from the outer one. -/
def ForTarget.bind (host : HostOn σ) (outer inner : ScopeId) (target : ForTarget) (v : Value) :
    RunOn σ Unit :=
  match target with
  | .declare kind p => p.bind host inner (some kind) v
  | .assign p => p.bind host outer none v

/-- One turn of a loop over an iterator. From the scope of the turn the same names are seen as from
outside, unless the body adds some. -/
def iterationTurn (host : HostOn σ) (scope : ScopeId) (target : ForTarget) (bodyBinds : Bool)
    (body : ScopeId → RunOn σ Value) (v : Value) : RunOn σ Value := do
  let inner ← Edit.newScope scope
  target.bind host (if bodyBinds then scope else inner) inner v
  body inner

def declareAll (host : HostOn σ) (scope : ScopeId) (kind : VarKind) : List Declarator → RunOn σ Unit
  | [] => return ()
  | .mk p init :: ds => do
    match init with
    | some e =>
      let v ← e.eval host scope p.hint
      p.bind host scope (some kind) v
    | none => if kind ≠ .var then p.bind host scope (some kind) .undefined
    declareAll host scope kind ds

def ForInit.exec (host : HostOn σ) (scope : ScopeId) : ForInit → RunOn σ Unit
  | .absent => return ()
  | .declare kind ds => declareAll host scope kind ds
  | .expr e => do
    let _ ← e.eval host scope none

def evalOption (host : HostOn σ) (scope : ScopeId) : Option Expr → RunOn σ Value
  | none => return .undefined
  | some e => e.eval host scope none

def evalTest (host : HostOn σ) (scope : ScopeId) : Option Expr → RunOn σ Bool
  | none => return true
  | some e => do return (← e.eval host scope none).truthy

def selectCase (host : HostOn σ) (scope : ScopeId) (subject : Value) (position : Nat) :
    List Case → RunOn σ (Option Nat)
  | [] => return none
  | .mk none _ :: cases => selectCase host scope subject (position + 1) cases
  | .mk (some e) _ :: cases => do
    if subject.strictEq (← e.eval host scope none) then return some position
    selectCase host scope subject (position + 1) cases

def defaultCase (cases : List Case) : Option Nat := cases.findIdx? (·.test.isNone)

def breakable (labels : List String) (x : RunOn σ Unit) : RunOn σ Value := do
  match ← x.attempt with
  | .ok () | .error (.brk none) => return .undefined
  | .error (.brk (some l)) =>
    if labels.contains l then return .undefined else Run.abrupt (.brk (some l))
  | .error c => Run.abrupt c

def handled (block : RunOn σ Value) (handler : Value → RunOn σ Value) :
    RunOn σ (Except Abrupt Value) := do
  match ← block.attempt with
  | .error (.throw v) => (handler v).attempt
  | r => return r

/-- The finally block runs whatever the completion, unless that is fatal; its own abrupt completion
wins. -/
def finalized (r : Except Abrupt Value) (finalizer : RunOn σ Value) : RunOn σ Value := do
  match r with
  | .error (.fatal e) => Run.fatal e
  | r =>
    let _ ← finalizer
    Run.ofCompletion r

def enterCatch (host : HostOn σ) (scope : ScopeId) (param : Option Pattern) (v : Value) :
    RunOn σ ScopeId := do
  let inner ← Edit.newScope scope
  match param with
  | some p => p.bind host inner (some .let) v
  | none => pure ()
  return inner

/-- Whether the statement declares names in the very scope in which it runs. -/
def Stmt.bindsHere : Stmt → Bool
  | .declare kind _ => kind ≠ .var
  | .ifElse _ yes none => yes.bindsHere
  | .ifElse _ yes (some no) => yes.bindsHere || no.bindsHere
  | .whileDo _ body | .doWhile body _ | .labeled _ body => body.bindsHere
  | _ => false

mutual

def Stmt.exec (host : HostOn σ) (scope : ScopeId) (labels : List String) : Stmt → RunOn σ Value
  | .empty => return .undefined
  | .expr e => e.eval host scope none
  | .block body => do
    let inner ← enterBlock scope body
    execStmts host inner .undefined body
  | .declare kind ds => do
    declareAll host scope kind ds
    return .undefined
  | .ifElse t y none => do
    if (← t.eval host scope none).truthy then y.exec host scope [] else return .undefined
  | .ifElse t y (some n) => do
    if (← t.eval host scope none).truthy then y.exec host scope [] else n.exec host scope []
  | .whileDo t b => do
    whileLoop labels (t.eval host scope none) (b.exec host scope []) host.fuel
    return .undefined
  | .doWhile b t => do
    doLoop labels (t.eval host scope none) (b.exec host scope []) host.fuel
    return .undefined
  | .forLoop init t u b => do
    -- a scope of its own only where the head or the body declares something in it
    let inner ← if init.isScoped || b.bindsHere then Edit.newScope scope else pure scope
    init.exec host inner
    headLoop labels init.isScoped (evalTest host · t) (evalOption host · u)
      (b.exec host · []) host.fuel inner
    return .undefined
  | .forIn target e b => do
    let r ← IteratorRecord.overKeys (← e.eval host scope none)
    iterationLoop host labels r
      (iterationTurn host scope target b.bindsHere (b.exec host · [])) host.fuel
    return .undefined
  | .forOf _ _ _ true =>
    Run.throwNew .syntaxError "for await is only valid in async functions and async generators"
  | .forOf target e b false => do
    let r ← IteratorRecord.ofValue host (← e.eval host scope none)
    iterationLoop host labels r
      (iterationTurn host scope target b.bindsHere (b.exec host · [])) host.fuel
    return .undefined
  | .ret e => do Run.abrupt (.ret (← evalOption host scope e))
  | .brk label => Run.abrupt (.brk label)
  | .cont label => Run.abrupt (.cont label)
  | .throw e => do Run.throwValue (← e.eval host scope none)
  | .tryCatch block none none => do
    let inner ← enterBlock scope block
    execStmts host inner .undefined block
  | .tryCatch block none (some finalizer) => do
    let r ← handled (do execStmts host (← enterBlock scope block) .undefined block) Run.throwValue
    finalized r (do execStmts host (← enterBlock scope finalizer) .undefined finalizer)
  | .tryCatch block (some (.mk param handler)) none => do
    let r ← handled (do execStmts host (← enterBlock scope block) .undefined block) fun v => do
      let inner ← enterCatch host scope param v
      execStmts host (← enterBlock inner handler) .undefined handler
    Run.ofCompletion r
  | .tryCatch block (some (.mk param handler)) (some finalizer) => do
    let r ← handled (do execStmts host (← enterBlock scope block) .undefined block) fun v => do
      let inner ← enterCatch host scope param v
      execStmts host (← enterBlock inner handler) .undefined handler
    finalized r (do execStmts host (← enterBlock scope finalizer) .undefined finalizer)
  | .switch e cases => do
    let subject ← e.eval host scope none
    let inner ← Edit.newScope scope
    match (← selectCase host inner subject 0 cases) <|> defaultCase cases with
    | none => return .undefined
    | some first => breakable labels (execCases host inner first cases)
  | .labeled label s => do
    match ← (s.exec host scope (labels ++ [label])).attempt with
    | .error (.brk (some l)) =>
      if l == label then return .undefined else Run.abrupt (.brk (some l))
    | r => Run.ofCompletion r
  | .function _ _ => return .undefined

def execStmts (host : HostOn σ) (scope : ScopeId) (last : Value) : List Stmt → RunOn σ Value
  | [] => return last
  | s :: ss => do
    let v ← s.exec host scope []
    execStmts host scope v ss

def execCases (host : HostOn σ) (scope : ScopeId) (skip : Nat) : List Case → RunOn σ Unit
  | [] => return ()
  | .mk _ body :: cases => do
    match skip with
    | 0 =>
      let _ ← execStmts host scope .undefined body
      execCases host scope 0 cases
    | n + 1 => execCases host scope n cases

end

end Resumable
