import Resumable.Lowering.Expr
import Resumable.Number.Reading

/-!
Lowering of statements. In a lowered body every suspend point is a simple effect: an expression
statement that is a suspend expression or assigns one to a name, or an item of a sequence in the
head of a loop. Main definition: `lowerBody`.
-/

set_option autoImplicit false

namespace Resumable

def effectStmts (es : List Expr) : List Stmt := es.map .expr

def Stmt.ofList : List Stmt → Stmt
  | [s] => s
  | ss => .block ss

/-- Puts the label on the last statement; what was hoisted runs before the labeled one. -/
def labelLast (label : String) : List Stmt → List Stmt
  | [] => [.labeled label .empty]
  | [s] => [.labeled label s]
  | s :: ss => s :: labelLast label ss

def sequenceIsLowered (inAsync : Bool) : List Expr → Bool
  | [] => true
  | [e] => !e.hasSuspend inAsync
  | e :: es =>
    (!e.hasSuspend inAsync || e.isSimpleEffect inAsync) && sequenceIsLowered inAsync es

def Expr.isLoweredCondition (inAsync : Bool) : Expr → Bool
  | .seq items => sequenceIsLowered inAsync items
  | e => !e.hasSuspend inAsync

/-- A loop test or update runs again and again, so what is hoisted out of it goes with it. -/
def Expr.lowerCondition (inAsync : Bool) (e : Expr) : Lower Expr := do
  if !e.hasSuspend inAsync then return e
  e.checkYields
  if e.isLoweredCondition inAsync then return e
  let h ← e.hoist inAsync
  return .seq (h.before ++ [h.rest])

def lowerConditions (inAsync : Bool) : Option Expr → Lower (Option Expr)
  | none => return none
  | some e => some <$> e.lowerCondition inAsync

def Expr.lowerValue (inAsync : Bool) (e : Expr) : Lower Hoisted := do
  e.checkYields
  e.hoist inAsync

def lowerDeclarators (inAsync : Bool) (kind : VarKind) : List Declarator → Lower (List Stmt)
  | [] => return []
  | .mk pattern init :: ds => do
    if pattern.hasSuspend inAsync then .refuse .bindingPattern
    let first ← match init with
      | none => pure [Stmt.declare kind [.mk pattern none]]
      | some e =>
        if e.hasSuspend inAsync then do
          let h ← e.lowerValue inAsync
          pure (effectStmts h.before ++ [.declare kind [.mk pattern (some h.rest)]])
        else pure [Stmt.declare kind [.mk pattern (some e)]]
    return first ++ (← lowerDeclarators inAsync kind ds)

def Declarator.initHasSuspend (inAsync : Bool) : Declarator → Bool
  | .mk _ init => init.any (·.hasSuspend inAsync)

/-- The declaration in a loop head stays whole; initializers before the last suspending one are
spilled. -/
def lowerHead (inAsync : Bool) : List Declarator → Lower (List Expr × List Declarator)
  | [] => return ([], [])
  | .mk pattern init :: ds => do
    if pattern.hasSuspend inAsync then .refuse .bindingPattern
    let (before, init) ← match init with
      | none => pure ([], none)
      | some e =>
        if ds.any (·.initHasSuspend inAsync) then do
          let h ← (← e.hoist inAsync).settle true
          pure (h.before, some h.rest)
        else if e.hasSuspend inAsync then do
          let h ← e.lowerValue inAsync
          pure (h.before, some h.rest)
        else pure ([], some e)
    let (rest, ds) ← lowerHead inAsync ds
    return (before ++ rest, .mk pattern init :: ds)

def ForInit.lower (inAsync : Bool) : ForInit → Lower (List Expr × ForInit)
  | .absent => return ([], .absent)
  | .declare kind ds => do
    let (before, ds) ← lowerHead inAsync ds
    return (before, .declare kind ds)
  | .expr e => do
    if !e.hasSuspend inAsync then return ([], .expr e)
    e.checkYields
    return (← e.hoistEffect inAsync, .absent)

def ForTarget.check (inAsync : Bool) (target : ForTarget) : Lower Unit :=
  if target.pattern.hasSuspend inAsync then .refuse .loopPattern else return ()

mutual

def Stmt.lower (inAsync : Bool) (s : Stmt) : Lower (List Stmt) := do
  if !s.hasSuspend inAsync then return [s]
  match s with
  | .empty | .ret none | .brk _ | .cont _ | .function _ _ => return [s]
  | .expr e =>
    e.checkYields
    return effectStmts (← e.hoistEffect inAsync)
  | .declare kind ds => lowerDeclarators inAsync kind ds
  | .ret (some e) =>
    let h ← e.lowerValue inAsync
    return effectStmts h.before ++ [.ret (some h.rest)]
  | .throw e =>
    let h ← e.lowerValue inAsync
    return effectStmts h.before ++ [.throw h.rest]
  | .block body => return [.block (← lowerStmts inAsync body)]
  | .ifElse test yes none =>
    let h ← test.lowerValue inAsync
    let yes ← yes.lower inAsync
    return effectStmts h.before ++ [.ifElse h.rest (.ofList yes) none]
  | .ifElse test yes (some no) =>
    let h ← test.lowerValue inAsync
    let yes ← yes.lower inAsync
    let no ← no.lower inAsync
    return effectStmts h.before ++ [.ifElse h.rest (.ofList yes) (some (.ofList no))]
  | .whileDo test body =>
    let test ← test.lowerCondition inAsync
    let body ← body.lower inAsync
    return [.whileDo test (.ofList body)]
  | .doWhile body test =>
    let test ← test.lowerCondition inAsync
    let body ← body.lower inAsync
    return [.doWhile (.ofList body) test]
  | .forLoop init test update body =>
    let (before, init) ← init.lower inAsync
    let test ← lowerConditions inAsync test
    let update ← lowerConditions inAsync update
    let body ← body.lower inAsync
    return effectStmts before ++ [.forLoop init test update (.ofList body)]
  | .forIn target subject body =>
    target.check inAsync
    let h ← subject.lowerValue inAsync
    let body ← body.lower inAsync
    return effectStmts h.before ++ [.forIn target h.rest (.ofList body)]
  | .forOf target subject body isAwait =>
    target.check inAsync
    let h ← subject.lowerValue inAsync
    let body ← body.lower inAsync
    return effectStmts h.before ++ [.forOf target h.rest (.ofList body) isAwait]
  | .tryCatch block none none => return [.tryCatch (← lowerStmts inAsync block) none none]
  | .tryCatch block none (some finalizer) =>
    let finalizer ← lowerStmts inAsync finalizer
    return [.tryCatch (← lowerStmts inAsync block) none (some finalizer)]
  | .tryCatch block (some (.mk param handler)) none =>
    if param.any (·.hasSuspend inAsync) then .refuse .catchParameter
    let handler ← lowerStmts inAsync handler
    return [.tryCatch (← lowerStmts inAsync block) (some (.mk param handler)) none]
  | .tryCatch block (some (.mk param handler)) (some finalizer) =>
    if param.any (·.hasSuspend inAsync) then .refuse .catchParameter
    let handler ← lowerStmts inAsync handler
    let finalizer ← lowerStmts inAsync finalizer
    return [.tryCatch (← lowerStmts inAsync block) (some (.mk param handler)) (some finalizer)]
  | .switch subject cases =>
    let h ← subject.lowerValue inAsync
    let cases ← lowerCases inAsync cases
    return effectStmts h.before ++ [.switch h.rest cases]
  | .labeled label body => return labelLast label (← body.lower inAsync)

def lowerStmts (inAsync : Bool) : List Stmt → Lower (List Stmt)
  | [] => return []
  | s :: ss => do
    let first ← s.lower inAsync
    return first ++ (← lowerStmts inAsync ss)

def lowerCases (inAsync : Bool) : List Case → Lower (List Case)
  | [] => return []
  | .mk test body :: cases => do
    if test.any (·.hasSuspend inAsync) then .refuse .caseTest
    let body ← lowerStmts inAsync body
    return .mk test body :: (← lowerCases inAsync cases)

end

structure LoweredBody where
  body : List Stmt
  slots : List String

def slotNumber? (name : String) : Option Nat :=
  let lead := "%resume".toList
  let cs := name.toList
  if lead.isPrefixOf cs then Number.position? (String.ofList (cs.drop lead.length)) else none

def firstFreeSlot (body : List Stmt) : SlotNumber :=
  match ((writtenSlots body).filterMap slotNumber?).max? with
  | some n => n.toUInt64 + 1
  | none => 0

def lowerBody (inAsync : Bool) (body : List Stmt) : Except Refusal LoweredBody :=
  match (lowerStmts inAsync body).run (firstFreeSlot body) with
  | .ok (body, _) => .ok ⟨body, writtenSlots body⟩
  | .error o => .error (.obstacle o)

end Resumable
