import Resumable.Refusal
import Resumable.Script.Tree

/-!
Plans: flat lists of instructions that name each other by position. A suspend instruction is
followed by the store of the value with which it is resumed.
-/

set_option autoImplicit false

namespace Resumable

inductive LoopKind where
  | loop
  | switch
  /-- A labeled statement that is no loop: only a `break` with its label leads to it. -/
  | block
  deriving DecidableEq, Repr

inductive Instr where
  | evaluate (s : Stmt) (next : Nat)
  | yield (operand : Option Expr) (next : Nat)
  | yieldStar (operand : Expr) (next : Nat)
  | await (operand : Expr) (next : Nat)
  | store (slot : Option String) (next : Nat)
  | jump (target : Nat)
  | branch (condition : Expr) (onTrue onFalse : Nat)
  | enterTry (onThrow onExit : Option Nat) (next : Nat)
  | exitTry (next : Nat) (close : Bool)
  | bindCatch (param : Option Pattern) (next : Nat)
  | endFinally (next : Nat)
  | pushScope (functions : List FunctionDecl) (next : Nat)
  | popScope (next : Nat)
  | copyScope (next : Nat)
  | enterLoop (labels : List String) (kind : LoopKind) (onContinue : Option Nat) (onBreak next : Nat)
  | exitLoop (next : Nat)
  | brk (label : Option String)
  | cont (label : Option String)
  | openIterator (iterable : Expr) (isAsync overKeys : Bool) (next : Nat)
  /-- Without a kind the pattern assigns to names that exist. -/
  | moveNext (kind : Option VarKind) (pattern : Pattern) (body exit : Nat) (isAsync : Bool)
  | ret (operand : Option Expr)
  | throw (operand : Expr)

namespace Instr

def isSuspend : Instr → Bool
  | .yield _ _ | .yieldStar _ _ | .await _ _ => true
  | _ => false

def isStore : Instr → Bool
  | .store _ _ => true
  | _ => false

def targets : Instr → List Nat
  | .evaluate _ next | .yield _ next | .yieldStar _ next | .await _ next | .store _ next
  | .bindCatch _ next | .endFinally next | .pushScope _ next | .popScope next | .copyScope next
  | .exitLoop next | .exitTry next _ | .openIterator _ _ _ next => [next]
  | .jump target => [target]
  | .branch _ onTrue onFalse => [onTrue, onFalse]
  | .enterTry onThrow onExit next => next :: onThrow.toList ++ onExit.toList
  | .enterLoop _ _ onContinue onBreak next => next :: onBreak :: onContinue.toList
  | .moveNext _ _ body exit _ => [body, exit]
  | .brk _ | .cont _ | .ret _ | .throw _ => []

end Instr

structure Plan where
  code : List Instr
  entry : Nat
  /-- Names that the plan itself writes, declared before it starts. -/
  slots : List String

namespace Plan

def length (p : Plan) : Nat := p.code.length

def get? (p : Plan) (ip : Nat) : Option Instr := p.code[ip]?

def suspendPoints (p : Plan) : Nat := p.code.countP Instr.isSuspend

def checkInstr (code : List Instr) (position : Nat) (i : Instr) : Except Refusal Unit := do
  match i.targets.find? (code.length ≤ ·) with
  | some target => throw (.targetPastEnd position target)
  | none => pure ()
  if i.isSuspend && !(i.targets.head?.bind (code[·]?)).any Instr.isStore then
    throw (.missingStore position)

def checkFrom (code : List Instr) : Nat → List Instr → Except Refusal Unit
  | _, [] => return ()
  | position, i :: rest => do
    checkInstr code position i
    checkFrom code (position + 1) rest

/-- Every target lies inside the plan, and a store follows every suspend instruction. -/
def validate (p : Plan) : Except Refusal Unit := do
  if p.length ≤ p.entry then throw (.entryOutOfRange p.entry p.length)
  checkFrom p.code 0 p.code

end Plan

end Resumable
