import Resumable.World.Object

/-!
Instances: activations of plans, which can stop in the middle and be resumed.
-/

set_option autoImplicit false

namespace Resumable

/-- A fault of the run itself, which no script code observes. -/
inductive Fatal where
  | generatorRunning
  | noDone
  | notAnObject (typeName : String)
  | notAGenerator
  deriving DecidableEq, Repr

def Fatal.message : Fatal → String
  | .generatorRunning => "generator is already running"
  | .noDone => "malformed iterator result: result object has no 'done' property"
  | .notAnObject typeName => "malformed iterator result: expected an object, got " ++ typeName
  | .notAGenerator => "value is not a generator object"

inductive Status where
  | suspendedStart
  | suspendedYield
  | executing
  | completed
  deriving DecidableEq, Repr

inductive Action where
  | next (v : Value)
  | throw (v : Value)
  | ret (v : Value)
  | settled (s : Settlement)
  | delegateDone (v : Value)
  | delegateThrew (v : Value)

def Action.ofMethod (m : Method) (v : Value) : Action :=
  match m with
  | .next => .next v
  | .throw => .throw v
  | .ret => .ret v

inductive Stop where
  | yielded (v : Value)
  | awaiting (v : Value)
  | returned (v : Value)
  | threw (v : Value)
  | failed (e : Fatal)

/-- An open iterator, with the method `next` that it had when it was opened. -/
structure IteratorRecord where
  iterator : Value
  next : Value
  isAsync : Bool
  /-- An asynchronous loop over a synchronous iterator awaits the elements that are promises. -/
  fromSync : Bool

inductive AwaitKind where
  | value
  | delegate
  | result
  | element
  deriving DecidableEq, Repr

/-- Where a jump leads, and what is left of the stacks there. -/
structure Jump where
  target : Nat
  loops : Nat
  scopes : Nat
  frames : Nat

inductive Signal where
  | ret (v : Value)
  | throw (v : Value)
  | jump (j : Jump)

def Signal.isThrow : Signal → Bool
  | .throw _ => true
  | .ret _ | .jump _ => false

inductive Phase where
  | body
  | handler
  /-- In the finally block, after which the signal goes on. -/
  | finalizer (pending : Option Signal)

inductive FrameKind where
  | region (onThrow onExit : Option Nat) (phase : Phase)
  | iterator (record : IteratorRecord)

/-- A protected region, with the depths of the stacks outside it. -/
structure Frame where
  kind : FrameKind
  scopes : Nat
  loops : Nat

structure LoopScope where
  labels : List String
  kind : LoopKind
  onContinue : Option Nat
  onBreak : Nat
  scopes : Nat
  frames : Nat

structure Delegation where
  record : IteratorRecord
  received : Method
  /-- The generator behind the iterator, if it can be resumed directly. -/
  native : Option InstanceId

/-- A synchronous instance that waits for a promise. -/
structure Parked where
  promise : Value
  cell : CellId

structure Instance where
  plan : Plan
  ip : Nat
  status : Status
  isAsync : Bool
  base : ScopeId
  scopes : List ScopeId
  frames : List Frame
  loops : List LoopScope
  delegation : Option Delegation
  awaiting : Option AwaitKind
  caught : Option Value
  parked : Option Parked

namespace Instance

def start (plan : Plan) (base : ScopeId) (isAsync : Bool) : Instance :=
  { plan
    ip := plan.entry
    status := .suspendedStart
    isAsync
    base
    scopes := []
    frames := []
    loops := []
    delegation := none
    awaiting := none
    caught := none
    parked := none }

def scope (g : Instance) : ScopeId := g.scopes.headD g.base

def outermost {α : Type} (n : Nat) (stack : List α) : List α := stack.drop (stack.length - n)

def cut (g : Instance) (scopes loops : Nat) : Instance :=
  { g with scopes := outermost scopes g.scopes, loops := outermost loops g.loops }

def goto (g : Instance) (ip : Nat) : Instance := { g with ip }

def pushScope (g : Instance) (scope : ScopeId) : Instance := { g with scopes := scope :: g.scopes }

def popScope (g : Instance) : Instance := { g with scopes := g.scopes.tail }

def replaceScope (g : Instance) (scope : ScopeId) : Instance :=
  match g.scopes with
  | [] => { g with base := scope }
  | _ :: rest => { g with scopes := scope :: rest }

def pushFrame (g : Instance) (kind : FrameKind) : Instance :=
  { g with frames := ⟨kind, g.scopes.length, g.loops.length⟩ :: g.frames }

def popFrame (g : Instance) : Instance := { g with frames := g.frames.tail }

def iterator? (g : Instance) : Option IteratorRecord :=
  match g.frames with
  | ⟨.iterator record, _, _⟩ :: _ => some record
  | _ => none

def instr? (g : Instance) : Option Instr := g.plan.get? g.ip

def finish (g : Instance) : Instance :=
  { g with status := .completed, delegation := none, awaiting := none, frames := [], loops := [] }

end Instance

end Resumable
