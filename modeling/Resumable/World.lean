import Resumable.Script.Census
import Resumable.World.Heap
import Resumable.World.Instance
import Resumable.World.Scope

/-!
The world: all that a run reads and changes. `Edit` is a change that always succeeds and runs no
script code.
-/

set_option autoImplicit false

namespace Resumable

structure Realm where
  object : ObjectId
  array : ObjectId
  arrayIterator : ObjectId
  generator : ObjectId
  asyncGenerator : ObjectId
  promise : ObjectId
  error : ErrorKind → ObjectId

structure Request where
  action : Action
  promise : ObjectId

structure AsyncGenerator where
  inst : InstanceId
  queue : List Request
  running : Bool

inductive Job where
  | react (r : Reaction) (s : Settlement)
  | adopt (thenable method resolve reject : Value)

/-- An attempt to build a plan. The site is absent for a function that is new each time it is
evaluated. -/
structure PlanRecord where
  site : Option Nat
  name : String
  kind : FunctionKind
  result : Except Refusal (Plan × Census)

structure World where
  scopes : Scopes
  heap : Heap
  realm : Realm
  instances : Array Instance
  asyncGenerators : Array AsyncGenerator
  cells : Array (Option Settlement)
  latches : Array Bool
  jobs : List Job
  console : List String
  nextSymbol : Nat
  builds : List PlanRecord

abbrev Edit := StateM World

def World.global : ScopeId := 0

namespace Edit

def scopes {α : Type} (f : Scopes → α × Scopes) : Edit α := modifyGet fun w =>
  let (a, scopes) := f w.scopes
  (a, { w with scopes })

def newScope (parent : ScopeId) : Edit ScopeId := scopes (·.alloc ⟨.empty, some parent⟩)

def copyScope (id : ScopeId) : Edit ScopeId := scopes (·.copy id)

def declare (id : ScopeId) (name : String) (kind : VarKind) : Edit Unit :=
  scopes fun s => ((), s.declare id name kind)

/-- Assigns to a name; says whether the binding took the value. -/
def assign (id : ScopeId) (name : String) (v : Value) : Edit Bool :=
  scopes fun s =>
    match s.assign? id name v with
    | some s => (true, s)
    | none => (false, s)

def define (id : ScopeId) (name : String) (kind : VarKind) (v : Value) : Edit Bool := do
  declare id name kind
  assign id name v

def heap : Edit Heap := return (← get).heap

def realm : Edit Realm := return (← get).realm

def alloc (o : Object) : Edit ObjectId := modifyGet fun w =>
  let (id, heap) := w.heap.alloc o
  (id, { w with heap })

def update (id : ObjectId) (f : Object → Object) : Edit Unit :=
  modify fun w => { w with heap := w.heap.modify id f }

def newObject (proto : Option ObjectId) : Edit ObjectId := alloc ⟨proto, .empty, .ordinary⟩

def newPlain : Edit ObjectId := do newObject (some (← realm).object)

def newArray (elements : Array Value) : Edit ObjectId := do
  alloc ⟨some (← realm).array, .empty, .array elements⟩

def newArrayIterator (source : ObjectId) (overKeys : Bool) : Edit ObjectId := do
  alloc ⟨some (← realm).arrayIterator, .empty, .arrayIterator source 0 overKeys false⟩

def newPromise : Edit ObjectId := do
  alloc ⟨some (← realm).promise, .empty, .promise (.pending [])⟩

def newError (kind : ErrorKind) (message : String) : Edit ObjectId := do
  let fields := Dict.empty.insert "message" ⟨.ofString message, true, false⟩
  alloc ⟨some ((← realm).error kind), fields, .ordinary⟩

def newResult (v : Value) (done : Bool) : Edit ObjectId := do
  let fields := (Dict.empty.insert "value" ⟨v, true, true⟩).insert "done" ⟨.bool done, true, true⟩
  alloc ⟨some (← realm).object, fields, .ordinary⟩

def functionFields (name : String) (arity : Nat) : Dict Field :=
  (Dict.empty.insert "length" ⟨.ofNat arity, false, false⟩).insert "name"
    ⟨.ofString name, false, false⟩

def newNative (name : String) (arity : Nat) (n : Native) : Edit ObjectId := do
  alloc ⟨some (← realm).object, functionFields name arity, .function (.native n)⟩

def newSymbol (description : Option String) : Edit Symbol := modifyGet fun w =>
  (⟨w.nextSymbol, description.map .ofString⟩, { w with nextSymbol := w.nextSymbol + 1 })

def newLatch : Edit LatchId := modifyGet fun w =>
  (w.latches.size, { w with latches := w.latches.push false })

/-- Closes a latch; says whether it was open. -/
def takeLatch (id : LatchId) : Edit Bool := modifyGet fun w =>
  (w.latches[id]? == some false, { w with latches := w.latches.setIfInBounds id true })

def newCell : Edit CellId := modifyGet fun w =>
  (w.cells.size, { w with cells := w.cells.push none })

def fillCell (id : CellId) (s : Settlement) : Edit Unit :=
  modify fun w => { w with cells := w.cells.setIfInBounds id (some s) }

def takeCell (id : CellId) : Edit (Option Settlement) := modifyGet fun w =>
  (w.cells[id]?.join, { w with cells := w.cells.setIfInBounds id none })

def enqueue (job : Job) : Edit Unit := modify fun w => { w with jobs := w.jobs ++ [job] }

def print (line : String) : Edit Unit := modify fun w => { w with console := w.console ++ [line] }

def newInstance (g : Instance) : Edit InstanceId := modifyGet fun w =>
  (w.instances.size, { w with instances := w.instances.push g })

def instance? (id : InstanceId) : Edit (Option Instance) := return (← get).instances[id]?

def setInstance (id : InstanceId) (g : Instance) : Edit Unit :=
  modify fun w => { w with instances := w.instances.setIfInBounds id g }

def modifyInstance (id : InstanceId) (f : Instance → Instance) : Edit Unit :=
  modify fun w => { w with instances := w.instances.modify id f }

def newAsyncGenerator (inst : InstanceId) : Edit AsyncGeneratorId := modifyGet fun w =>
  (w.asyncGenerators.size, { w with asyncGenerators := w.asyncGenerators.push ⟨inst, [], false⟩ })

def asyncGenerator? (id : AsyncGeneratorId) : Edit (Option AsyncGenerator) :=
  return (← get).asyncGenerators[id]?

def modifyAsyncGenerator (id : AsyncGeneratorId) (f : AsyncGenerator → AsyncGenerator) :
    Edit Unit :=
  modify fun w => { w with asyncGenerators := w.asyncGenerators.modify id f }

end Edit

end Resumable
