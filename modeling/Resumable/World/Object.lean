import Resumable.Dict
import Resumable.Plan.Basic
import Resumable.Value
import Resumable.World.Scope

/-!
Objects: properties in insertion order, a prototype, and a role, which says what the object is.
-/

set_option autoImplicit false

namespace Resumable

abbrev InstanceId := Nat

abbrev AsyncGeneratorId := Nat

abbrev CellId := Nat

/-- A latch lets only the first of several calls through. -/
abbrev LatchId := Nat

inductive ErrorKind where
  | error
  | typeError
  | syntaxError
  | rangeError
  | referenceError
  deriving DecidableEq, Repr

namespace ErrorKind

def all : List ErrorKind := [.error, .typeError, .syntaxError, .rangeError, .referenceError]

def name : ErrorKind → String
  | .error => "Error"
  | .typeError => "TypeError"
  | .syntaxError => "SyntaxError"
  | .rangeError => "RangeError"
  | .referenceError => "ReferenceError"

end ErrorKind

inductive Method where
  | next
  | throw
  | ret
  deriving DecidableEq, Repr

def Method.name : Method → String
  | .next => "next"
  | .throw => "throw"
  | .ret => "return"

inductive Native where
  | log
  | push
  | join
  | values
  | keys
  | self
  | arrayIteratorNext
  | generator (m : Method)
  | asyncGenerator (m : Method)
  | promise
  | promiseThen
  | promiseCatch
  | promiseResolve
  | promiseReject
  | resolve (promise : ObjectId) (latch : LatchId)
  | reject (promise : ObjectId) (latch : LatchId)
  | error (kind : ErrorKind)
  | symbol
  deriving DecidableEq, Repr

inductive Routine where
  | plain
  | generator (plan : Plan)
  | async (plan : Plan)
  | asyncGenerator (plan : Plan)

structure Closure where
  params : List Pattern
  body : List Stmt
  scope : ScopeId
  isArrow : Bool
  routine : Routine

inductive Callable where
  | closure (c : Closure)
  | native (n : Native)

inductive Settlement where
  | fulfilled (v : Value)
  | rejected (v : Value)

inductive Continuation where
  | unpark (cell : CellId)
  | asyncGenerator (id : AsyncGeneratorId)
  | asyncFunction (id : InstanceId) (promise : ObjectId)

/-- What waits for a promise: handlers that settle a derived promise, or a suspended activation. -/
inductive Reaction where
  | handlers (onFulfilled onRejected : Option Value) (resolve reject : Value)
  | resume (k : Continuation)

inductive PromiseState where
  | pending (reactions : List Reaction)
  | settled (s : Settlement)

inductive Role where
  | ordinary
  | function (c : Callable)
  | array (elements : Array Value)
  | arrayIterator (source : ObjectId) (index : Nat) (overKeys done : Bool)
  | generator (id : InstanceId)
  | asyncGenerator (id : AsyncGeneratorId)
  | promise (state : PromiseState)

structure Field where
  value : Value
  writable : Bool
  enumerable : Bool

structure Object where
  proto : Option ObjectId
  fields : Dict Field
  role : Role

namespace Object

def callable? (o : Object) : Option Callable :=
  match o.role with
  | .function c => some c
  | _ => none

def elements? (o : Object) : Option (Array Value) :=
  match o.role with
  | .array elements => some elements
  | _ => none

def promise? (o : Object) : Option PromiseState :=
  match o.role with
  | .promise state => some state
  | _ => none

def element? (elements : Array Value) (key : String) : Option Value :=
  if key == "length" then some (.ofNat elements.size)
  else (Number.position? key).bind fun i => elements[i]?

def own? (o : Object) (key : String) : Option Value :=
  match o.fields.get? key with
  | some f => some f.value
  | none => o.elements?.bind (element? · key)

def insert (o : Object) (key : String) (f : Field) : Object :=
  { o with fields := o.fields.insert key f }

def insertValue (o : Object) (key : String) (v : Value) : Object := o.insert key ⟨v, true, true⟩

def insertHidden (o : Object) (key : String) (v : Value) : Object := o.insert key ⟨v, true, false⟩

def insertFixed (o : Object) (key : String) (v : Value) : Object := o.insert key ⟨v, false, false⟩

/-- Elements with one replaced; the gap up to it is filled with `undefined`. -/
def setElement (elements : Array Value) (i : Nat) (v : Value) : Array Value :=
  let elements := elements ++ Array.replicate (i + 1 - elements.size) Value.undefined
  elements.setIfInBounds i v

def setField (o : Object) (key : String) (v : Value) : Object :=
  match o.fields.get? key with
  | some f => if f.writable then o.insert key { f with value := v } else o
  | none => o.insertValue key v

def set (o : Object) (key : String) (v : Value) : Object :=
  match o.elements?, Number.position? key with
  | some elements, some i => { o with role := .array (setElement elements i v) }
  | _, _ => o.setField key v

def isSymbolKey (key : String) : Bool := "Symbol(".toList.isPrefixOf key.toList

/-- The own keys that a loop over keys visits: positions, then fields. -/
def ownKeys (o : Object) : List String :=
  let positions := match o.elements? with
    | some elements => (List.range elements.size).map Nat.repr
    | none => []
  let names := o.fields.entries.filterMap fun (key, f) =>
    if f.enumerable && !isSymbolKey key then some key else none
  positions ++ names

end Object

end Resumable
