import Resumable.World.Object

/-!
The heap: all objects. The prototype of an object is older than the object, so a chain of prototypes
ends. A property belongs to the first object of the chain that has it.
-/

set_option autoImplicit false

namespace Resumable

structure Heap where
  objects : Array Object

namespace Heap

def empty : Heap := ⟨#[]⟩

def get? (h : Heap) (id : ObjectId) : Option Object := h.objects[id]?

def alloc (h : Heap) (o : Object) : ObjectId × Heap := (h.objects.size, ⟨h.objects.push o⟩)

def modify (h : Heap) (id : ObjectId) (f : Object → Object) : Heap := ⟨h.objects.modify id f⟩

def chain (h : Heap) (id : ObjectId) : List ObjectId :=
  id :: match (h.get? id).bind Object.proto with
    | some proto => if proto < id then h.chain proto else []
    | none => []
termination_by id

def prototypes (h : Heap) (id : ObjectId) : List ObjectId := (h.chain id).drop 1

def property? (h : Heap) (id : ObjectId) (key : String) : Option Value :=
  (h.chain id).findSome? fun o => (h.get? o).bind (·.own? key)

def hasProperty (h : Heap) (id : ObjectId) (key : String) : Bool := (h.property? id key).isSome

def property (h : Heap) (v : Value) (key : String) : Value :=
  match v with
  | .obj id => (h.property? id key).getD .undefined
  | _ => .undefined

def keys (h : Heap) (id : ObjectId) : List String :=
  ((h.chain id).flatMap fun o => ((h.get? o).map Object.ownKeys).getD []).eraseDups

def object? (h : Heap) (v : Value) : Option Object := v.object?.bind h.get?

def callable? (h : Heap) (v : Value) : Option Callable := (h.object? v).bind Object.callable?

def isCallable (h : Heap) (v : Value) : Bool := (h.callable? v).isSome

def elements? (h : Heap) (v : Value) : Option (Array Value) := (h.object? v).bind Object.elements?

def promise? (h : Heap) (v : Value) : Option PromiseState := (h.object? v).bind Object.promise?

def isPromise (h : Heap) (v : Value) : Bool := (h.promise? v).isSome

def isPromiseLike (h : Heap) (v : Value) : Bool := v.isObject && h.isCallable (h.property v "then")

def typeof (h : Heap) : Value → String
  | .undefined => "undefined"
  | .null => "object"
  | .bool _ => "boolean"
  | .num _ => "number"
  | .str _ => "string"
  | .sym _ => "symbol"
  | .obj id => if h.isCallable (.obj id) then "function" else "object"

/-- The message of an object, after its name if it has one. -/
def messageText? (h : Heap) (v : Value) : Option String :=
  match h.property v "message", h.property v "name" with
  | .str message, .str name =>
    if name.toString.isEmpty then some message.toString
    else some (name.toString ++ ": " ++ message.toString)
  | .str message, _ => some message.toString
  | _, _ => none

def formatTo (h : Heap) : Nat → Value → String
  | 0, v => v.display
  | depth + 1, v =>
    match h.object? v with
    | none => v.display
    | some o =>
      match o.role with
      | .array elements =>
        "[" ++ ", ".intercalate (elements.toList.map (h.formatTo depth)) ++ "]"
      | .promise _ => "[object Promise]"
      | _ => (h.messageText? v).getD v.display

/-- The text of a value as shown. Arrays that do not hold themselves nest less deep than there are
objects. -/
def format (h : Heap) (v : Value) : String := h.formatTo (h.objects.size + 1) v

def join (h : Heap) (v : Value) (separator : String) : String :=
  let elements := (h.elements? v).getD #[]
  separator.intercalate <| elements.toList.map fun
    | .undefined | .null => ""
    | e => h.format e

def operandText (h : Heap) (v : Value) : String :=
  if (h.elements? v).isSome then h.join v "," else h.format v

def isInstance (h : Heap) (v constructor : Value) : Bool :=
  match h.property constructor "prototype", v with
  | .obj proto, .obj id => (h.prototypes id).contains proto
  | _, _ => false

end Heap

end Resumable
