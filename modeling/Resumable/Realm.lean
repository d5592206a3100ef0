import Resumable.World

/-!
The world before any script has run: prototypes, constructors and global names.
-/

set_option autoImplicit false

namespace Resumable

/-- Nothing but an empty outermost scope. The first object to be made becomes the root of all
prototypes. -/
def World.blank : World :=
  { scopes := ⟨#[default]⟩
    heap := .empty
    realm := ⟨0, 0, 0, 0, 0, 0, fun _ => 0⟩
    instances := #[]
    asyncGenerators := #[]
    cells := #[]
    latches := #[]
    jobs := []
    console := []
    nextSymbol := 1
    builds := [] }

namespace Realm

def update (f : Realm → Realm) : Edit Unit := modify fun w => { w with realm := f w.realm }

def method (owner : ObjectId) (key name : String) (arity : Nat) (n : Native) : Edit Unit := do
  let f ← Edit.newNative name arity n
  Edit.update owner (·.insertHidden key (.obj f))

def defineGlobal (name : String) (kind : VarKind) (v : Value) : Edit Unit := do
  let _ ← Edit.define World.global name kind v

def newConstructor (name : String) (n : Native) (proto : ObjectId) : Edit ObjectId := do
  let ctor ← Edit.newNative name 1 n
  Edit.update ctor (·.insertFixed "prototype" (.obj proto))
  Edit.update proto (·.insertHidden "constructor" (.obj ctor))
  defineGlobal name .var (.obj ctor)
  return ctor

def newIteratorProto (symbol : WellKnown) : Edit ObjectId := do
  let proto ← Edit.newPlain
  method proto symbol.key ("[" ++ symbol.description ++ "]") 0 .self
  return proto

def setupArrays (iterator : ObjectId) : Edit Unit := do
  let elements ← Edit.newObject (some iterator)
  method elements "next" "next" 0 .arrayIteratorNext
  let array ← Edit.alloc ⟨some (← Edit.realm).object, .empty, .array #[]⟩
  method array "push" "push" 1 .push
  method array "join" "join" 1 .join
  let values := Value.obj (← Edit.newNative "values" 0 .values)
  Edit.update array (·.insertHidden "values" values)
  method array "keys" "keys" 0 .keys
  Edit.update array (·.insertHidden WellKnown.iterator.key values)
  update fun r => { r with array, arrayIterator := elements }

def newGeneratorProto (parent : ObjectId) (tag : String) (n : Method → Native) :
    Edit ObjectId := do
  let proto ← Edit.newObject (some parent)
  [Method.next, .ret, .throw].forM fun m => method proto m.name m.name 1 (n m)
  Edit.update proto (·.insertFixed WellKnown.toStringTag.key (.ofString tag))
  return proto

def setupPromises : Edit Unit := do
  let proto ← Edit.newPlain
  method proto "then" "then" 2 .promiseThen
  method proto "catch" "catch" 1 .promiseCatch
  let ctor ← newConstructor "Promise" .promise proto
  method ctor "resolve" "resolve" 1 .promiseResolve
  method ctor "reject" "reject" 1 .promiseReject
  update fun r => { r with promise := proto }

def setupError (parent : ObjectId) (kind : ErrorKind) : Edit ObjectId := do
  let proto ← Edit.newObject (some parent)
  Edit.update proto (·.insertHidden "name" (.ofString kind.name))
  Edit.update proto (·.insertHidden "message" (.ofString ""))
  let _ ← newConstructor kind.name (.error kind) proto
  update fun r => { r with error := fun k => if k = kind then proto else r.error k }
  return proto

def setupErrors : Edit Unit := do
  let base ← setupError (← Edit.realm).object .error
  (ErrorKind.all.erase .error).forM fun kind => do
    let _ ← setupError base kind

def setupSymbols : Edit Unit := do
  let ctor ← Edit.newNative "Symbol" 0 .symbol
  Edit.update ctor fun o =>
    ((o.insertFixed "iterator" (.sym WellKnown.iterator.symbol)).insertFixed "asyncIterator"
      (.sym WellKnown.asyncIterator.symbol)).insertFixed "toStringTag"
        (.sym WellKnown.toStringTag.symbol)
  defineGlobal "Symbol" .var (.obj ctor)

def setupConsole : Edit Unit := do
  let console ← Edit.newPlain
  method console "log" "log" 0 .log
  defineGlobal "console" .const (.obj console)

def setup : Edit Unit := do
  defineGlobal "undefined" .const .undefined
  defineGlobal "NaN" .const (.num Number.nan)
  defineGlobal "Infinity" .const (.num Number.infinity)
  defineGlobal "this" .const .undefined
  let object ← Edit.newObject none
  update fun r => { r with object }
  let iterator ← newIteratorProto .iterator
  let asyncIterator ← newIteratorProto .asyncIterator
  setupArrays iterator
  let generator ← newGeneratorProto iterator "Generator" .generator
  let asyncGenerator ← newGeneratorProto asyncIterator "AsyncGenerator" .asyncGenerator
  update fun r => { r with generator, asyncGenerator }
  setupPromises
  setupErrors
  setupSymbols
  setupConsole

end Realm

def World.initial : World := (Realm.setup.run World.blank).2

end Resumable
