import Resumable.Run

/-!
The protocol of iterators: how they are opened, stepped and closed.
-/

set_option autoImplicit false

namespace Resumable

variable {σ : Type} [HasWorld σ]

def method? (v : Value) (key : String) : RunOn σ (Option Value) := do
  let h ← Run.heap
  let m := h.property v key
  if m.isNullish then return none
  if !h.isCallable m then Run.throwType s!"{key} is not a function"
  return some m

namespace IteratorRecord

def opened (host : HostOn σ) (v method : Value) (isAsync : Bool) : RunOn σ IteratorRecord := do
  let iterator ← host.call method v []
  if !iterator.isObject then Run.throwType "Result of the iterator method is not an object"
  return ⟨iterator, (← Run.heap).property iterator "next", isAsync, false⟩

def ofValue (host : HostOn σ) (v : Value) : RunOn σ IteratorRecord := do
  match ← method? v WellKnown.iterator.key with
  | some m => opened host v m false
  | none =>
    let shown := (← Run.heap).format v
    Run.throwType s!"{shown} is not iterable"

/-- The asynchronous iterator of a value, or else its synchronous one. -/
def ofAsync (host : HostOn σ) (v : Value) : RunOn σ IteratorRecord := do
  match ← method? v WellKnown.asyncIterator.key with
  | some m => opened host v m true
  | none => return { ← ofValue host v with isAsync := true, fromSync := true }

def overKeys (v : Value) : RunOn σ IteratorRecord := do
  let h ← Run.heap
  let keys := match v.object? with
    | some id => h.keys id
    | none => []
  let array ← Edit.newArray (keys.map Value.ofString).toArray
  let iterator := Value.obj (← Edit.newArrayIterator array false)
  return ⟨iterator, (← Run.heap).property iterator "next", false, false⟩

def callNext (host : HostOn σ) (r : IteratorRecord) (args : List Value) : RunOn σ Value := do
  if !(← Run.heap).isCallable r.next then Run.throwType "iterator.next is not a function"
  host.call r.next r.iterator args

end IteratorRecord

def malformed? (h : Heap) (result : Value) : Option Fatal :=
  match result with
  | .obj id => if h.hasProperty id "done" then none else some .noDone
  | v => some (.notAnObject (h.typeof v))

namespace IteratorRecord

def step (host : HostOn σ) (r : IteratorRecord) : RunOn σ (Option Value) := do
  let result ← r.callNext host []
  let h ← Run.heap
  match malformed? h result with
  | some e => Run.fatal e
  | none =>
    if (h.property result "done").truthy then return none
    return some (h.property result "value")

def drain (host : HostOn σ) (r : IteratorRecord) : Nat → Array Value → RunOn σ (Array Value)
  | 0, _ => Run.exhausted
  | n + 1, items => do
    match ← r.step host with
    | some v => r.drain host n (items.push v)
    | none => return items

end IteratorRecord

def callReturn (host : HostOn σ) (iterator : Value) : RunOn σ Unit := do
  match ← method? iterator "return" with
  | none => return ()
  | some m =>
    if !(← host.call m iterator []).isObject then Run.throwType "iterator result is not an object"

/-- Closes an iterator. When an exception is on its way already, nothing but a fatal error of the
closing itself counts. -/
def closeIterator (host : HostOn σ) (iterator : Value) (throwing : Bool) : RunOn σ Unit := do
  match ← (callReturn host iterator).attempt with
  | .ok () => return ()
  | .error (.fatal e) => Run.fatal e
  | .error c => if throwing then return () else Run.abrupt c

def iterate (host : HostOn σ) (v : Value) : RunOn σ (Array Value) := do
  let r ← IteratorRecord.ofValue host v
  r.drain host host.fuel #[]

end Resumable
