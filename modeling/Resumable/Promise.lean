import Resumable.World

/-!
Promises. A promise settles once; what waits for it is queued as jobs, in the order in which it came,
and never runs at once.
-/

set_option autoImplicit false

namespace Resumable

namespace Promise

/-- The two functions that settle a promise; of all calls to both only the first counts. -/
structure Resolvers where
  resolve : Value
  reject : Value

def newResolvers (promise : ObjectId) : Edit Resolvers := do
  let latch ← Edit.newLatch
  let resolve ← Edit.newNative "" 1 (.resolve promise latch)
  let reject ← Edit.newNative "" 1 (.reject promise latch)
  return ⟨.obj resolve, .obj reject⟩

def setState (promise : ObjectId) (state : PromiseState) : Edit Unit :=
  Edit.update promise fun o => { o with role := .promise state }

def state? (promise : ObjectId) : Edit (Option PromiseState) := do
  return (← Edit.heap).promise? (.obj promise)

def settle (promise : ObjectId) (s : Settlement) : Edit Unit := do
  match ← state? promise with
  | some (.pending reactions) =>
    setState promise (.settled s)
    reactions.forM fun r => Edit.enqueue (.react r s)
  | some (.settled _) | none => return ()

def reject (promise : ObjectId) (reason : Value) : Edit Unit := settle promise (.rejected reason)

/-- Resolves a promise with a value. A value with a method `then` decides later; the promise itself
is refused. -/
def resolve (promise : ObjectId) (v : Value) : Edit Unit := do
  if v.object? = some promise then
    let e ← Edit.newError .typeError "A promise cannot be resolved with itself."
    reject promise (.obj e)
  else
    let h ← Edit.heap
    if h.isPromiseLike v then
      let r ← newResolvers promise
      Edit.enqueue (.adopt v (h.property v "then") r.resolve r.reject)
    else settle promise (.fulfilled v)

def addReaction (promise : ObjectId) (r : Reaction) : Edit Unit := do
  match ← state? promise with
  | some (.pending reactions) => setState promise (.pending (reactions ++ [r]))
  | some (.settled s) => Edit.enqueue (.react r s)
  | none => return ()

def handler? (h : Heap) (v : Value) : Option Value := if h.isCallable v then some v else none

/-- The promise of what the handlers make of a promise. Without a handler the settlement is passed
on. -/
def derive (promise : ObjectId) (onFulfilled onRejected : Value) : Edit ObjectId := do
  let derived ← Edit.newPromise
  let r ← newResolvers derived
  let h ← Edit.heap
  addReaction promise
    (.handlers (handler? h onFulfilled) (handler? h onRejected) r.resolve r.reject)
  return derived

def ofValue (v : Value) : Edit ObjectId := do
  match v.object?, (← Edit.heap).isPromise v with
  | some promise, true => return promise
  | _, _ =>
    let promise ← Edit.newPromise
    resolve promise v
    return promise

def await (v : Value) (k : Continuation) : Edit Unit := do
  let promise ← ofValue v
  addReaction promise (.resume k)

end Promise

end Resumable
