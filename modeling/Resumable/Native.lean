import Resumable.Async

/-!
Built-in functions.
-/

set_option autoImplicit false

namespace Resumable

def Stop.toResult : Stop → Run Value
  | .yielded v | .awaiting v => do return .obj (← Edit.newResult v false)
  | .returned v => do return .obj (← Edit.newResult v true)
  | .threw v => Run.throwValue v
  | .failed e => Run.fatal e

namespace Native

def pushAll (receiver : Value) (items : List Value) : Run Value := do
  match receiver with
  | .obj id =>
    match (← Run.heap).elements? receiver with
    | some elements =>
      let elements := elements ++ items.toArray
      Edit.update id fun o => { o with role := .array elements }
      return .ofNat elements.size
    | none => Run.throwType "Array.prototype.push called on non-array"
  | _ => Run.throwType "Array.prototype.push called on non-object"

def joinArray (receiver separator : Value) : Run Value := do
  let separator := if separator.isUndefined then "," else separator.display
  return .ofString ((← Run.heap).join receiver separator)

def iterateArray (receiver : Value) (overKeys : Bool) : Run Value := do
  match receiver with
  | .obj id => return .obj (← Edit.newArrayIterator id overKeys)
  | _ =>
    let name := if overKeys then "keys" else "values"
    Run.throwType s!"Array.prototype.{name} called on non-object"

/-- One step of an array iterator. Once at the end it stays there, even if the array grows. -/
def nextElement (receiver : Value) : Run Value := do
  let h ← Run.heap
  match receiver, (h.object? receiver).map Object.role with
  | .obj id, some (.arrayIterator source index overKeys done) =>
    match (if done then none else (h.elements? (.obj source)).bind (·[index]?)) with
    | some v =>
      Edit.update id fun o => { o with role := .arrayIterator source (index + 1) overKeys false }
      return .obj (← Edit.newResult (if overKeys then .ofNat index else v) false)
    | none =>
      Edit.update id fun o => { o with role := .arrayIterator source index overKeys true }
      return .obj (← Edit.newResult .undefined true)
  | _, _ => Run.throwType "next method called on incompatible receiver"

def resumeGenerator (host : Host) (receiver : Value) (m : Method) (v : Value) : Run Value := do
  match (← Run.heap).generator? receiver with
  | some id => (← resume host id (.ofMethod m v)).toResult
  | none =>
    let name := m.name
    Run.throwType s!"Generator.prototype.{name} called on incompatible receiver"

/-- A new promise, settled by what the executor does with its two functions; an exception of the
executor rejects it. -/
def constructPromise (host : Host) (executor : Value) : Run Value := do
  if !(← Run.heap).isCallable executor then Run.throwType "Promise resolver is not a function"
  let promise ← Edit.newPromise
  let r ← Promise.newResolvers promise
  match ← (host.call executor .undefined [r.resolve, r.reject]).attempt with
  | .error (.throw v) =>
    let _ ← (host.call r.reject .undefined [v]).attempt
  | .error (.fatal e) => Run.fatal e
  | _ => pure ()
  return .obj promise

def thenPromise (receiver onFulfilled onRejected : Value) : Run Value := do
  match receiver, (← Run.heap).isPromise receiver with
  | .obj id, true => return .obj (← Promise.derive id onFulfilled onRejected)
  | _, _ => Run.throwType "Promise.prototype.then called on non-promise"

def text? (v : Value) : Option String := if v.isUndefined then none else some v.display

def call (host : Host) (n : Native) (receiver : Value) (args : List Value) : Run Value := do
  let first := args.headD .undefined
  match n with
  | .log =>
    let h ← Run.heap
    Edit.print (" ".intercalate (args.map h.format))
    return .undefined
  | .push => pushAll receiver args
  | .join => joinArray receiver first
  | .values => iterateArray receiver false
  | .keys => iterateArray receiver true
  | .self => return receiver
  | .arrayIteratorNext => nextElement receiver
  | .generator m => resumeGenerator host receiver m first
  | .asyncGenerator m => requestNext host receiver m first
  | .promise => constructPromise host first
  | .promiseThen => thenPromise receiver first (args.getD 1 .undefined)
  | .promiseCatch => thenPromise receiver .undefined first
  | .promiseResolve => return .obj (← Promise.ofValue first)
  | .promiseReject =>
    let target ← Edit.newPromise
    Promise.reject target first
    return .obj target
  | .resolve target latch =>
    if ← Edit.takeLatch latch then Promise.resolve target first
    return .undefined
  | .reject target latch =>
    if ← Edit.takeLatch latch then Promise.reject target first
    return .undefined
  | .error kind => return .obj (← Edit.newError kind ((text? first).getD ""))
  | .symbol => return .sym (← Edit.newSymbol (text? first))

end Native

end Resumable
