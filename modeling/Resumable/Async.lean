import Resumable.Machine.Resume

/-!
Asynchronous functions and generators. A function settles one promise at its end. A generator keeps a
queue of requests, serves them one at a time and in order, and settles the promise of each.
-/

set_option autoImplicit false

namespace Resumable

def newFailure (e : Fatal) : Edit Value := do
  return .obj (← Edit.newError .error e.message)

namespace AsyncGenerator

def settleHead (id : AsyncGeneratorId) (s : Settlement) : Edit Unit := do
  match (← Edit.asyncGenerator? id).map AsyncGenerator.queue with
  | some (r :: rest) =>
    Edit.modifyAsyncGenerator id fun a => { a with queue := rest }
    match s with
    | .fulfilled v => Promise.resolve r.promise v
    | .rejected v => Promise.reject r.promise v
  | some [] | none => return ()

/-- Resumes the instance for the request at the head; says whether that request is done. If not, the
instance awaits something, and the generator goes on when that has settled. -/
def serve (host : Host) (id : AsyncGeneratorId) (inst : InstanceId) (a : Action) : Run Bool := do
  match ← resume host inst a with
  | .awaiting v =>
    Promise.await v (.asyncGenerator id)
    return false
  | .yielded v =>
    settleHead id (.fulfilled (.obj (← Edit.newResult v false)))
    return true
  | .returned v =>
    settleHead id (.fulfilled (.obj (← Edit.newResult v true)))
    return true
  | .threw v =>
    settleHead id (.rejected v)
    return true
  | .failed e =>
    settleHead id (.rejected (← newFailure e))
    return true

def drain (host : Host) (id : AsyncGeneratorId) : Nat → Run Unit
  | 0 => Run.exhausted
  | n + 1 => do
    match ← Edit.asyncGenerator? id with
    | none => return ()
    | some a =>
      match a.queue with
      | [] => Edit.modifyAsyncGenerator id fun a => { a with running := false }
      | r :: _ =>
        Edit.modifyAsyncGenerator id fun a => { a with running := true }
        if ← serve host id a.inst r.action then drain host id n

def goOn (host : Host) (id : AsyncGeneratorId) (s : Settlement) : Run Unit := do
  match ← Edit.asyncGenerator? id with
  | none => return ()
  | some a => if ← serve host id a.inst (.settled s) then drain host id host.fuel

end AsyncGenerator

def Heap.asyncGenerator? (h : Heap) (v : Value) : Option AsyncGeneratorId :=
  match (h.object? v).map Object.role with
  | some (.asyncGenerator id) => some id
  | _ => none

/-- Adds a request and gives its promise; an idle generator starts to serve. A wrong receiver
rejects the promise. -/
def requestNext (host : Host) (receiver : Value) (m : Method) (v : Value) : Run Value := do
  let promise ← Edit.newPromise
  match (← Run.heap).asyncGenerator? receiver with
  | none =>
    let name := m.name
    let e ← Edit.newError .typeError
      s!"AsyncGenerator.prototype.{name} called on incompatible receiver"
    Promise.reject promise (.obj e)
  | some id =>
    Edit.modifyAsyncGenerator id fun a => { a with queue := a.queue ++ [⟨.ofMethod m v, promise⟩] }
    if !((← Edit.asyncGenerator? id).any AsyncGenerator.running) then
      AsyncGenerator.drain host id host.fuel
  return .obj promise

def stepAsyncFunction (host : Host) (inst : InstanceId) (promise : ObjectId) (a : Action) :
    Run Unit := do
  match ← resume host inst a with
  | .awaiting v => Promise.await v (.asyncFunction inst promise)
  | .returned v => Promise.resolve promise v
  | .threw v => Promise.reject promise v
  | .yielded _ =>
    let e ← Edit.newError .syntaxError "yield is only valid in generator bodies"
    Promise.reject promise (.obj e)
  | .failed e => Promise.reject promise (← newFailure e)

def startAsyncFunction (host : Host) (inst : InstanceId) : Run Value := do
  let promise ← Edit.newPromise
  stepAsyncFunction host inst promise (.next .undefined)
  return .obj promise

def Continuation.run (host : Host) (k : Continuation) (s : Settlement) : Run Unit :=
  match k with
  | .unpark cell => Edit.fillCell cell s
  | .asyncGenerator id => AsyncGenerator.goOn host id s
  | .asyncFunction inst promise => stepAsyncFunction host inst promise (.settled s)

end Resumable
