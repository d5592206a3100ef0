import Resumable.Machine.Unwind

/-!
Delegation: a generator passes the calls that it gets on to another iterator until that one ends.
-/

set_option autoImplicit false

namespace Resumable

def Heap.hasGeneratorMethod (h : Heap) (v : Value) (m : Method) : Bool :=
  match h.callable? (h.property v m.name) with
  | some (.native (.generator _)) => true
  | _ => false

def Heap.generator? (h : Heap) (v : Value) : Option InstanceId :=
  match (h.object? v).map Object.role with
  | some (.generator id) => some id
  | _ => none

/-- A generator with none of its methods replaced can be resumed without calling them. -/
def Heap.nativeGenerator? (h : Heap) (v : Value) : Option InstanceId :=
  if [Method.next, .throw, .ret].all (h.hasGeneratorMethod v) then h.generator? v else none

def Heap.isAsyncOnly (h : Heap) (v : Value) : Bool :=
  !h.isCallable (h.property v WellKnown.iterator.key) &&
    h.isCallable (h.property v WellKnown.asyncIterator.key)

def IteratorRecord.forward (host : Host) (r : IteratorRecord) (m : Method) (v : Value) :
    Run (Option Value) := do
  match m with
  | .next => return some (← r.callNext host [v])
  | .throw | .ret =>
    match ← method? r.iterator m.name with
    | some f => return some (← host.call f r.iterator [v])
    | none => return none

namespace Instance

def endDelegation (g : Instance) : Instance := { g with delegation := none }

def isReturning (g : Instance) : Bool := g.delegation.any (·.received = .ret)

/-- The other iterator has ended: a `return` that was passed on goes on here, else its value is that
of the delegation. -/
def delegateDone (host : Host) (g : Instance) (v : Value) : Run Turn :=
  if g.isReturning then g.endDelegation.unwind host (.ret v)
  else g.endDelegation.storeResume host v

def delegateResult (host : Host) (g : Instance) (result : Value) : Run Turn := do
  let h ← Run.heap
  if h.isPromiseLike result then
    return .stop { g with awaiting := some .delegate } (.awaiting result)
  match malformed? h result with
  | some e => return .stop g.endDelegation (.failed e)
  | none =>
    let v := h.property result "value"
    if (h.property result "done").truthy then g.delegateDone host v
    else return .stop g (.yielded v)

/-- The other iterator lacks the method. A `return` goes on here; an exception cannot be passed on,
so the iterator is closed and the delegation itself fails. -/
def delegateMissing (host : Host) (g : Instance) (iterator : Value) (m : Method) (v : Value) :
    Run Turn :=
  match m with
  | .next | .ret => g.unwind host (.ret v)
  | .throw =>
    g.after host (closeIterator host iterator false) fun () => do
      let e ← Edit.newError .typeError "The iterator does not provide a 'throw' method"
      g.unwind host (.throw (.obj e))

def passOn (host : Host) (g : Instance) (m : Method) (v : Value) : Run Turn := do
  match g.delegation with
  | none => g.storeResume host v
  | some d =>
    let g := { g with delegation := some { d with received := m } }
    match d.native with
    | some inner => return .pause g (.delegate inner (.ofMethod m v))
    | none =>
      match ← (d.record.forward host m v).attempt with
      | .ok (some result) => g.delegateResult host result
      | .ok none => g.endDelegation.delegateMissing host d.record.iterator m v
      | .error c => g.endDelegation.complete host c

def startDelegation (host : Host) (g : Instance) (iterable : Value) : Run Turn := do
  let asyncOnly := (← Run.heap).isAsyncOnly iterable
  let opened := if g.isAsync || asyncOnly then IteratorRecord.ofAsync host iterable
    else IteratorRecord.ofValue host iterable
  g.after host opened fun record => do
    let native := (← Run.heap).nativeGenerator? record.iterator
    let native := if g.isAsync then none else native
    let g := { g with delegation := some ⟨record, .next, native⟩ }
    g.passOn host .next .undefined

end Instance

end Resumable
