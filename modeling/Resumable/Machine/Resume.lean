import Resumable.Machine.Dispatch
import Resumable.Promise

/-!
Resuming instances. An instance runs in slices, from one resumption to the next pause; while it runs
it is marked as executing, and nobody else can resume it. A chain of generators that delegate to each
other is resumed from the outside in and unwound from the inside out.
-/

set_option autoImplicit false

namespace Resumable

namespace Instance

def settled (host : Host) (g : Instance) (awaiting : Option AwaitKind) : Settlement → Run Turn
  | .fulfilled v =>
    match awaiting with
    | some .delegate => g.delegateResult host v
    | some .result => g.iteratorResult host v
    | some .element => g.bindElement host v
    | some .value | none => g.storeResume host v
  | .rejected v =>
    match awaiting with
    | some .delegate => g.passOn host .throw v
    | some .result => g.popFrame.unwind host (.throw v)
    | some .element | some .value | none => g.unwind host (.throw v)

def delegateThrew (host : Host) (g : Instance) (v : Value) : Run Turn :=
  g.endDelegation.unwind host (.throw v)

/-- Goes on after a pause. While it delegates, an instance passes calls on. -/
def resumed (host : Host) (g : Instance) (a : Action) : Run Turn :=
  let awaiting := g.awaiting
  let g := { g with awaiting := none }
  match a with
  | .settled s => g.settled host awaiting s
  | .delegateDone v => g.delegateDone host v
  | .delegateThrew v => g.delegateThrew host v
  | .next v => g.passOn host .next v
  | .throw v =>
    if g.delegation.isSome then g.passOn host .throw v else g.unwind host (.throw v)
  | .ret v => if g.delegation.isSome then g.passOn host .ret v else g.unwind host (.ret v)

/-- Starts: an exception or a `return` ends the instance before it has begun. -/
def started (g : Instance) : Action → Turn
  | .throw v => .stop g (.threw v)
  | .ret v => .stop g (.returned v)
  | _ => .goOn g

def afterEnd : Action → Stop
  | .throw v | .delegateThrew v => .threw v
  | .ret v => .returned v
  | .next _ | .settled _ | .delegateDone _ => .returned .undefined

def settle (g : Instance) : Pause → Instance
  | .delegate _ _ => { g with status := .executing }
  | .stop (.yielded _) | .stop (.awaiting _) => { g with status := .suspendedYield }
  | .stop (.returned _) | .stop (.threw _) | .stop (.failed _) => g.finish

def runOn (host : Host) (steps : Nat) : Turn → Run (Instance × Pause)
  | .goOn g => execute host steps g
  | .pause g p => return (g, p)

def slice (host : Host) (steps : Nat) (g : Instance) (a : Action) : Run (Instance × Pause) := do
  let running := { g with status := .executing }
  match g.status with
  | .suspendedStart => runOn host steps (running.started a)
  | .suspendedYield | .executing | .completed => runOn host steps (← running.resumed host a)

end Instance

/-- The action with which an instance goes on, or the promise for which it still waits. A parked
instance takes the settlement of its promise in place of the value of `next`; any other call ends the
waiting. -/
def unpark (id : InstanceId) (g : Instance) (a : Action) :
    Edit (Except Value (Instance × Action)) := do
  match g.parked with
  | none => return .ok (g, a)
  | some p =>
    match ← Edit.takeCell p.cell, a with
    | none, .next _ => return .error p.promise
    | some s, .next _ => freed { g with parked := none } (.settled s)
    | _, a => freed { g with parked := none, awaiting := none } a
where
  freed (g : Instance) (a : Action) : Edit (Except Value (Instance × Action)) := do
    Edit.setInstance id g
    return .ok (g, a)

def Action.endsDelegate : Action → Bool
  | .delegateDone _ | .delegateThrew _ => true
  | .next _ | .throw _ | .ret _ | .settled _ => false

def runSlice (host : Host) (id : InstanceId) (g : Instance) (a : Action) : Run Pause := do
  Edit.setInstance id { g with status := .executing }
  let (g, p) ← g.slice host host.fuel a
  Edit.setInstance id (g.settle p)
  return p

/-- Resumes one instance. An instance that executes takes nothing but the end of its delegate. -/
def resumeOne (host : Host) (id : InstanceId) (a : Action) : Run Pause := do
  match ← Edit.instance? id with
  | none => return .stop (.failed .notAGenerator)
  | some g =>
    match ← unpark id g a with
    | .error promise => return .stop (.awaiting promise)
    | .ok (g, a) =>
      match g.status with
      | .completed => return .stop (Instance.afterEnd a)
      | .executing =>
        if a.endsDelegate then runSlice host id g a
        else return .stop (.failed .generatorRunning)
      | .suspendedStart | .suspendedYield => runSlice host id g a

def park (id : InstanceId) (promise : Value) : Edit Unit := do
  match ← Edit.instance? id with
  | none => return ()
  | some g =>
    if !g.isAsync && g.parked.isNone then
      let cell ← Edit.newCell
      Promise.await promise (.unpark cell)
      Edit.setInstance id { g with parked := some ⟨promise, cell⟩ }

def markOuter (outer : List InstanceId) (f : Instance → Instance) : Edit Unit :=
  outer.forM fun id => Edit.modifyInstance id f

def Instance.suspend (g : Instance) : Instance := { g with status := .suspendedYield }

def Instance.abandon (g : Instance) : Instance :=
  { g with status := .completed, delegation := none }

/-- Resumes an instance on behalf of those that delegate to it, innermost first. When it ends, the
next one out goes on. -/
def resumeChain (host : Host) : Nat → List InstanceId → InstanceId → Action → Run Stop
  | 0, _, _, _ => Run.exhausted
  | n + 1, outer, id, a => do
    match ← resumeOne host id a with
    | .delegate inner a => resumeChain host n (id :: outer) inner a
    | .stop (.returned v) =>
      match outer with
      | [] => return .returned v
      | next :: outer => resumeChain host n outer next (.delegateDone v)
    | .stop (.threw v) =>
      match outer with
      | [] => return .threw v
      | next :: outer => resumeChain host n outer next (.delegateThrew v)
    | .stop (.failed e) =>
      markOuter outer Instance.abandon
      return .failed e
    | .stop (.awaiting promise) =>
      park id promise
      markOuter outer Instance.suspend
      return .awaiting promise
    | .stop (.yielded v) =>
      markOuter outer Instance.suspend
      return .yielded v

def resume (host : Host) (id : InstanceId) (a : Action) : Run Stop :=
  resumeChain host host.fuel [] id a

end Resumable
