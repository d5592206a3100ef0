import Resumable.Call

/-!
Jobs: what promises have put off. They run one after the other, oldest first.
-/

set_option autoImplicit false

namespace Resumable

/-- Settles a derived promise from the outcome of a handler. A fatal error leaves it pending. -/
def settleDerived (host : Host) (outcome : Except Abrupt Value) (resolve reject : Value) :
    Run Unit := do
  match outcome with
  | .ok v =>
    let _ ← (host.call resolve .undefined [v]).attempt
  | .error (.throw v) =>
    let _ ← (host.call reject .undefined [v]).attempt
  | .error _ => return ()

/-- The outcome of a settlement for a derived promise: what the handler makes of it, or without one
the settlement itself. -/
def handle (host : Host) (onFulfilled onRejected : Option Value) (s : Settlement) :
    Run (Except Abrupt Value) :=
  match s, onFulfilled, onRejected with
  | .fulfilled v, some f, _ | .rejected v, _, some f => (host.call f .undefined [v]).attempt
  | .fulfilled v, none, _ => return .ok v
  | .rejected v, _, none => return .error (.throw v)

def Reaction.run (host : Host) (r : Reaction) (s : Settlement) : Run Unit := do
  match r with
  | .resume k => k.run host s
  | .handlers onFulfilled onRejected resolve reject =>
    settleDerived host (← handle host onFulfilled onRejected s) resolve reject

def Job.run (host : Host) (job : Job) : Run Unit := do
  match job with
  | .react r s => r.run host s
  | .adopt thenable method resolve reject =>
    match ← (host.call method thenable [resolve, reject]).attempt with
    | .error (.throw v) =>
      let _ ← (host.call reject .undefined [v]).attempt
    | _ => return ()

def Edit.dequeue : Edit (Option Job) := modifyGet fun w =>
  match w.jobs with
  | [] => (none, w)
  | job :: jobs => (some job, { w with jobs })

def runJobs (host : Host) : Nat → Run Unit
  | 0 => Run.exhausted
  | n + 1 => do
    match ← Edit.dequeue with
    | none => return ()
    | some job =>
      job.run host
      runJobs host n

end Resumable
