import Resumable.Eval.Iteration
import Resumable.Eval.Operators

/-!
How control leaves: a signal travels outward through the frames until one of them takes it. Handlers
take exceptions, finally blocks take everything, and iterators are closed on the way.
-/

set_option autoImplicit false

namespace Resumable

inductive Pause where
  | stop (s : Stop)
  | delegate (inner : InstanceId) (a : Action)

inductive Turn where
  | goOn (g : Instance)
  | pause (g : Instance) (p : Pause)

def Turn.stop (g : Instance) (s : Stop) : Turn := .pause g (.stop s)

/-- What a frame does with a signal that reaches it. -/
inductive Reception where
  | handle (target : Nat) (v : Value)
  | finalize (target : Nat)
  | pass
  | close (iterator : Value)

def FrameKind.receive : FrameKind → Signal → Reception
  | .region (some target) _ .body, .throw v => .handle target v
  | .region _ (some target) .body, _ => .finalize target
  | .region _ (some target) .handler, _ => .finalize target
  | .region _ _ _, _ => .pass
  | .iterator record, _ => .close record.iterator

def FrameKind.enter : FrameKind → Phase → FrameKind
  | .region onThrow onExit _, phase => .region onThrow onExit phase
  | .iterator record, _ => .iterator record

def Signal.jump? : Signal → Option Jump
  | .jump j => some j
  | .ret _ | .throw _ => none

def Signal.landing? (signal : Signal) (depth : Nat) : Option Jump :=
  signal.jump?.filter (depth ≤ ·.frames)

namespace Instance

def enter (g : Instance) (f : Frame) (outer : List Frame) (phase : Phase) (target : Nat) :
    Instance :=
  { g.cut f.scopes f.loops with
    frames := { f with kind := f.kind.enter phase } :: outer
    ip := target }

def land (g : Instance) (j : Jump) (frames : List Frame) : Instance :=
  { g.cut j.scopes j.loops with frames, ip := j.target }

def leave (g : Instance) : Signal → Turn
  | .ret v => .stop { g with frames := [] } (.returned v)
  | .throw v => .stop { g with frames := [] } (.threw v)
  | .jump j => .goOn (g.land j [])

/-- Sends a signal out through the given frames. An exception from closing an iterator takes the
place of the signal. -/
def unwindThrough (host : Host) (g : Instance) (signal : Signal) : List Frame → Run Turn
  | [] => return g.leave signal
  | f :: outer => do
    match signal.landing? (outer.length + 1) with
    | some j => return .goOn (g.land j (f :: outer))
    | none =>
      match f.kind.receive signal with
      | .handle target v => return .goOn { g.enter f outer .handler target with caught := some v }
      | .finalize target => return .goOn (g.enter f outer (.finalizer (some signal)) target)
      | .pass => g.unwindThrough host signal outer
      | .close iterator =>
        let g := { g.cut f.scopes f.loops with frames := outer }
        match ← (closeIterator host iterator signal.isThrow).attempt with
        | .error (.throw v) => g.unwindThrough host (.throw v) outer
        | .error (.fatal e) => return .stop g (.failed e)
        | _ => g.unwindThrough host signal outer

def unwind (host : Host) (g : Instance) (signal : Signal) : Run Turn :=
  g.unwindThrough host signal g.frames

end Instance

def LoopScope.accepts (s : LoopScope) (label : Option String) (isContinue : Bool) : Bool :=
  match label with
  | some l => s.labels.contains l
  | none => if isContinue then s.kind = .loop else s.kind ≠ .block

/-- The jump to the innermost loop that is meant, or nothing if that loop cannot be continued. -/
def jumpAmong (label : Option String) (isContinue : Bool) : List LoopScope → Option Jump
  | [] => none
  | s :: outer =>
    if s.accepts label isContinue then
      if isContinue then
        s.onContinue.map fun target => ⟨target, outer.length + 1, s.scopes, s.frames⟩
      else some ⟨s.onBreak, outer.length, s.scopes, s.frames⟩
    else jumpAmong label isContinue outer

namespace Instance

def jump (host : Host) (g : Instance) (label : Option String) (isContinue : Bool) : Run Turn := do
  match jumpAmong label isContinue g.loops with
  | some j => g.unwind host (.jump j)
  | none =>
    let message := if isContinue then "Illegal continue statement" else "Illegal break statement"
    let e ← Edit.newError .syntaxError message
    g.unwind host (.throw (.obj e))

def complete (host : Host) (g : Instance) : Abrupt → Run Turn
  | .ret v => g.unwind host (.ret v)
  | .throw v => g.unwind host (.throw v)
  | .brk label => g.jump host label false
  | .cont label => g.jump host label true
  | .fatal e => return .stop g (.failed e)

def after {α : Type} (host : Host) (g : Instance) (x : Run α) (next : α → Run Turn) : Run Turn := do
  match ← x.attempt with
  | .ok a => next a
  | .error c => g.complete host c

def store (host : Host) (g : Instance) (slot : Option String) (next : Nat) (v : Value) :
    Run Turn :=
  match slot with
  | none => return .goOn (g.goto next)
  | some name => g.after host (writeName g.scope name v) fun () => return .goOn (g.goto next)

/-- Stores the value with which the instance is resumed: at the store instruction itself, or at the
one after a suspend instruction. Nowhere else can it go on. -/
def storeResume (host : Host) (g : Instance) (v : Value) : Run Turn :=
  match g.instr? with
  | some (.store slot next) => g.store host slot next v
  | some (.yield _ next) | some (.yieldStar _ next) | some (.await _ next) =>
    match g.plan.get? next with
    | some (.store slot past) => (g.goto next).store host slot past v
    | _ => Run.exhausted
  | _ => Run.exhausted

end Instance

end Resumable
