import Resumable.Jobs
import Resumable.Plan.Listing
import Resumable.Realm

/-!
What a host does with a world: run programs, resume generators, drain the job queue, and look at
names, objects and plans.
-/

set_option autoImplicit false

namespace Resumable

namespace Session

/-- Fuel for one request of the host: more than a run that ends has steps. -/
def fuel : Nat := Nat.pow 2 60

def host : Host := .withFuel fuel

def drainJobs : Run Unit := runJobs host fuel

/-- Runs a program in the outermost scope and then all jobs. A program whose functions cannot be made
runs no job. -/
def runProgram (program : List Stmt) : Run (Except Abrupt Value) := do
  hoistVars World.global program
  match ← (instantiate World.global (declaredFunctions program)).attempt with
  | .error c => return .error c
  | .ok () =>
    let result ← (execStmts host World.global .undefined program).attempt
    drainJobs
    return result

def resumeGenerator (generator : Value) (a : Action) : Run Stop := do
  match (← Run.heap).generator? generator with
  | some id => resume host id a
  | none => return .failed .notAGenerator

end Session

structure Diagnostics where
  attempted : Nat
  succeeded : Nat
  failures : List (String × Refusal)

def PlanRecord.plan? (b : PlanRecord) : Option (String × Plan) :=
  match b.result with
  | .ok (plan, _) => some (b.name, plan)
  | .error _ => none

def PlanRecord.failure? (b : PlanRecord) : Option (String × Refusal) :=
  match b.result with
  | .ok _ => none
  | .error r => some (b.name, r)

namespace World

def value? (w : World) (name : String) : Option Value := w.scopes.value? global name

def property (w : World) (v : Value) (path : List String) : Value := path.foldl w.heap.property v

def status? (w : World) (generator : Value) : Option Status :=
  (w.heap.generator? generator).bind fun id => (w.instances[id]?).map Instance.status

def diagnostics (w : World) : Diagnostics :=
  { attempted := w.builds.length
    succeeded := (w.builds.filterMap PlanRecord.plan?).length
    failures := w.builds.filterMap PlanRecord.failure? }

def plans (w : World) : List (String × Plan) :=
  let key (p : String × Plan) : List String := p.1 :: p.2.listing
  (w.builds.filterMap PlanRecord.plan?).mergeSort fun p q => !decide (key q < key p)

end World

end Resumable
