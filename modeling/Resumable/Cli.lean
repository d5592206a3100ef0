import Resumable.Demo
import Resumable.Session

/-!
The command line: lists the demos, or runs one of them and shows what it prints.
-/

set_option autoImplicit false

namespace Resumable

namespace Cli

structure Options where
  demo : Option String
  list : Bool
  dumpPlan : Bool

/-- Reads options before `--`, and the name of a demo anywhere. Of several names the last counts. -/
def Options.read : Options → List String → Options
  | o, [] => o
  | o, "--" :: names => { o with demo := names.getLast?.or o.demo }
  | o, "--list" :: args => Options.read { o with list := true } args
  | o, "--dump-plan" :: args => Options.read { o with dumpPlan := true } args
  | o, name :: args => Options.read { o with demo := some name } args

structure Report where
  output : String
  errors : String
  code : Nat

def column (name : String) : String :=
  name ++ String.ofList (List.replicate (10 - name.length) ' ')

def listing : List String := Demo.all.map fun d => column d.name ++ " " ++ d.about

def dumpPlan (name : String) (plan : Plan) : String :=
  Text.joinLines ["", "plan for " ++ name ++ ":"] ++ plan.text

def dump (w : World) : String :=
  let plans := w.plans.map fun (name, plan) => dumpPlan name plan
  let d := w.diagnostics
  let summary := "plans: " ++ Nat.repr d.attempted ++ " attempted, " ++ Nat.repr d.succeeded ++
    " built, " ++ Nat.repr d.failures.length ++ " rejected"
  let failures := d.failures.map fun (name, r) => "  " ++ name ++ ": " ++ r.reason
  String.join plans ++ Text.joinLines ("" :: summary :: failures)

def verdict (w : World) : Except Abrupt Value → List String × Nat
  | .error (.throw v) => (["Uncaught " ++ w.heap.format v], 1)
  | .error (.fatal e) => (["fatal: " ++ e.message], 1)
  | _ => ([], 0)

def report (withPlans : Bool) (result : Except Abrupt Value) (w : World) : Report :=
  let (errors, code) := verdict w result
  ⟨Text.joinLines w.console ++ (if withPlans then dump w else ""), Text.joinLines errors, code⟩

def runDemo (d : Demo) (withPlans : Bool) : Report :=
  match Session.runProgram d.program World.initial with
  | .done result w => report withPlans result w
  | .abrupt c w => report withPlans (.error c) w
  | .exhausted => ⟨"", Text.joinLines ["out of fuel"], 1⟩

def run (args : List String) : Report :=
  let o := Options.read ⟨none, false, false⟩ args
  match o.demo, o.list with
  | none, _ | some _, true => ⟨Text.joinLines listing, "", 0⟩
  | some name, false =>
    match Demo.find? name with
    | none => ⟨"", Text.joinLines ["unknown demo '" ++ name ++ "' (try --list)"], 2⟩
    | some d => runDemo d o.dumpPlan

end Cli

end Resumable
