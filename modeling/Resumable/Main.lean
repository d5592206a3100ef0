import Resumable.Cli

/-!
The program.
-/

set_option autoImplicit false

def main (args : List String) : IO UInt32 := do
  let report := Resumable.Cli.run args
  IO.print report.output
  IO.eprint report.errors
  return report.code.toUInt32
