import Resumable.Lowering.Stmt
import Resumable.Plan.Fragment

/-!
The plan of a body: lower it, lay it out before a final `return`, and check the result.
-/

set_option autoImplicit false

namespace Resumable

/-- Builds the plan of a function body. -/
def buildPlan (inAsync : Bool) (params : List Pattern) (body : List Stmt) :
    Except Refusal Plan := do
  if params.any (·.hasSuspend inAsync) then throw .parameterList
  let lowered ← lowerBody inAsync body
  let (f, temps) ← (buildStmts ⟨inAsync, []⟩ 1 0 lowered.body).run 0
  let plan : Plan :=
    { code := .ret none :: f.code
      entry := f.entry
      slots := lowered.slots ++ (List.range temps).map tempName }
  plan.validate
  return plan

end Resumable
