/-!
Why a body is refused: it suspends where no plan can, or a plan is malformed.
-/

set_option autoImplicit false

namespace Resumable

/-- A suspend point that lowering cannot take out of its place. -/
inductive Obstacle where
  | nestedYield
  | multipleYields
  | conditionalOperand
  | updateOperand
  | assignmentTarget
  | bindingPattern
  | loopPattern
  | catchParameter
  | caseTest
  deriving DecidableEq, Repr

def Obstacle.reason : Obstacle → String
  | nestedYield => "yield inside another yield's operand"
  | multipleYields => "multiple yield expressions in one expression"
  | conditionalOperand => "suspend point in conditionally evaluated operand"
  | updateOperand => "suspend point as an update operand"
  | assignmentTarget => "suspend point in assignment target"
  | bindingPattern => "suspend point in binding pattern"
  | loopPattern => "suspend point in loop binding pattern"
  | catchParameter => "suspend point in catch parameter"
  | caseTest => "suspend point in switch case test"

/-- The cause for which a body has no plan. -/
inductive Refusal where
  | obstacle (o : Obstacle)
  | parameterList
  | unloweredDeclaration
  | unloweredReturn
  | unloweredThrow
  | unloweredStatement
  | unloweredExpression
  | unloweredCondition
  | nonBinding
  | continueNonLoop (label : String)
  | undefinedLabel (label : String)
  | continueOutside
  | breakOutside
  | entryOutOfRange (entry length : Nat)
  | targetPastEnd (position target : Nat)
  | missingStore (position : Nat)
  deriving DecidableEq, Repr

namespace Refusal

def reason : Refusal → String
  | obstacle o => o.reason
  | parameterList => "suspend point in parameter list"
  | unloweredDeclaration => "suspend point left in a declaration after lowering"
  | unloweredReturn => "suspend point left in a return statement after lowering"
  | unloweredThrow => "suspend point left in a throw statement after lowering"
  | unloweredStatement => "suspend point left in a statement after lowering"
  | unloweredExpression => "suspend point in an unlowered expression"
  | unloweredCondition => "suspend point in an unlowered condition"
  | nonBinding => "suspend point assigned to a non-binding"
  | continueNonLoop label => s!"continue target {label} is not a loop"
  | undefinedLabel label => s!"undefined label '{label}'"
  | continueOutside => "continue outside of a loop"
  | breakOutside => "break outside of a loop or switch"
  | entryOutOfRange entry length => s!"entry {entry} out of range for {length} instructions"
  | targetPastEnd position target =>
    s!"instruction {position} targets {target}, past the end of the plan"
  | missingStore position => s!"suspend at {position} is not followed by a resume store"

def message (r : Refusal) : String := "unsupported generator shape: " ++ r.reason

end Refusal

end Resumable
