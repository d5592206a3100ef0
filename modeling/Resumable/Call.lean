import Resumable.Native

/-!
Calls of functions. Calls can nest without bound, so each takes one unit of fuel from those inside
it.
-/

set_option autoImplicit false

namespace Resumable

/-- The scope of a call, with parameters, hoisted names and declared functions. An arrow function has
no receiver of its own. -/
def Closure.enter (host : Host) (c : Closure) (receiver : Value) (args : List Value) :
    Run ScopeId := do
  let scope ← Edit.newScope c.scope
  if !c.isArrow then
    let _ ← Edit.define scope "this" .var receiver
  bindParams host scope c.params args
  hoistVars scope c.body
  instantiate scope (declaredFunctions c.body)
  return scope

def Closure.runBody (host : Host) (c : Closure) (scope : ScopeId) : Run Value := do
  match ← (execStmts host scope .undefined c.body).attempt with
  | .ok _ => return .undefined
  | .error (.ret v) => return v
  | .error (.brk _) | .error (.cont _) =>
    Run.throwNew .syntaxError "Illegal break or continue statement"
  | .error e => Run.abrupt e

def newActivation (plan : Plan) (scope : ScopeId) (isAsync : Bool) : Edit InstanceId := do
  plan.slots.forM fun slot => Edit.declare scope slot .var
  Edit.newInstance (.start plan scope isAsync)

def newGeneratorObject (f : Value) (fallback : ObjectId) (role : Role) : Edit ObjectId := do
  let proto := ((← Edit.heap).property f "prototype").object?.getD fallback
  Edit.alloc ⟨some proto, .empty, role⟩

/-- Calls a closure. A body with a plan does not run yet, or only up to its first `await`. -/
def Closure.call (host : Host) (f : Value) (c : Closure) (receiver : Value) (args : List Value) :
    Run Value := do
  let scope ← c.enter host receiver args
  match c.routine with
  | .plain => c.runBody host scope
  | .generator plan =>
    let inst ← newActivation plan scope false
    return .obj (← newGeneratorObject f (← Edit.realm).generator (.generator inst))
  | .async plan =>
    let inst ← newActivation plan scope true
    startAsyncFunction host inst
  | .asyncGenerator plan =>
    let inst ← newActivation plan scope true
    let id ← Edit.newAsyncGenerator inst
    return .obj (← newGeneratorObject f (← Edit.realm).asyncGenerator (.asyncGenerator id))

def callFunction (host : Host) (f receiver : Value) (args : List Value) : Run Value := do
  let h ← Run.heap
  match h.callable? f with
  | some (.native n) => n.call host receiver args
  | some (.closure c) => c.call host f receiver args
  | none =>
    let shown := h.format f
    Run.throwType s!"{shown} is not a function"

def callWithin : Nat → Value → Value → List Value → Run Value
  | 0, _, _, _ => Run.exhausted
  | fuel + 1, f, receiver, args => callFunction ⟨callWithin fuel, refuseSuspend, fuel⟩ f receiver args

def Host.withFuel (fuel : Nat) : Host := ⟨callWithin fuel, refuseSuspend, fuel⟩

end Resumable
