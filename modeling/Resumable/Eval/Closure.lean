import Resumable.Plan.Builder
import Resumable.Run
import Resumable.Script.Names

/-!
Function objects made from definitions. A body that suspends gets its plan when the function is
made; all functions made from one definition share it.
-/

set_option autoImplicit false

namespace Resumable

variable {σ : Type} [HasWorld σ]

def World.planAt? (w : World) (site : Nat) : Option Plan :=
  w.builds.findSome? fun b =>
    if b.site = some site then
      match b.result with
      | .ok (plan, _) => some plan
      | .error _ => none
    else none

/-- The plan of a definition, built unless it has been built before. -/
def planFor (site : Option Nat) (name : String) (kind : FunctionKind) (params : List Pattern)
    (body : List Stmt) : Edit (Except Refusal Plan) := do
  match site.bind (← get).planAt? with
  | some plan => return .ok plan
  | none =>
    let built := buildPlan kind.isAsync params body
    let result := built.map fun plan => (plan, Census.ofBody kind.isAsync body)
    modify fun w => { w with builds := w.builds ++ [⟨site, name, kind, result⟩] }
    return built

def routineFor (site : Option Nat) (name : String) (kind : FunctionKind) (params : List Pattern)
    (body : List Stmt) : RunOn σ Routine := do
  match kind with
  | .plain => return .plain
  | .generator => return .generator (← plan)
  | .async => return .async (← plan)
  | .asyncGenerator => return .asyncGenerator (← plan)
where
  plan : RunOn σ Plan := do
    match ← planFor site name kind params body with
    | .ok plan => return plan
    | .error r => Run.throwNew .syntaxError r.message

def Pattern.isRest : Pattern → Bool
  | .rest _ => true
  | _ => false

def arity (params : List Pattern) : Nat := params.countP (!·.isRest)

def instanceProto (kind : FunctionKind) (isArrow : Bool) : Edit (Option ObjectId) := do
  let realm ← Edit.realm
  if isArrow then return none
  match kind with
  | .async => return none
  | .plain => return some (← Edit.newObject (some realm.object))
  | .generator => return some (← Edit.newObject (some realm.generator))
  | .asyncGenerator => return some (← Edit.newObject (some realm.asyncGenerator))

def newFunction (name : String) (kind : FunctionKind) (c : Closure) : Edit ObjectId := do
  let realm ← Edit.realm
  let proto ← instanceProto kind c.isArrow
  let fields := Edit.functionFields name (arity c.params)
  let fields := match proto with
    | some id => fields.insert "prototype" ⟨.obj id, true, false⟩
    | none => fields
  let id ← Edit.alloc ⟨some realm.object, fields, .function (.closure c)⟩
  match proto, kind with
  | some proto, .plain => Edit.update proto (·.insertHidden "constructor" (.obj id))
  | _, _ => pure ()
  return id

/-- Makes a function; a body without a plan is a syntax error. -/
def makeClosure (site : Option Nat) (name : Option String) (kind : FunctionKind)
    (params : List Pattern) (body : List Stmt) (scope : ScopeId) (isArrow : Bool) :
    RunOn σ Value := do
  let routine ← routineFor site (name.getD "anonymous") kind params body
  return .obj (← newFunction (name.getD "") kind ⟨params, body, scope, isArrow, routine⟩)

def instantiate (scope : ScopeId) : List FunctionDecl → RunOn σ Unit
  | [] => return ()
  | d :: ds => do
    let f := d.func
    let v ← makeClosure (some f.site) (some d.name) f.kind f.params f.body scope false
    let _ ← Edit.define scope d.name .var v
    instantiate scope ds

def hoistVars (scope : ScopeId) (body : List Stmt) : Edit Unit :=
  (hoistedNames body).forM fun name => Edit.declare scope name .var

/-- A function expression with a name sees itself under that name. -/
def makeFunction (name hint : Option String) (f : Func) (scope : ScopeId) : RunOn σ Value := do
  match name with
  | none => makeClosure (some f.site) hint f.kind f.params f.body scope false
  | some own =>
    let inner ← Edit.newScope scope
    let v ← makeClosure (some f.site) (some own) f.kind f.params f.body inner false
    let _ ← Edit.define inner own .const v
    return v

end Resumable
