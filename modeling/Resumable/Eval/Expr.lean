import Resumable.Eval.Closure
import Resumable.Eval.Iteration
import Resumable.Eval.Operators

/-!
Evaluation of expressions, from left to right. The hint is the name that an anonymous function gets
from the place where it stands.
-/

set_option autoImplicit false

namespace Resumable

variable {σ : Type} [HasWorld σ]

def Expr.callName : Expr → String
  | .ident name => name
  | .dot e name => e.callName ++ "." ++ name
  | .this => "this"
  | _ => "expression"

def callChecked (host : HostOn σ) (callee : Expr) (f receiver : Value) (args : List Value) :
    RunOn σ Value := do
  if (← Run.heap).isCallable f then host.call f receiver args
  else
    let name := callee.callName
    Run.throwType s!"{name} is not a function"

/-- Makes an object: a native function does it itself, a plain function fills in a new one. -/
def construct (host : HostOn σ) (callee : Expr) (f : Value) (args : List Value) :
    RunOn σ Value := do
  let h ← Run.heap
  match h.callable? f with
  | some (.native _) => host.call f .undefined args
  | some (.closure ⟨_, _, _, false, .plain⟩) =>
    let proto ← match h.property f "prototype" with
      | .obj id => pure id
      | _ => pure (← Edit.realm).object
    let receiver := Value.obj (← Edit.newObject (some proto))
    let result ← host.call f receiver args
    return if result.isObject then result else receiver
  | _ =>
    let name := callee.callName
    Run.throwType s!"{name} is not a constructor"

mutual

def Expr.eval (host : HostOn σ) (scope : ScopeId) (hint : Option String) : Expr → RunOn σ Value
  | .null => return .null
  | .bool b => return .bool b
  | .num x => return .num x
  | .str s => return .ofString s
  | .ident name => readName scope name
  | .this => return (← Run.read (·.scopes.value? scope "this")).getD .undefined
  | .array items => do
    let values ← evalItems host scope items
    return .obj (← Edit.newArray values.toArray)
  | .object properties => do
    let fields ← evalProperties host scope .empty properties
    return .obj (← Edit.alloc ⟨some (← Edit.realm).object, fields, .ordinary⟩)
  | .function name f => makeFunction name hint f scope
  | .arrow f => makeClosure (some f.site) hint f.kind f.params f.body scope true
  | .lambda isAsync params result =>
    makeClosure none hint (.ofFlags isAsync false) params [.ret (some result)] scope true
  | .unary op e => do return op.apply (← e.eval host scope none)
  | .binary op l r => do
    let x ← l.eval host scope none
    let y ← r.eval host scope none
    op.apply x y
  | .logical op l r => do
    let x ← l.eval host scope none
    if op.decides x then return x else r.eval host scope none
  | .update op opFirst (.ident name) => countName op opFirst scope name
  | .update op opFirst (.dot e name) => do
    let v ← e.eval host scope none
    countMember op opFirst v name
  | .update op opFirst (.index e k) => do
    let v ← e.eval host scope none
    let key ← k.eval host scope none
    countMember op opFirst v key.toKey
  | .update _ _ _ =>
    Run.throwNew .syntaxError "Invalid left-hand side in update expression"
  | .assign .set (.ident name) e => assignName .set scope name (e.eval host scope (some name))
  | .assign op (.ident name) e => assignName op scope name (e.eval host scope none)
  | .assign op (.dot t name) e => do
    let v ← t.eval host scope none
    assignMember op v name (e.eval host scope none)
  | .assign op (.index t k) e => do
    let v ← t.eval host scope none
    let key ← k.eval host scope none
    assignMember op v key.toKey (e.eval host scope none)
  | .assign _ _ _ => Run.throwNew .syntaxError "Invalid left-hand side in assignment"
  | .cond t y n => do
    if (← t.eval host scope none).truthy then y.eval host scope none else n.eval host scope none
  | .call (.dot e name) args => do
    let v ← e.eval host scope none
    let f ← readMember v name
    let args ← evalArgs host scope args
    callChecked host (.dot e name) f v args
  | .call (.index e k) args => do
    let v ← e.eval host scope none
    let key ← k.eval host scope none
    let f ← readMember v key.toKey
    let args ← evalArgs host scope args
    callChecked host (.index e k) f v args
  | .call callee args => do
    let f ← callee.eval host scope none
    let args ← evalArgs host scope args
    callChecked host callee f .undefined args
  | .new callee args => do
    let f ← callee.eval host scope none
    let args ← evalArgs host scope args
    construct host callee f args
  | .dot e name => do
    let v ← e.eval host scope none
    readMember v name
  | .index e k => do
    let v ← e.eval host scope none
    let key ← k.eval host scope none
    readMember v key.toKey
  | .seq items => evalSeq host scope .undefined items
  | .spread _ => Run.throwNew .syntaxError "Unexpected spread element"
  | .yield none => host.suspend .yield (pure .undefined)
  | .yield (some e) => host.suspend .yield (e.eval host scope none)
  | .yieldStar none => host.suspend .delegate (pure .undefined)
  | .yieldStar (some e) => host.suspend .delegate (e.eval host scope none)
  | .await e => host.suspend .await (e.eval host scope none)
  | .typeof (.ident name) => do
    if ← Run.read (·.scopes.has scope name) then
      let v ← readName scope name
      return .ofString ((← Run.heap).typeof v)
    else return .ofString "undefined"
  | .typeof e => do
    let v ← e.eval host scope none
    return .ofString ((← Run.heap).typeof v)
  | .void e => do
    let _ ← e.eval host scope none
    return .undefined

def evalSeq (host : HostOn σ) (scope : ScopeId) (last : Value) : List Expr → RunOn σ Value
  | [] => return last
  | e :: es => do
    let v ← e.eval host scope none
    evalSeq host scope v es

def evalArgs (host : HostOn σ) (scope : ScopeId) : List Expr → RunOn σ (List Value)
  | [] => return []
  | .spread e :: es => do
    let v ← e.eval host scope none
    let items ← iterate host v
    return items.toList ++ (← evalArgs host scope es)
  | e :: es => do
    let v ← e.eval host scope none
    return v :: (← evalArgs host scope es)

def evalItems (host : HostOn σ) (scope : ScopeId) : List (Option Expr) → RunOn σ (List Value)
  | [] => return []
  | none :: es => return .undefined :: (← evalItems host scope es)
  | some (.spread e) :: es => do
    let v ← e.eval host scope none
    let items ← iterate host v
    return items.toList ++ (← evalItems host scope es)
  | some e :: es => do
    let v ← e.eval host scope none
    return v :: (← evalItems host scope es)

def Key.eval (host : HostOn σ) (scope : ScopeId) : Key → RunOn σ String
  | .ident s | .str s => return s
  | .num x => return Number.text x
  | .computed e => do return (← e.eval host scope none).toKey

def evalProperties (host : HostOn σ) (scope : ScopeId) (fields : Dict Field) :
    List Property → RunOn σ (Dict Field)
  | [] => return fields
  | .mk k e :: ps => do
    let key ← k.eval host scope
    let v ← e.eval host scope (some key)
    evalProperties host scope (fields.insert key ⟨v, true, true⟩) ps

end

end Resumable
