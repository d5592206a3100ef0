import Resumable.Run

/-!
Operators, names and members: the parts of evaluation that call no function.
-/

set_option autoImplicit false

namespace Resumable

variable {σ : Type} [HasWorld σ]

def UnaryOp.apply (op : UnaryOp) (v : Value) : Value :=
  match op with
  | .minus => .num (-v.toNumber)
  | .plus => .num v.toNumber
  | .not => .bool !v.truthy
  | .bitNot => .num (Number.bitNot v.toNumber)

/-- Texts and objects are joined as texts, all else is added. -/
def addValues (h : Heap) (l r : Value) : Value :=
  if l.isString || r.isString || l.isObject || r.isObject then
    .ofString (h.operandText l ++ h.operandText r)
  else .num (l.toNumber + r.toNumber)

def BinaryOp.apply (op : BinaryOp) (l r : Value) : RunOn σ Value := do
  let h ← Run.heap
  let x := l.toNumber
  let y := r.toNumber
  match op with
  | .add => return addValues h l r
  | .sub => return .num (x - y)
  | .mul => return .num (x * y)
  | .div => return .num (x / y)
  | .mod => return .num (Number.remainder x y)
  | .exp => return .num (Float.pow x y)
  | .eq => return .bool (l.looseEq r)
  | .notEq => return .bool !l.looseEq r
  | .strictEq => return .bool (l.strictEq r)
  | .strictNotEq => return .bool !l.strictEq r
  | .lt => return .bool (l.less? r == some true)
  | .gt => return .bool (r.less? l == some true)
  | .ltEq => return .bool (r.less? l == some false)
  | .gtEq => return .bool (l.less? r == some false)
  | .shiftLeft => return .num (Number.shiftLeft x y)
  | .shiftRight => return .num (Number.shiftRight x y)
  | .shiftRightZero => return .num (Number.shiftRightZero x y)
  | .bitAnd => return .num (Number.bitAnd x y)
  | .bitOr => return .num (Number.bitOr x y)
  | .bitXor => return .num (Number.bitXor x y)
  | .in =>
    match r with
    | .obj id => return .bool (h.hasProperty id l.toKey)
    | _ =>
      let key := l.toKey
      let shown := h.format r
      Run.throwType s!"Cannot use 'in' operator to search for '{key}' in {shown}"
  | .instanceOf =>
    if h.isCallable r then return .bool (h.isInstance l r)
    else Run.throwType "Right-hand side of 'instanceof' is not callable"

def LogicalOp.decides (op : LogicalOp) (l : Value) : Bool :=
  match op with
  | .and => !l.truthy
  | .or => l.truthy
  | .coalesce => !l.isNullish

def UpdateOp.apply (op : UpdateOp) (x : Float) : Float :=
  match op with
  | .increment => x + 1.0
  | .decrement => x + -1.0

def readName (scope : ScopeId) (name : String) : RunOn σ Value := do
  match ← Run.read (·.scopes.lookup scope name) with
  | .found v => return v
  | .uninitialized =>
    Run.throwNew .referenceError s!"Cannot access '{name}' before initialization"
  | .unbound => Run.throwNew .referenceError s!"{name} is not defined"

def writeName (scope : ScopeId) (name : String) (v : Value) : RunOn σ Unit := do
  if !(← Edit.assign scope name v) then Run.throwType "Assignment to constant variable."

/-- Binds a name: `let` and `const` declare it in the scope, all else assigns. -/
def bindName (scope : ScopeId) (kind : Option VarKind) (name : String) (v : Value) :
    RunOn σ Unit := do
  match kind with
  | some .let => Edit.declare scope name .let
  | some .const => Edit.declare scope name .const
  | some .var | none => pure ()
  writeName scope name v

def textMember (t : Text) (key : String) : Value :=
  if key == "length" then .ofNat t.length
  else
    match (Number.position? key).bind t.get? with
    | some unit => .str ⟨[unit]⟩
    | none => .undefined

def readMember (v : Value) (key : String) : RunOn σ Value := do
  match v with
  | .undefined | .null =>
    let shown := v.display
    Run.throwType s!"Cannot read properties of {shown} (reading '{key}')"
  | .str t => return textMember t key
  | v => return (← Run.heap).property v key

def writeMember (v : Value) (key : String) (new : Value) : RunOn σ Unit := do
  match v with
  | .undefined | .null =>
    let shown := v.display
    Run.throwType s!"Cannot set properties of {shown} (setting '{key}')"
  | .obj id => Edit.update id (·.set key new)
  | _ => return ()

def combine (op : AssignOp) (old right : RunOn σ Value) : RunOn σ Value := do
  match op.binary? with
  | none => right
  | some op =>
    let l ← old
    let r ← right
    op.apply l r

def assignMember (op : AssignOp) (v : Value) (key : String) (right : RunOn σ Value) :
    RunOn σ Value := do
  let new ← combine op (readMember v key) right
  writeMember v key new
  return new

def assignName (op : AssignOp) (scope : ScopeId) (name : String) (right : RunOn σ Value) :
    RunOn σ Value := do
  let new ← combine op (readName scope name) right
  writeName scope name new
  return new

def countMember (op : UpdateOp) (opFirst : Bool) (v : Value) (key : String) : RunOn σ Value := do
  let old := (← readMember v key).toNumber
  writeMember v key (.num (op.apply old))
  return .num (if opFirst then op.apply old else old)

def countName (op : UpdateOp) (opFirst : Bool) (scope : ScopeId) (name : String) :
    RunOn σ Value := do
  let old := (← readName scope name).toNumber
  writeName scope name (.num (op.apply old))
  return .num (if opFirst then op.apply old else old)

end Resumable
