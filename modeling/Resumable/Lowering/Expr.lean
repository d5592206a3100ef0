import Resumable.Refusal
import Resumable.Script.Slots
import Resumable.Script.Suspends

/-!
Lowering of expressions. `Expr.hoist` takes the suspend points out of an expression: it gives the
expressions to evaluate before, in order, and the expression that is left. A suspend point becomes
an assignment to a fresh slot, and an operand that was to be evaluated before a later suspend point
is spilled into a slot as well, so that the order of evaluation stays what it was.
-/

set_option autoImplicit false

namespace Resumable

/-- Slots are numbered by 64-bit words: zero comes after the last. -/
abbrev SlotNumber := UInt64

abbrev Lower := StateT SlotNumber (Except Obstacle)

def Lower.refuse {α : Type} (o : Obstacle) : Lower α := throw o

def slotName (n : SlotNumber) : String := "%resume" ++ Nat.repr n.toNat

def freshSlot : Lower String := do
  let n ← get
  set (n + 1)
  return slotName n

/-- Expressions to evaluate first, and what is left to evaluate after them. -/
structure Hoisted where
  before : List Expr
  rest : Expr

def Hoisted.plain (e : Expr) : Hoisted := ⟨[], e⟩

def Hoisted.after (before : List Expr) (h : Hoisted) : Hoisted := ⟨before ++ h.before, h.rest⟩

def storeSlot (e : Expr) : Lower Hoisted := do
  let slot ← freshSlot
  return ⟨[.assign .set (.ident slot) e], .ident slot⟩

/-- Whether to read the expression again later is the same as to read it now. -/
def Expr.isInert : Expr → Bool
  | .null | .bool _ | .num _ | .str _ => true
  | .ident name => isSlotName name
  | _ => false

def Expr.spill : Expr → Lower Hoisted
  | .spread e => do
    let h ← e.spill
    return ⟨h.before, .spread h.rest⟩
  | e => if e.isInert then return .plain e else storeSlot e

def Hoisted.settle (later : Bool) (h : Hoisted) : Lower Hoisted := do
  if later then
    let s ← h.rest.spill
    return s.after h.before
  else return h

def Expr.isSimpleSuspend (inAsync : Bool) : Expr → Bool
  | .yield none | .yieldStar none => true
  | .yield (some e) | .yieldStar (some e) => !e.hasSuspend inAsync
  | .await e => inAsync && !e.hasSuspend inAsync
  | _ => false

/-- A suspend expression as a statement of its own, its value dropped or assigned to a name. -/
def Expr.isSimpleEffect (inAsync : Bool) : Expr → Bool
  | .assign .set (.ident _) value => value.isSimpleSuspend inAsync
  | e => e.isSimpleSuspend inAsync

def Hoisted.effects (h : Hoisted) : List Expr :=
  if h.rest.isInert then h.before else h.before ++ [h.rest]

/-- At most one `yield` may stand in one expression. -/
def Expr.checkYields (e : Expr) : Lower Unit :=
  if 1 < e.yields.length then
    if e.nestsYield then .refuse .nestedYield else .refuse .multipleYields
  else return ()

def listHasSuspend (inAsync : Bool) (es : List Expr) : Bool := !(listSuspends inAsync es).isEmpty

def itemsHasSuspend (inAsync : Bool) (es : List (Option Expr)) : Bool :=
  !(itemsSuspends inAsync es).isEmpty

def propertiesHasSuspend (inAsync : Bool) (ps : List Property) : Bool :=
  !(propertiesSuspends inAsync ps).isEmpty

def Expr.ofItems : List Expr → Expr
  | [e] => e
  | es => .seq es

def Expr.spillTarget : Expr → Lower Hoisted
  | .dot target name => do
    let t ← target.spill
    return ⟨t.before, .dot t.rest name⟩
  | .index target key => do
    let t ← target.spill
    let k ← key.spill
    return ⟨t.before ++ k.before, .index t.rest k.rest⟩
  | target => return .plain target

mutual

def Expr.hoist (inAsync : Bool) (e : Expr) : Lower Hoisted := do
  if !e.hasSuspend inAsync then return .plain e
  match e with
  | .null | .bool _ | .num _ | .str _ | .ident _ | .this => return .plain e
  | .function _ _ | .arrow _ | .lambda _ _ _ => return .plain e
  | .yield none => storeSlot e
  | .yieldStar none => storeSlot e
  | .yield (some operand) =>
    if !operand.yields.isEmpty then .refuse .nestedYield
    let h ← operand.hoist inAsync
    return (← storeSlot (.yield (some h.rest))).after h.before
  | .yieldStar (some operand) =>
    if !operand.yields.isEmpty then .refuse .nestedYield
    let h ← operand.hoist inAsync
    return (← storeSlot (.yieldStar (some h.rest))).after h.before
  | .await operand =>
    let h ← operand.hoist inAsync
    if inAsync then return (← storeSlot (.await h.rest)).after h.before
    return ⟨h.before, .await h.rest⟩
  | .unary op operand =>
    let h ← operand.hoist inAsync
    return ⟨h.before, .unary op h.rest⟩
  | .typeof operand =>
    let h ← operand.hoist inAsync
    return ⟨h.before, .typeof h.rest⟩
  | .void operand =>
    let h ← operand.hoist inAsync
    return ⟨h.before, .void h.rest⟩
  | .spread operand =>
    let h ← operand.hoist inAsync
    return ⟨h.before, .spread h.rest⟩
  | .binary op left right =>
    let l ← (← left.hoist inAsync).settle (right.hasSuspend inAsync)
    let r ← right.hoist inAsync
    return ⟨l.before ++ r.before, .binary op l.rest r.rest⟩
  | .logical op left right =>
    if right.hasSuspend inAsync then .refuse .conditionalOperand
    let l ← left.hoist inAsync
    return ⟨l.before, .logical op l.rest right⟩
  | .cond test yes no =>
    if yes.hasSuspend inAsync || no.hasSuspend inAsync then .refuse .conditionalOperand
    let t ← test.hoist inAsync
    return ⟨t.before, .cond t.rest yes no⟩
  | .update _ _ _ => .refuse .updateOperand
  | .assign op target value =>
    if target.hasSuspend inAsync then .refuse .assignmentTarget
    let t ← target.spillTarget
    match op.binary? with
    | none =>
      let v ← value.hoist inAsync
      return ⟨t.before ++ v.before, .assign .set t.rest v.rest⟩
    | some op =>
      let old ← t.rest.spill
      let v ← value.hoist inAsync
      return ⟨t.before ++ old.before ++ v.before,
        .assign .set t.rest (.binary op old.rest v.rest)⟩
  | .call (.dot target name) args =>
    let later := listHasSuspend inAsync args
    let o ← (← target.hoist inAsync).settle later
    let (before, args) ← hoistList inAsync args
    return ⟨o.before ++ before, .call (.dot o.rest name) args⟩
  | .call (.index target key) args =>
    let later := listHasSuspend inAsync args
    let o ← (← target.hoist inAsync).settle (later || key.hasSuspend inAsync)
    let k ← (← key.hoist inAsync).settle later
    let (before, args) ← hoistList inAsync args
    return ⟨o.before ++ k.before ++ before, .call (.index o.rest k.rest) args⟩
  | .call callee args =>
    let f ← (← callee.hoist inAsync).settle (listHasSuspend inAsync args)
    let (before, args) ← hoistList inAsync args
    return ⟨f.before ++ before, .call f.rest args⟩
  | .new callee args =>
    let f ← (← callee.hoist inAsync).settle (listHasSuspend inAsync args)
    let (before, args) ← hoistList inAsync args
    return ⟨f.before ++ before, .new f.rest args⟩
  | .dot target name =>
    let o ← target.hoist inAsync
    return ⟨o.before, .dot o.rest name⟩
  | .index target key =>
    let o ← (← target.hoist inAsync).settle (key.hasSuspend inAsync)
    let k ← key.hoist inAsync
    return ⟨o.before ++ k.before, .index o.rest k.rest⟩
  | .array items =>
    let (before, items) ← hoistItems inAsync items
    return ⟨before, .array items⟩
  | .object properties =>
    let (before, properties) ← hoistProperties inAsync properties
    return ⟨before, .object properties⟩
  | .seq items => hoistSeq inAsync items

/-- Operands evaluated from left to right: those before a suspending one are spilled. -/
def hoistList (inAsync : Bool) : List Expr → Lower (List Expr × List Expr)
  | [] => return ([], [])
  | e :: es => do
    let h ← (← e.hoist inAsync).settle (listHasSuspend inAsync es)
    let (before, rest) ← hoistList inAsync es
    return (h.before ++ before, h.rest :: rest)

def hoistItems (inAsync : Bool) : List (Option Expr) → Lower (List Expr × List (Option Expr))
  | [] => return ([], [])
  | none :: es => do
    let (before, rest) ← hoistItems inAsync es
    return (before, none :: rest)
  | some e :: es => do
    let h ← (← e.hoist inAsync).settle (itemsHasSuspend inAsync es)
    let (before, rest) ← hoistItems inAsync es
    return (h.before ++ before, some h.rest :: rest)

def hoistProperties (inAsync : Bool) : List Property → Lower (List Expr × List Property)
  | [] => return ([], [])
  | .mk (.computed key) value :: ps => do
    let later := propertiesHasSuspend inAsync ps
    let k ← (← key.hoist inAsync).settle (value.hasSuspend inAsync || later)
    let v ← (← value.hoist inAsync).settle later
    let (before, rest) ← hoistProperties inAsync ps
    return (k.before ++ v.before ++ before, .mk (.computed k.rest) v.rest :: rest)
  | .mk key value :: ps => do
    let v ← (← value.hoist inAsync).settle (propertiesHasSuspend inAsync ps)
    let (before, rest) ← hoistProperties inAsync ps
    return (v.before ++ before, .mk key v.rest :: rest)

def hoistEffects (inAsync : Bool) : List Expr → Lower (List Expr)
  | [] => return []
  | .seq inner :: es => do
    let first ← hoistEffects inAsync inner
    return first ++ (← hoistEffects inAsync es)
  | e :: es => do
    let first ← if e.isSimpleEffect inAsync then pure [e] else Hoisted.effects <$> e.hoist inAsync
    return first ++ (← hoistEffects inAsync es)

def hoistSeq (inAsync : Bool) : List Expr → Lower Hoisted
  | [] => return .plain (.seq [])
  | [e] => e.hoist inAsync
  | .seq inner :: es => do
    let first ← hoistEffects inAsync inner
    if listHasSuspend inAsync es then return (← hoistSeq inAsync es).after first
    return ⟨first, .ofItems es⟩
  | e :: es => do
    let first ← if e.isSimpleEffect inAsync then pure [e] else Hoisted.effects <$> e.hoist inAsync
    if listHasSuspend inAsync es then return (← hoistSeq inAsync es).after first
    return ⟨first, .ofItems es⟩

end

def Expr.hoistEffect (inAsync : Bool) (e : Expr) : Lower (List Expr) := hoistEffects inAsync [e]

end Resumable
