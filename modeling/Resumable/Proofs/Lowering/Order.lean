import Resumable.Proofs.Lowering.Normal

/-!
Expressions whose order of evaluation hoisting keeps. What is left of a sequence once its suspend
points are out is its last part, which then stands in the place of the sequence: `Expr.tail` says which
part that is, and `Expr.isOrderly` in which places it may stand. Main statement: `Hoists.rest_look`.
-/

set_option autoImplicit false

namespace Resumable

mutual

/-- The part of an expression that stands in its place when the suspend points are out. -/
def Expr.tail (inAsync : Bool) : Expr → Expr
  | .seq items => if listHasSuspend inAsync items then listTail inAsync items else .seq items
  | e => e

def listTail (inAsync : Bool) : List Expr → Expr
  | [] => .seq []
  | [e] => e.tail inAsync
  | _ :: d :: es =>
    if listHasSuspend inAsync (d :: es) then listTail inAsync (d :: es) else .ofItems (d :: es)

end

/-- What the place of an expression can tell about it. -/
inductive Look where
  | anonymous
  | member
  | spread
  | name (x : String)
  | other
  deriving DecidableEq

def Expr.look : Expr → Look
  | .function none _ | .arrow _ | .lambda _ _ _ => .anonymous
  | .dot _ _ | .index _ _ => .member
  | .spread _ => .spread
  | .ident x => .name x
  | _ => .other

def Look.isName : Look → Bool
  | .name _ => true
  | _ => false

/-- Whether the value of an operand can wait in a slot: a function would take its name from the slot,
and a spread would not be iterated before. -/
def Expr.mayWait (inAsync : Bool) (e : Expr) : Bool :=
  (e.tail inAsync).look != .anonymous && (e.tail inAsync).look != .spread

/-- Whether a place with a name suits: to an anonymous function it gives the name. -/
def Expr.mayTakeName (inAsync : Bool) (e : Expr) : Bool :=
  !e.hasSuspend inAsync || (e.tail inAsync).look != .anonymous

mutual

/-- Whether hoisting keeps what the expression means. -/
def Expr.isOrderly (inAsync : Bool) : Expr → Bool
  | .null | .bool _ | .num _ | .str _ | .ident _ | .this => true
  | .function _ _ | .arrow _ | .lambda _ _ _ => true
  | .yield none | .yieldStar none | .update _ _ _ => true
  | .yield (some e) | .yieldStar (some e) | .await e => e.isOrderly inAsync
  | .unary _ e | .void e | .dot e _ | .logical _ e _ | .cond e _ _ => e.isOrderly inAsync
  | .typeof e =>
    e.isOrderly inAsync && (!e.hasSuspend inAsync || !(e.tail inAsync).look.isName)
  | .spread e => !e.hasSuspend inAsync
  | .binary _ l r | .index l r =>
    l.isOrderly inAsync && r.isOrderly inAsync && (!r.hasSuspend inAsync || l.mayWait inAsync)
  | .assign .set (.ident _) value => value.isOrderly inAsync && value.mayTakeName inAsync
  | .assign _ (.ident _) value => value.isOrderly inAsync
  | .assign _ (.dot target _) value =>
    value.isOrderly inAsync && (!value.hasSuspend inAsync || target.mayWait inAsync)
  | .assign _ (.index target key) value =>
    value.isOrderly inAsync &&
      (!value.hasSuspend inAsync || target.mayWait inAsync && key.mayWait inAsync)
  | .assign _ _ value => !value.hasSuspend inAsync
  | .call (.dot target _) args =>
    target.isOrderly inAsync && areOrderlyArgs inAsync args &&
      (!listHasSuspend inAsync args || target.mayWait inAsync)
  | .call (.index target key) args =>
    target.isOrderly inAsync && key.isOrderly inAsync && areOrderlyArgs inAsync args &&
      (!(key.hasSuspend inAsync || listHasSuspend inAsync args) || target.mayWait inAsync) &&
      (!listHasSuspend inAsync args || key.mayWait inAsync)
  | .call f args =>
    f.isOrderly inAsync && areOrderlyArgs inAsync args &&
      if listHasSuspend inAsync args then f.mayWait inAsync else (f.tail inAsync).look != .member
  | .new f args =>
    f.isOrderly inAsync && areOrderlyArgs inAsync args &&
      (!listHasSuspend inAsync args || f.mayWait inAsync)
  | .array items => areOrderlyItems inAsync items
  | .object properties => areOrderlyProperties inAsync properties
  | .seq items => areOrderly inAsync items

def areOrderly (inAsync : Bool) : List Expr → Bool
  | [] => true
  | e :: es => e.isOrderly inAsync && areOrderly inAsync es

/-- Arguments: before one that suspends no spread may stand. -/
def areOrderlyArgs (inAsync : Bool) : List Expr → Bool
  | [] => true
  | .spread e :: es =>
    e.isOrderly inAsync && !listHasSuspend inAsync es && areOrderlyArgs inAsync es
  | e :: es =>
    e.isOrderly inAsync && (e.tail inAsync).look != .spread &&
      (!listHasSuspend inAsync es || e.mayWait inAsync) && areOrderlyArgs inAsync es

def areOrderlyItems (inAsync : Bool) : List (Option Expr) → Bool
  | [] => true
  | none :: es => areOrderlyItems inAsync es
  | some (.spread e) :: es =>
    e.isOrderly inAsync && !itemsHasSuspend inAsync es && areOrderlyItems inAsync es
  | some e :: es =>
    e.isOrderly inAsync && (e.tail inAsync).look != .spread &&
      (!itemsHasSuspend inAsync es || e.mayWait inAsync) && areOrderlyItems inAsync es

def areOrderlyProperties (inAsync : Bool) : List Property → Bool
  | [] => true
  | .mk (.computed k) v :: ps =>
    k.isOrderly inAsync &&
      (!(v.hasSuspend inAsync || propertiesHasSuspend inAsync ps) || k.mayWait inAsync) &&
      v.isOrderly inAsync && v.mayTakeName inAsync &&
      (!propertiesHasSuspend inAsync ps || v.mayWait inAsync) && areOrderlyProperties inAsync ps
  | .mk _ v :: ps =>
    v.isOrderly inAsync && v.mayTakeName inAsync &&
      (!propertiesHasSuspend inAsync ps || v.mayWait inAsync) && areOrderlyProperties inAsync ps

end

@[simp] theorem listSlots_append (es ds : List Expr) :
    listSlots (es ++ ds) = listSlots es ++ listSlots ds := by
  induction es with
  | nil => rfl
  | cons e es ih => simp [listSlots, ih]

theorem isSlotName_slotName (n : SlotNumber) : isSlotName (slotName n) = true := by
  simp [isSlotName, slotName]

@[simp] theorem listSlots_store (n : SlotNumber) (e : Expr) :
    listSlots [.assign .set (.ident (slotName n)) e] = [slotName n] := by
  simp [listSlots, Expr.slots, isSlotName_slotName]

theorem tail_of_plain {inAsync : Bool} {e : Expr} (h : e.hasSuspend inAsync = false) :
    e.tail inAsync = e := by
  cases e with
  | seq items =>
    have hitems : listHasSuspend inAsync items = false := h
    simp [Expr.tail, hitems]
  | _ => rfl

theorem tail_of_not_seq {inAsync : Bool} {e : Expr} (h : e.isSeq = false) :
    e.tail inAsync = e := by
  cases e with
  | seq items => cases h
  | _ => rfl

theorem isSeq_of_composite {inAsync : Bool} {e : Expr} (h : e.isComposite inAsync) :
    e.isSeq = false := by
  cases e <;> simp [Expr.isComposite] at h <;> rfl

theorem look_withOperands (e : Expr) (es : List Expr) : (e.withOperands es).look = e.look := by
  unfold Expr.withOperands
  split <;> rfl

/-- What is left is a slot, or looks like what the expression ends with. -/
def Hoisting.KeepsLook (inAsync : Bool) : Hoisting → Prop
  | .expr e h => (∃ x ∈ listSlots h.before, h.rest = .ident x) ∨
      h.rest.look = (e.tail inAsync).look
  | .items es h => (∃ x ∈ listSlots h.before, h.rest = .ident x) ∨
      h.rest.look = (listTail inAsync es).look
  | .operands _ _ _ | .effects _ _ => True

theorem Hoists.keepsLook {inAsync : Bool} {n m : SlotNumber} {w : Hoisting}
    (h : Hoists inAsync n w m) : w.KeepsLook inAsync := by
  induction h with
  | plain he => exact .inr (by rw [tail_of_plain he])
  | @bare n e _ => exact .inl ⟨slotName n, by simp, rfl⟩
  | @suspend n m _ _ _ _ _ _ => exact .inl ⟨slotName m, by simp, rfl⟩
  | @composite _ _ e _ rest _ hc _ _ =>
    refine .inr ?_
    rw [look_withOperands, tail_of_not_seq (isSeq_of_composite hc)]
  | assign | compound => exact .inr rfl
  | sequence hs _ ih => simpa only [Hoisting.KeepsLook, Expr.tail, hs, if_true] using ih
  | lastItem _ ih => exact ih
  | @item _ _ _ e es first h _ hs _ _ ih =>
    cases es with
    | nil => simp at hs
    | cons d es =>
      simp only [Hoisting.KeepsLook, Hoisted.after, listTail, hs, if_true, listSlots_append,
        List.mem_append] at ih ⊢
      obtain ⟨x, hx, hrest⟩ | hlook := ih
      · exact .inl ⟨x, .inr hx, hrest⟩
      · exact .inr hlook
  | @lastEffect _ _ e es first _ hne hs _ =>
    cases es with
    | nil => exact absurd rfl hne
    | cons d es => exact .inr (by simp [listTail, hs])
  | noOperand | operand | noEffect | innerEffects | simpleEffect | effect => trivial

/-- What is left after hoisting is a fresh slot, or looks like what the expression ends with. -/
theorem Hoists.rest_look {inAsync : Bool} {n m : SlotNumber} {e : Expr} {h : Hoisted}
    (hh : Hoists inAsync n (.expr e h) m) :
    (∃ x ∈ listSlots h.before, h.rest = .ident x) ∨ h.rest.look = (e.tail inAsync).look :=
  hh.keepsLook

end Resumable
