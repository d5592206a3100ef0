import Resumable.Proofs.Lowering.Hoisting

/-!
The size of expressions, and of the operands of one of them.
-/

set_option autoImplicit false

namespace Resumable

/-- The size of expressions together. -/
noncomputable def totalSize : List Expr → Nat
  | [] => 0
  | e :: es => sizeOf e + totalSize es

@[simp] theorem totalSize_nil : totalSize [] = 0 := rfl

@[simp] theorem totalSize_cons (e : Expr) (es : List Expr) :
    totalSize (e :: es) = sizeOf e + totalSize es := rfl

@[simp] theorem totalSize_append (es ds : List Expr) :
    totalSize (es ++ ds) = totalSize es + totalSize ds := by
  induction es with
  | nil => exact (Nat.zero_add _).symm
  | cons e es ih => simp only [List.cons_append, totalSize_cons, ih, Nat.add_assoc]

theorem totalSize_lt (es : List Expr) : totalSize es < sizeOf es := by
  induction es with
  | nil => simp
  | cons e es ih =>
    simp only [totalSize_cons, List.cons.sizeOf_spec]
    omega

theorem le_totalSize {d : Expr} {es : List Expr} (h : d ∈ es) : sizeOf d ≤ totalSize es := by
  induction es with
  | nil => cases h
  | cons e es ih =>
    rw [totalSize_cons]
    rcases List.mem_cons.1 h with rfl | h
    · exact Nat.le_add_right ..
    · exact Nat.le_trans (ih h) (Nat.le_add_left ..)

theorem totalSize_items (items : List (Option Expr)) :
    totalSize (items.filterMap id) < sizeOf items := by
  induction items with
  | nil => simp
  | cons item items ih =>
    cases item with
    | none =>
      change totalSize (items.filterMap id) < _
      simp only [List.cons.sizeOf_spec]
      omega
    | some e =>
      change sizeOf e + totalSize (items.filterMap id) < _
      simp only [List.cons.sizeOf_spec, Option.some.sizeOf_spec]
      omega

theorem totalSize_properties (ps : List Property) :
    totalSize (propertyOperands ps) < sizeOf ps := by
  induction ps with
  | nil => simp [propertyOperands, Expr.operands]
  | cons p ps ih =>
    obtain ⟨key, v⟩ := p
    cases key with
    | computed k =>
      have heq : propertyOperands (.mk (.computed k) v :: ps) = k :: v :: propertyOperands ps := rfl
      simp only [heq, totalSize_cons, List.cons.sizeOf_spec, Property.mk.sizeOf_spec,
        Key.computed.sizeOf_spec]
      omega
    | ident name | str name | num name =>
      change sizeOf v + totalSize (propertyOperands ps) < _
      simp only [List.cons.sizeOf_spec, Property.mk.sizeOf_spec]
      omega

theorem totalSize_operands (e : Expr) : totalSize e.operands < sizeOf e := by
  cases e with
  | array items =>
    have h := totalSize_items items
    simp only [Expr.operands, Expr.array.sizeOf_spec]
    omega
  | object ps =>
    have h := totalSize_properties ps
    rw [Expr.object.sizeOf_spec]
    exact Nat.lt_add_left 1 h
  | call f args =>
    have h := totalSize_lt args
    rcases f.member_cases with ⟨t, name, rfl⟩ | ⟨t, key, rfl⟩ | hf
    · simp only [Expr.operands, totalSize_cons, Expr.call.sizeOf_spec, Expr.dot.sizeOf_spec]
      omega
    · simp only [Expr.operands, totalSize_cons, Expr.call.sizeOf_spec, Expr.index.sizeOf_spec]
      omega
    · rw [operands_call f args hf]
      simp only [totalSize_cons, Expr.call.sizeOf_spec]
      omega
  | new f args =>
    have h := totalSize_lt args
    simp only [Expr.operands, totalSize_cons, Expr.new.sizeOf_spec]
    omega
  | _ => simp [Expr.operands] <;> omega

theorem sizeOf_pos (e : Expr) : 0 < sizeOf e := Nat.zero_lt_of_lt (totalSize_operands e)

theorem totalSize_pos {es : List Expr} (h : es ≠ []) : 0 < totalSize es := by
  cases es with
  | nil => exact absurd rfl h
  | cons e es => exact Nat.add_pos_left (sizeOf_pos e) _

end Resumable
