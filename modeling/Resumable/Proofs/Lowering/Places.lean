import Resumable.Proofs.Eval.Statements
import Resumable.Proofs.Lowering.Staging

/-!
The places of operands. An operand that waits in a slot is not what it was: it has no name, it is no
member and no spread. `Taking.Suits` says which operands can stand in which places all the same. Main
statements: `taking_suits`: those of an orderly expression can; `Hoists.operand_look`: what is left in the
place of an operand.
-/

set_option autoImplicit false

namespace Resumable

section Uses

theorem itemsUses_eq (items : List (Option Expr)) :
    itemsUses items = listUses (items.filterMap id) := by
  induction items with
  | nil => rfl
  | cons item items ih => cases item <;> simp [itemsUses, listUses, ih]

theorem propertiesUses_eq (ps : List Property) :
    propertiesUses ps = listUses (propertyOperands ps) := by
  induction ps with
  | nil => rfl
  | cons p ps ih =>
    obtain ⟨key, v⟩ := p
    cases key with
    | computed k => exact (congrArg _ ih).trans (List.append_assoc ..)
    | ident | str | num => exact congrArg _ ih

theorem operands_uses (e : Expr) : ∀ x ∈ listUses e.operands, x ∈ e.uses := by
  cases e with
  | array items =>
    rw [Expr.operands, Expr.uses, itemsUses_eq]
    exact fun _ => id
  | object ps =>
    rw [Expr.operands, Expr.uses, propertiesUses_eq]
    exact fun _ => id
  | call f args => cases f <;> simp [Expr.operands, Expr.uses, listUses]
  | _ => simp +contextual [Expr.operands, Expr.uses, listUses]

end Uses

theorem Hoists.of_plain {inAsync : Bool} {n m : SlotNumber} {e : Expr} {h : Hoisted}
    (hh : Hoists inAsync n (.expr e h) m) (he : e.hasSuspend inAsync = false) : h = ⟨[], e⟩ := by
  cases hh with
  | plain => rfl
  | bare hb => cases hb <;> cases he
  | suspend hw _ =>
    rw [← forms_eq_nil_iff, hw.forms] at he
    simp at he
  | composite hs | sequence hs => cases hs.symm.trans he
  | assign hs | compound _ hs =>
    simp [Expr.hasSuspend, Expr.suspends] at he hs
    exact absurd he.2 hs

theorem Hoists.operands_plain {inAsync : Bool} {n m : SlotNumber} {es before rest : List Expr}
    (hh : Hoists inAsync n (.operands es before rest) m) (hes : listHasSuspend inAsync es = false) :
    before = [] ∧ rest = es := by
  induction es generalizing n before rest with
  | nil =>
    cases hh
    exact ⟨rfl, rfl⟩
  | cons e es ih =>
    obtain ⟨he, hes⟩ := Bool.or_eq_false_iff.1 ((listHasSuspend_cons ..).symm.trans hes)
    cases hh with
    | operand hh hsettle hrest =>
      rw [hes, run_settle_false] at hsettle
      obtain ⟨rfl, rfl⟩ := hsettle
      obtain ⟨rfl, rfl⟩ := ih hrest hes
      rw [hh.of_plain he]
      exact ⟨rfl, rfl⟩

/-- Whether an argument can be taken where it stands, before others that may suspend. -/
def Expr.MayBeArgument (inAsync later : Bool) (e : Expr) : Prop :=
  (∃ d, e = .spread d ∧ d.isOrderly inAsync = true ∧ later = false) ∨
    e.isOrderly inAsync = true ∧ e.look ≠ .spread ∧ (e.tail inAsync).look ≠ .spread ∧
      (later = true → e.mayWait inAsync = true)

def AreArguments (inAsync : Bool) : List Expr → Prop
  | [] => True
  | e :: es => e.MayBeArgument inAsync (listHasSuspend inAsync es) ∧ AreArguments inAsync es

/-- Whether operands can be taken one after the other although some suspend. -/
def Taking.Suits {σ : Type} (inAsync : Bool) : Taking σ → List Expr → Prop
  | .done _, es => es = []
  | .args _, es => AreArguments inAsync es
  | .value hint k, e :: es => e.isOrderly inAsync = true ∧
      (hint.isSome = true → e.mayTakeName inAsync = true) ∧
      (listHasSuspend inAsync es = true → e.mayWait inAsync = true) ∧ ∀ v, (k v).Suits inAsync es
  | .value _ _, [] => True

section Suiting

variable {σ : Type} {inAsync : Bool}

theorem look_ne_spread {e : Expr} (h : ∀ d, e ≠ .spread d) : e.look ≠ .spread := by
  cases e with
  | spread d => exact absurd rfl (h d)
  | function name f => cases name <;> nofun
  | _ => nofun

theorem areOrderlyArgs_suit {es : List Expr} (h : areOrderlyArgs inAsync es = true) :
    AreArguments inAsync es := by
  induction es with
  | nil => trivial
  | cons e es ih =>
    by_cases hs : ∃ d, e = .spread d
    · obtain ⟨d, rfl⟩ := hs
      simp only [areOrderlyArgs, Bool.and_eq_true, Bool.not_eq_true'] at h
      exact ⟨.inl ⟨d, rfl, h.1.1, h.1.2⟩, ih h.2⟩
    · have hne (d : Expr) (hd : e = .spread d) : False := hs ⟨d, hd⟩
      rw [areOrderlyArgs.eq_3 inAsync e es hne] at h
      simp only [Bool.and_eq_true, Bool.or_eq_true, Bool.not_eq_true', bne_iff_ne] at h
      refine ⟨.inr ⟨h.1.1.1, look_ne_spread hne, h.1.1.2, fun hl => ?_⟩, ih h.2⟩
      exact h.1.2.resolve_left (ne_false_of_eq_true hl)

theorem areOrderlyItems_suit {items : List (Option Expr)}
    (h : areOrderlyItems inAsync items = true) : AreArguments inAsync (items.filterMap id) := by
  induction items with
  | nil => trivial
  | cons item items ih =>
    cases item with
    | none => exact ih h
    | some e =>
      by_cases hs : ∃ d, e = .spread d
      · obtain ⟨d, rfl⟩ := hs
        simp only [areOrderlyItems, Bool.and_eq_true, Bool.not_eq_true', itemsHasSuspend_eq] at h
        exact ⟨.inl ⟨d, rfl, h.1.1, h.1.2⟩, ih h.2⟩
      · have hne (d : Expr) (hd : e = .spread d) : False := hs ⟨d, hd⟩
        rw [areOrderlyItems.eq_4 inAsync e items hne] at h
        simp only [Bool.and_eq_true, Bool.or_eq_true, Bool.not_eq_true', bne_iff_ne,
          itemsHasSuspend_eq] at h
        refine ⟨.inr ⟨h.1.1.1, look_ne_spread hne, h.1.1.2, fun hl => ?_⟩, ih h.2⟩
        exact h.1.2.resolve_left (ne_false_of_eq_true hl)

theorem ofProperties_suits {finish : Dict Field → RunOn σ Value} {ps : List Property}
    (h : areOrderlyProperties inAsync ps = true) (fields : Dict Field) :
    (Taking.ofProperties finish ps fields).Suits inAsync (propertyOperands ps) := by
  induction ps generalizing fields with
  | nil => rfl
  | cons q ps ih =>
    obtain ⟨key, e⟩ := q
    cases key with
    | computed k =>
      simp only [areOrderlyProperties, Bool.and_eq_true, Bool.or_eq_true, Bool.not_eq_true',
        propertiesHasSuspend_eq, ← listHasSuspend_cons] at h
      obtain ⟨⟨⟨⟨⟨hk, hwait⟩, he⟩, hname⟩, hwait'⟩, hps⟩ := h
      refine ⟨hk, nofun, fun hl => hwait.resolve_left (ne_false_of_eq_true hl), fun v => ?_⟩
      exact ⟨he, fun _ => hname, fun hl => hwait'.resolve_left (ne_false_of_eq_true hl),
        fun u => ih hps _⟩
    | ident | str | num =>
      simp only [areOrderlyProperties, Bool.and_eq_true, Bool.or_eq_true, Bool.not_eq_true',
        propertiesHasSuspend_eq] at h
      obtain ⟨⟨⟨he, hname⟩, hwait⟩, hps⟩ := h
      exact ⟨he, fun _ => hname, fun hl => hwait.resolve_left (ne_false_of_eq_true hl),
        fun u => ih hps _⟩

theorem isOrderly_call {f : Expr} {args : List Expr} (hf : f.isMember = false)
    (h : (Expr.call f args).isOrderly inAsync = true) :
    f.isOrderly inAsync = true ∧ areOrderlyArgs inAsync args = true ∧
      (listHasSuspend inAsync args = true → f.mayWait inAsync = true) ∧
      (listHasSuspend inAsync args = false → (f.tail inAsync).look ≠ .member) := by
  have h : (f.isOrderly inAsync = true ∧ areOrderlyArgs inAsync args = true) ∧
      (if listHasSuspend inAsync args = true then f.mayWait inAsync
        else (f.tail inAsync).look != .member) = true := by
    cases f with
    | dot | index => cases hf
    | _ => simpa only [Expr.isOrderly, Bool.and_eq_true] using h
  refine ⟨h.1.1, h.1.2, fun hl => ?_, fun hl => ?_⟩
  · rw [if_pos hl] at h
    exact h.2
  · rw [if_neg (by simp [hl])] at h
    exact bne_iff_ne.1 h.2

variable [HasWorld σ] {host : HostOn σ} {scope : ScopeId}

/-- An orderly expression can take its operands. -/
theorem taking_suits {e : Expr} (ht : e.takes = true) (h : e.isOrderly inAsync = true)
    (callee : Expr) : (e.taking host scope callee).Suits inAsync e.operands := by
  have hlast {d : Expr} {r : Value → RunOn σ Value} (hd : d.isOrderly inAsync = true) :
      (Taking.value none fun v => .done (r v)).Suits inAsync [d] := ⟨hd, nofun, nofun, fun _ => rfl⟩
  cases e with
  | unary | void | dot | await | logical | cond => exact hlast h
  | typeof d =>
    simp only [Expr.isOrderly, Bool.and_eq_true] at h
    exact hlast h.1
  | binary op l r | index l r =>
    simp only [Expr.isOrderly, Bool.and_eq_true, Bool.or_eq_true, Bool.not_eq_true'] at h
    refine ⟨h.1.1, nofun, fun hl => h.2.resolve_left (ne_false_of_eq_true ?_), fun v => hlast h.1.2⟩
    rwa [listHasSuspend_one] at hl
  | array items => exact areOrderlyItems_suit h
  | object ps => exact ofProperties_suits h .empty
  | new f args =>
    simp only [Expr.isOrderly, Bool.and_eq_true, Bool.or_eq_true, Bool.not_eq_true'] at h
    exact ⟨h.1.1, nofun, fun hl => h.2.resolve_left (ne_false_of_eq_true hl),
      fun v => areOrderlyArgs_suit h.1.2⟩
  | call f args =>
    rcases f.member_cases with ⟨t, name, rfl⟩ | ⟨t, key, rfl⟩ | hf
    · simp only [Expr.isOrderly, Bool.and_eq_true, Bool.or_eq_true, Bool.not_eq_true'] at h
      exact ⟨h.1.1, nofun, fun hl => h.2.resolve_left (ne_false_of_eq_true hl),
        fun v => areOrderlyArgs_suit h.1.2⟩
    · simp only [Expr.isOrderly, Bool.and_eq_true, Bool.or_eq_true, Bool.not_eq_true',
        ← listHasSuspend_cons] at h
      obtain ⟨⟨⟨⟨ht, hk⟩, hargs⟩, hwait⟩, hwait'⟩ := h
      refine ⟨ht, nofun, fun hl => hwait.resolve_left (ne_false_of_eq_true hl), fun v => ?_⟩
      exact ⟨hk, nofun, fun hl => hwait'.resolve_left (ne_false_of_eq_true hl),
        fun k => areOrderlyArgs_suit hargs⟩
    · obtain ⟨hforderly, hargs, hwait, -⟩ := isOrderly_call hf h
      rw [taking_call hf, operands_call f args hf]
      exact ⟨hforderly, nofun, hwait, fun v => areOrderlyArgs_suit hargs⟩
  | _ => cases ht

end Suiting

section Rests

variable {inAsync : Bool} {n m : SlotNumber} {e : Expr} {h : Hoisted}

/-- What an operand leaves in its place: an expression that can be read again, if it has to wait, or
else what hoisting leaves. -/
theorem Hoists.operand_look {later : Bool} {s : Hoisted} {k : SlotNumber}
    (hsettle : (h.settle later).run m = .ok (s, k))
    (hwait : later = true → h.rest.look ≠ .spread) :
    s.rest.isInert = true ∨ later = false ∧ s = h := by
  cases later with
  | false => exact .inr ⟨rfl, ((run_settle_false ..).1 hsettle).1.symm⟩
  | true =>
    refine .inl ?_
    simp only [Hoisted.settle, if_true, run_bind_ok, run_pure_ok] at hsettle
    obtain ⟨t, j, ht, rfl, rfl⟩ := hsettle
    rcases run_spill_ok _ _ _ _ ht with ⟨d, t, hd, -, -⟩ | ⟨hinert, rfl, -⟩ | ⟨rfl, -⟩
    · exact absurd (congrArg Expr.look hd) (hwait rfl)
    · exact hinert
    · exact isSlotName_slotName _

end Rests

end Resumable
