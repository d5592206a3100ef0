import Resumable.Call
import Resumable.Realm

/-!
Joining texts. Characters that are written as units read back as they are; units that are read as
characters are written back as they are, except that the replacement character has taken the place of
every surrogate outside a pair. Main statement: `text_sums_join`: `+` joins the units of two texts if
both are well formed, and only then; it keeps lengths and is associative in any case.
-/

set_option autoImplicit false

namespace Resumable

namespace Text

def replacementUnit : UInt16 := 0xFFFD

/-- Units with every surrogate outside a pair replaced. -/
def repair : List UInt16 → List UInt16
  | [] => []
  | [u] => [if isHigh u || isLow u then replacementUnit else u]
  | u :: v :: rest =>
    if isHigh u then
      if isLow v then u :: v :: repair rest else replacementUnit :: repair (v :: rest)
    else if isLow u then replacementUnit :: repair (v :: rest)
    else u :: repair (v :: rest)

def repaired (t : Text) : Text := ⟨repair t.units⟩

section Repair

theorem length_repair (us : List UInt16) : (repair us).length = us.length := by
  fun_induction repair us <;> simp_all

theorem not_surrogate_replacementUnit :
    isHigh replacementUnit = false ∧ isLow replacementUnit = false := by decide

/-- Nothing is replaced in a well-formed text, and something is in every other one. -/
theorem repair_eq_self_iff (us : List UInt16) : repair us = us ↔ wellFormed us = true := by
  obtain ⟨hhigh, hlow⟩ := not_surrogate_replacementUnit
  fun_induction repair us with
  | case1 => simp [wellFormed]
  | case2 u => grind [wellFormed]
  | case3 u v rest hu hv ih => simp [wellFormed, hu, hv, ih]
  | case4 u v rest hu hv ih => grind [wellFormed]
  | case5 u v rest hu hv ih => grind [wellFormed]
  | case6 u v rest hu hv ih => simp [wellFormed, hu, hv, ih]

end Repair

section Characters

theorem isHigh_iff {u : UInt16} : isHigh u = true ↔ 0xD800 ≤ u.toNat ∧ u.toNat < 0xDC00 := by
  simp [isHigh]

theorem isLow_iff {u : UInt16} : isLow u = true ↔ 0xDC00 ≤ u.toNat ∧ u.toNat < 0xE000 := by
  simp [isLow]

theorem not_surrogate_iff {u : UInt16} : isHigh u = false ∧ isLow u = false ↔
    u.toNat < 0xD800 ∨ 0xDFFF < u.toNat := by
  rw [Bool.eq_false_iff, Bool.eq_false_iff, Ne, Ne, isHigh_iff, isLow_iff]
  omega

theorem decode_plain {u : UInt16} (hu : isHigh u = false ∧ isLow u = false) (us : List UInt16) :
    decode (u :: us) = Char.ofNat u.toNat :: decode us := by
  cases us <;> simp [decode, hu.1, hu.2]

theorem decode_pair {u v : UInt16} (hu : isHigh u = true) (hv : isLow v = true)
    (us : List UInt16) : decode (u :: v :: us) = joinSurrogates u v :: decode us := by
  simp [decode, hu, hv]

theorem char_range (c : Char) :
    c.toNat < 0xD800 ∨ 0xDFFF < c.toNat ∧ c.toNat < 0x110000 := c.valid

theorem toNat_ofNat {n : Nat} (h : n.isValidChar) : (Char.ofNat n).toNat = n := by
  rw [Char.ofNat, dif_pos h]
  rfl

theorem decode_encodeChar_append (c : Char) (us : List UInt16) :
    decode (encodeChar c ++ us) = c :: decode us := by
  have hc := char_range c
  unfold encodeChar
  dsimp only
  split
  · have hunit : c.toNat.toUInt16.toNat = c.toNat := by simp; omega
    rw [List.singleton_append, decode_plain (not_surrogate_iff.2 (by omega)), hunit,
      Char.ofNat_toNat]
  · obtain ⟨n, hn⟩ : ∃ n, c.toNat = 0x10000 + n := ⟨c.toNat - 0x10000, by omega⟩
    have hhigh : (0xD800 + (c.toNat - 0x10000) / 0x400).toUInt16.toNat = 0xD800 + n / 0x400 := by
      simp; omega
    have hlow : (0xDC00 + (c.toNat - 0x10000) % 0x400).toUInt16.toNat = 0xDC00 + n % 0x400 := by
      simp; omega
    have hjoined : 0x10000 + (0xD800 + n / 0x400 - 0xD800) * 0x400 + (0xDC00 + n % 0x400 - 0xDC00) =
        c.toNat := by omega
    rw [List.cons_append, List.singleton_append,
      decode_pair (isHigh_iff.2 (by omega)) (isLow_iff.2 (by omega)), joinSurrogates, hhigh, hlow,
      hjoined, Char.ofNat_toNat]

theorem decode_encodeChars (cs : List Char) : decode (encodeChars cs) = cs := by
  induction cs with
  | nil => rfl
  | cons c cs ih =>
    have hcons : encodeChars (c :: cs) = encodeChar c ++ encodeChars cs := rfl
    rw [hcons, decode_encodeChar_append, ih]

theorem encodeChar_unit {u : UInt16} (hu : isHigh u = false ∧ isLow u = false) :
    encodeChar (Char.ofNat u.toNat) = [u] := by
  have hlt := u.toNat_lt
  have hrange := not_surrogate_iff.1 hu
  have hvalid : u.toNat.isValidChar := by unfold Nat.isValidChar; omega
  unfold encodeChar
  rw [toNat_ofNat hvalid, if_pos (by omega)]
  simp

theorem encodeChar_joinSurrogates {u v : UInt16} (hu : isHigh u = true) (hv : isLow v = true) :
    encodeChar (joinSurrogates u v) = [u, v] := by
  rw [isHigh_iff] at hu
  rw [isLow_iff] at hv
  have hvalid : (0x10000 + (u.toNat - 0xD800) * 0x400 + (v.toNat - 0xDC00)).isValidChar := by
    unfold Nat.isValidChar; omega
  have hhigh : 0xD800 + (0x10000 + (u.toNat - 0xD800) * 0x400 + (v.toNat - 0xDC00) - 0x10000) / 0x400 =
      u.toNat := by omega
  have hlow : 0xDC00 + (0x10000 + (u.toNat - 0xD800) * 0x400 + (v.toNat - 0xDC00) - 0x10000) % 0x400 =
      v.toNat := by omega
  unfold encodeChar joinSurrogates
  rw [toNat_ofNat hvalid, if_neg (by omega), hhigh, hlow]
  simp

theorem encodeChar_replacement : encodeChar replacement = [replacementUnit] := by decide

theorem encodeChars_decode (us : List UInt16) : encodeChars (decode us) = repair us := by
  have hcons (c : Char) (cs : List Char) : encodeChars (c :: cs) = encodeChar c ++ encodeChars cs := rfl
  fun_induction repair us with
  | case1 => rfl
  | case2 u =>
    by_cases hu : isHigh u = false ∧ isLow u = false
    · rw [decode_plain hu, hcons, encodeChar_unit hu]
      simp [decode, encodeChars, hu]
    · have hlone : (isHigh u || isLow u) = true := by grind
      rw [decode, if_pos hlone, if_pos hlone, hcons, encodeChar_replacement]
      rfl
  | case3 u v rest hu hv ih =>
    rw [decode_pair hu hv, hcons, encodeChar_joinSurrogates hu hv, ih]
    rfl
  | case4 u v rest hu hv ih =>
    rw [decode, if_pos hu, if_neg hv, hcons, encodeChar_replacement, ih]
    rfl
  | case5 u v rest hu hv ih =>
    rw [decode, if_neg hu, if_pos hv, hcons, encodeChar_replacement, ih]
    rfl
  | case6 u v rest hu hv ih =>
    have hplain : isHigh u = false ∧ isLow u = false :=
      ⟨Bool.eq_false_iff.2 hu, Bool.eq_false_iff.2 hv⟩
    rw [decode_plain hplain, hcons, encodeChar_unit hplain, ih]
    rfl

end Characters

section Strings

variable (a b : Text)

@[simp] theorem toString_ofString (s : String) : (ofString s).toString = s := by
  rw [toString, ofString, decode_encodeChars, String.ofList_toList]

theorem ofString_toString : ofString a.toString = a.repaired := by
  rw [toString, ofString, String.toList_ofList, encodeChars_decode, repaired]

theorem ofString_append (s t : String) : ofString (s ++ t) = ofString s ++ ofString t := by
  show (⟨encodeChars (s ++ t).toList⟩ : Text) = ⟨encodeChars s.toList ++ encodeChars t.toList⟩
  rw [String.toList_append, encodeChars, List.flatMap_append]
  rfl

theorem length_repaired : a.repaired.length = a.length := length_repair a.units

theorem repaired_eq_self_iff : a.repaired = a ↔ a.isWellFormed = true := by
  rw [isWellFormed, ← repair_eq_self_iff, repaired, Text.mk.injEq]

/-- Repaired texts are joined to the text itself only if nothing was to be repaired. -/
theorem repaired_append_eq_iff : a.repaired ++ b.repaired = a ++ b ↔
    a.isWellFormed = true ∧ b.isWellFormed = true := by
  rw [← repaired_eq_self_iff, ← repaired_eq_self_iff]
  constructor
  · intro h
    have hunits : a.repaired.units ++ b.repaired.units = a.units ++ b.units := congrArg units h
    obtain ⟨ha, hb⟩ := List.append_inj hunits (length_repaired a)
    exact ⟨congrArg Text.mk ha, congrArg Text.mk hb⟩
  · rintro ⟨ha, hb⟩
    rw [ha, hb]

end Strings

end Text

section Sums

def Text.sum (a b : Text) : Text := .ofString (a.toString ++ b.toString)

theorem Text.sum_eq (a b : Text) : a.sum b = a.repaired ++ b.repaired := by
  rw [sum, ofString_append, ofString_toString, ofString_toString]

theorem Text.sum_assoc (a b c : Text) : (a.sum b).sum c = a.sum (b.sum c) := by
  simp only [sum, toString_ofString, String.append_assoc]

variable {σ : Type} [HasWorld σ] {host : HostOn σ} {scope : ScopeId} {l r : Expr} {a b : Text}
  {s s₁ s₂ : σ}

theorem eval_sum (hl : l.eval host scope none s = .done (.str a) s₁)
    (hr : r.eval host scope none s₁ = .done (.str b) s₂) (hint : Option String) :
    (Expr.binary .add l r).eval host scope hint s = .done (.str (a.sum b)) s₂ := by
  show (do
    let x ← l.eval host scope none
    let y ← r.eval host scope none
    BinaryOp.add.apply x y : RunOn σ Value) s = _
  simp only [bind, RunOn.bind, hl, hr]
  rfl

/-- Where two expressions give texts, their sum has the units of the first and then those of the second,
with every surrogate outside a pair replaced. -/
theorem text_sums_join (hl : l.eval host scope none s = .done (.str a) s₁)
    (hr : r.eval host scope none s₁ = .done (.str b) s₂) :
    ∃ t : Text, (∀ hint, (Expr.binary .add l r).eval host scope hint s = .done (.str t) s₂) ∧
      t = a.repaired ++ b.repaired ∧ t.length = a.length + b.length ∧
      (t = a ++ b ↔ a.isWellFormed = true ∧ b.isWellFormed = true) ∧
      ∀ (q : Expr) (c : Text) (s₃ : σ), q.eval host scope none s₂ = .done (.str c) s₃ →
        ∃ t' : Text, ∀ hint,
          (Expr.binary .add (.binary .add l r) q).eval host scope hint s = .done (.str t') s₃ ∧
          (Expr.binary .add l (.binary .add r q)).eval host scope hint s = .done (.str t') s₃ := by
  refine ⟨a.sum b, eval_sum hl hr, Text.sum_eq a b, ?_, ?_, fun q c s₃ hq => ?_⟩
  · rw [Text.sum_eq, Text.length_append, Text.length_repaired, Text.length_repaired]
  · rw [Text.sum_eq, Text.repaired_append_eq_iff]
  · refine ⟨(a.sum b).sum c, fun hint => ⟨eval_sum (eval_sum hl hr none) hq hint, ?_⟩⟩
    rw [Text.sum_assoc]
    exact eval_sum hl (eval_sum hr hq none) hint

theorem eval_str (text : String) (hint : Option String) :
    (Expr.str text).eval host scope hint s = .done (.ofString text) s := rfl

theorem eval_unit (text key : String) (hint : Option String) :
    (Expr.index (.str text) (.str key)).eval host scope hint s =
      .done (textMember (.ofString text) (Value.ofString key).toKey) s := rfl

/-- A character and a pair of surrogates are joined to a text of three units. -/
theorem text_sums_join_pair :
    ∃ t : Text, (∀ hint, (Expr.binary .add (.str "a") (.str "😀")).eval (Host.withFuel 0) World.global
      hint World.initial = .done (.str t) World.initial) ∧ t.length = 3 ∧
      t = .ofString "a" ++ .ofString "😀" := by
  have hfirst : (Expr.str "a").eval (Host.withFuel 0) World.global none World.initial =
      .done (.ofString "a") World.initial := eval_str "a" none
  have hsecond : (Expr.str "😀").eval (Host.withFuel 0) World.global none World.initial =
      .done (.ofString "😀") World.initial := eval_str "😀" none
  obtain ⟨t, ht, -, hlength, hjoined, -⟩ := text_sums_join hfirst hsecond
  exact ⟨t, ht, hlength.trans (by decide), hjoined.2 (by decide)⟩

/-- The two halves of a character are not joined to that character. -/
theorem halves_part :
    ∃ high low t : Text,
      (Expr.index (.str "😀") (.str "0")).eval (Host.withFuel 0) World.global none World.initial =
        .done (.str high) World.initial ∧
      (Expr.index (.str "😀") (.str "1")).eval (Host.withFuel 0) World.global none World.initial =
        .done (.str low) World.initial ∧
      (Expr.binary .add (.index (.str "😀") (.str "0")) (.index (.str "😀") (.str "1"))).eval
        (Host.withFuel 0) World.global none World.initial = .done (.str t) World.initial ∧
      high ++ low = .ofString "😀" ∧ t ≠ high ++ low := by
  have hhigh : textMember (.ofString "😀") (Value.ofString "0").toKey = .str ⟨[0xD83D]⟩ := rfl
  have hlow : textMember (.ofString "😀") (Value.ofString "1").toKey = .str ⟨[0xDE00]⟩ := rfl
  have hfirst : (Expr.index (.str "😀") (.str "0")).eval (Host.withFuel 0) World.global none
      World.initial = .done (.str ⟨[0xD83D]⟩) World.initial := by rw [eval_unit, hhigh]
  have hsecond : (Expr.index (.str "😀") (.str "1")).eval (Host.withFuel 0) World.global none
      World.initial = .done (.str ⟨[0xDE00]⟩) World.initial := by rw [eval_unit, hlow]
  exact ⟨_, _, _, hfirst, hsecond, eval_sum hfirst hsecond none, by decide, by decide⟩

end Sums

end Resumable
