import Resumable.Proofs.Lowering.Fresh
import Resumable.Proofs.Objects.Writes
import Resumable.Proofs.Text.Joining

/-!
Symbols as property keys. A symbol whose description is not like that of a well-known one has its number
at the end of its key, after the last `#`. Main statement: `symbol_keys_apart`: two symbols have the same
key only if both are without their number and are shown alike; else a property under one of them is no
concern of the other.
-/

set_option autoImplicit false

namespace Resumable

namespace Symbol

/-- Whether the description is like that of a well-known symbol. -/
def isReserved (s : Symbol) : Bool :=
  match s.description with
  | some d => "Symbol.".toList.isPrefixOf d.toString.toList
  | none => false

variable {s t : Symbol}

theorem key_of_isReserved (h : s.isReserved = true) : s.key = s.display := by
  obtain ⟨id, description⟩ := s
  cases description with
  | none => cases h
  | some d => exact if_pos h

theorem key_of_not_isReserved (h : s.isReserved = false) :
    s.key = s.display ++ "#" ++ Nat.repr s.id := by
  obtain ⟨id, description⟩ := s
  cases description with
  | none => rfl
  | some d => exact if_neg (Bool.eq_false_iff.1 h)

theorem isDigit_of_mem_repr {n : Nat} {c : Char} (h : c ∈ (Nat.repr n).toList) : c.isDigit = true := by
  rw [Nat.toList_repr] at h
  exact Nat.isDigit_of_mem_toDigits (by decide) (by decide) h

theorem eq_of_append_mark {as bs ds es : List Char} {mark : Char} (hd : mark ∉ ds) (he : mark ∉ es)
    (h : as ++ mark :: ds = bs ++ mark :: es) : ds = es := by
  obtain ⟨cs, -, hcs⟩ | ⟨cs, -, hcs⟩ := List.append_eq_append_iff.1 h
  · cases cs with
    | nil => exact (List.cons.inj hcs).2
    | cons c cs => exact absurd (by rw [(List.cons.inj hcs).2]; simp) hd
  · cases cs with
    | nil => exact (List.cons.inj hcs).2.symm
    | cons c cs => exact absurd (by rw [(List.cons.inj hcs).2]; simp) he

theorem id_eq_of_key_eq (hs : s.isReserved = false) (ht : t.isReserved = false) (h : s.key = t.key) :
    s.id = t.id := by
  have hmark (n : Nat) : '#' ∉ (Nat.repr n).toList := fun hmem => by
    cases isDigit_of_mem_repr hmem
  rw [key_of_not_isReserved hs, key_of_not_isReserved ht] at h
  have hchars := congrArg String.toList h
  simp only [String.toList_append, List.append_assoc] at hchars
  exact eq_of_repr_eq (String.toList_inj.1 (eq_of_append_mark (hmark s.id) (hmark t.id) hchars))

theorem key_ne_of_isReserved (hs : s.isReserved = false) (ht : t.isReserved = true) :
    s.key ≠ t.key := by
  intro h
  rw [key_of_not_isReserved hs, key_of_isReserved ht] at h
  obtain ⟨bs, hbs⟩ : ∃ bs, s.display.toList ++ '#' :: (Nat.repr s.id).toList = bs ++ [')'] := by
    refine ⟨("Symbol(" ++ (t.description.map Text.toString).getD "").toList, ?_⟩
    simpa [display] using congrArg String.toList h
  have hlast : ('#' :: (Nat.repr s.id).toList).getLast? = some ')' := by
    rw [← List.getLast?_append_cons, hbs, List.getLast?_concat]
  obtain heq | hmem := List.mem_cons.1 (List.mem_of_getLast? hlast)
  · cases heq
  · cases isDigit_of_mem_repr hmem

/-- Two symbols have the same key exactly if both are without their number and are shown alike. -/
theorem key_eq_iff (h : s.id ≠ t.id) :
    s.key = t.key ↔ s.isReserved = true ∧ t.isReserved = true ∧ s.display = t.display := by
  cases hs : s.isReserved <;> cases ht : t.isReserved
  · simpa using fun heq => h (id_eq_of_key_eq hs ht heq)
  · simpa using key_ne_of_isReserved hs ht
  · simpa using (key_ne_of_isReserved ht hs).symm
  · simp [key_of_isReserved hs, key_of_isReserved ht]

end Symbol

namespace WellKnown

theorem isReserved_symbol (x : WellKnown) : x.symbol.isReserved = true := by
  show "Symbol.".toList.isPrefixOf (Text.ofString x.description).toString.toList = true
  rw [Text.toString_ofString]
  cases x <;> decide

theorem key_symbol (x : WellKnown) : x.symbol.key = x.key := by
  rw [Symbol.key_of_isReserved x.isReserved_symbol]
  show "Symbol(" ++ (Text.ofString x.description).toString ++ ")" = x.key
  rw [Text.toString_ofString, key]

end WellKnown

section Keys

variable {s t : Symbol}

theorem Number.digits?_cons_eq_none {base : Nat} {c : Char} (h : Number.digitValue base c = none)
    (cs : List Char) : Number.digits? base (c :: cs) = none := by
  have hnone (cs : List Char) : cs.foldl (fun n c => do
      return (← n) * base + (← Number.digitValue base c)) (none : Option Nat) = none := by
    induction cs with
    | nil => rfl
    | cons c cs ih => exact ih
  rw [Number.digits?, if_neg (by simp), List.foldl_cons, h]
  exact hnone cs

theorem Symbol.position?_key (s : Symbol) : Number.position? s.key = none := by
  obtain ⟨cs, hcs⟩ : ∃ cs, s.key.toList = 'S' :: cs := by
    cases hs : s.isReserved
    · rw [key_of_not_isReserved hs, display]
      simp only [String.toList_append, List.append_assoc]
      exact ⟨_, rfl⟩
    · rw [key_of_isReserved hs, display]
      simp only [String.toList_append, List.append_assoc]
      exact ⟨_, rfl⟩
  rw [Number.position?, hcs]
  show (Number.digits? 10 ('S' :: cs)).filter _ = none
  rw [Number.digits?_cons_eq_none (by decide), Option.filter_none]

/-- Symbols with different numbers have different keys unless both are described like well-known ones and
are shown alike. Where the keys differ, what is stored under one symbol is neither read nor replaced under
the other, and a symbol that is not described like a well-known one is no key of a protocol. -/
theorem symbol_keys_apart (h : s.id ≠ t.id) :
    ((Value.sym s).toKey = (Value.sym t).toKey ↔
      s.isReserved = true ∧ t.isReserved = true ∧ s.display = t.display) ∧
    ((Value.sym s).toKey ≠ (Value.sym t).toKey → ∀ (w : World) (id : ObjectId) (v : Value), ∃ w',
      (writeMember (.obj id) (Value.sym s).toKey v : Run Unit) w = .done () w' ∧
      ∀ reader, w'.heap.property? reader (Value.sym t).toKey =
        w.heap.property? reader (Value.sym t).toKey) ∧
    (s.isReserved = false → ∀ x : WellKnown, (Value.sym s).toKey ≠ x.key) := by
  refine ⟨Symbol.key_eq_iff h, fun hne w id v => ⟨_, writeMember_obj id _ v w, fun reader => ?_⟩,
    fun hs x => ?_⟩
  · refine Heap.property?_modify (fun o => Object.proto_set) fun o _ => ?_
    have hplain : ¬ (o.elements?.isSome = true ∧ (Number.position? s.key).isSome = true) := by
      simp [Symbol.position?_key]
    have hne : t.key ≠ s.key := Ne.symm hne
    show (o.set s.key v).own? t.key = o.own? t.key
    rw [Object.set_field hplain, Object.own?_setField_ne hne]
  · rw [← x.key_symbol]
    exact Symbol.key_ne_of_isReserved hs x.isReserved_symbol

/-- Symbols are told apart if one is described by the other one's key. -/
theorem symbol_keys_apart_nested :
    let s : Symbol := ⟨1, some (.ofString "a)#2")⟩
    let t : Symbol := ⟨2, some (.ofString "a")⟩
    (Value.sym s).toKey ≠ (Value.sym t).toKey ∧ (∀ x : WellKnown, (Value.sym s).toKey ≠ x.key) ∧
      ∀ (w : World) (id : ObjectId) (v : Value), ∃ w',
        (writeMember (.obj id) (Value.sym s).toKey v : Run Unit) w = .done () w' ∧
        ∀ reader, w'.heap.property? reader (Value.sym t).toKey =
          w.heap.property? reader (Value.sym t).toKey := by
  intro s t
  have hplain : s.isReserved = false := rfl
  obtain ⟨hkeys, hwrites, hknown⟩ := symbol_keys_apart (s := s) (t := t) (by decide)
  have hne : (Value.sym s).toKey ≠ (Value.sym t).toKey := fun heq =>
    Bool.noConfusion (hplain.symm.trans (hkeys.1 heq).1)
  exact ⟨hne, hknown hplain, hwrites hne⟩

/-- A script makes a symbol with the key of a well-known one, and two symbols with one key. -/
theorem symbol_keys_collide :
    let w : World := { World.initial with nextSymbol := 1 }
    ∃ (s t u : Symbol) (w₁ w₂ w₃ : World),
      Native.call (Host.withFuel 0) .symbol .undefined [.ofString "Symbol.iterator"] w =
        .done (.sym s) w₁ ∧
      Native.call (Host.withFuel 0) .symbol .undefined [.ofString "Symbol.x"] w₁ = .done (.sym t) w₂ ∧
      Native.call (Host.withFuel 0) .symbol .undefined [.ofString "Symbol.x"] w₂ = .done (.sym u) w₃ ∧
      s.id ≠ WellKnown.iterator.symbol.id ∧ (Value.sym s).toKey = WellKnown.iterator.key ∧
      t.id ≠ u.id ∧ (Value.sym t).toKey = (Value.sym u).toKey := by
  exact ⟨_, _, _, _, _, _, rfl, rfl, rfl, by decide, rfl, by decide, rfl⟩

end Keys

end Resumable
