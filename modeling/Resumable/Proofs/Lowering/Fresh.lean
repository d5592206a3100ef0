import Mathlib.Algebra.Group.Nat.Defs
import Resumable.Proofs.Lowering.Accesses
import Resumable.Proofs.Lowering.Size

/-!
Fresh slots. What hoisting puts before an expression fills slots with consecutive numbers, each once and
before it is read; the code that hoisting moves around has no slots of its own. Main statement:
`Hoists.fills`.
-/

set_option autoImplicit false

namespace Resumable

def drawn (n : SlotNumber) (k : Nat) : List String :=
  (List.range k).map fun i => slotName (n + .ofNat i)

@[simp] theorem drawn_zero (n : SlotNumber) : drawn n 0 = [] := rfl

theorem drawn_add (n : SlotNumber) (j k : Nat) :
    drawn n (j + k) = drawn n j ++ drawn (n + .ofNat j) k := by
  simp only [drawn, List.range_add, List.map_append, List.map_map, Function.comp_def,
    UInt64.ofNat_add, UInt64.add_assoc]

theorem drawn_one (n : SlotNumber) : drawn n 1 = [slotName n] := by
  simp [drawn]

theorem drawn_succ (n : SlotNumber) (k : Nat) :
    drawn n (k + 1) = drawn n k ++ [slotName (n + .ofNat k)] := by
  rw [drawn_add, drawn_one]

theorem isSlotName_drawn {n : SlotNumber} {k : Nat} {x : String} (hx : x ∈ drawn n k) :
    isSlotName x = true := by
  obtain ⟨i, -, rfl⟩ := List.mem_map.1 hx
  exact isSlotName_slotName _

theorem eq_of_repr_eq {m n : Nat} (h : Nat.repr m = Nat.repr n) : m = n := by
  rw [Nat.repr_eq_ofList_toDigits, Nat.repr_eq_ofList_toDigits, String.ofList_inj] at h
  rw [← Nat.ofDigitChars_ten_toDigits (n := m), h, Nat.ofDigitChars_ten_toDigits]

theorem slotName_inj {n m : SlotNumber} (h : slotName n = slotName m) : n = m := by
  have h := congrArg String.toList h
  simp only [slotName, String.toList_append, List.append_cancel_left_eq] at h
  exact UInt64.toNat_inj.1 (eq_of_repr_eq (String.toList_inj.1 h))

/-- As long as the numbers last, no slot is drawn twice. -/
theorem nodup_drawn (n : SlotNumber) {k : Nat} (hk : k ≤ 2 ^ 64) : (drawn n k).Nodup := by
  refine List.pairwise_map.2 (List.nodup_range.imp_of_mem fun {i j} hi hj hne heq => hne ?_)
  have heq := congrArg UInt64.toNat ((UInt64.add_right_inj n).1 (slotName_inj heq))
  rw [UInt64.toNat_ofNat', UInt64.toNat_ofNat'] at heq
  rwa [Nat.mod_eq_of_lt (Nat.lt_of_lt_of_le (List.mem_range.1 hi) hk),
    Nat.mod_eq_of_lt (Nat.lt_of_lt_of_le (List.mem_range.1 hj) hk)] at heq

/-- Whether code has nothing to do with slots but that it reads some of the known ones. -/
def OnlyReads (known : List String) (accesses : List Access) : Prop :=
  ∀ a ∈ accesses, isSlotName a.name = true → ∃ x ∈ known, a = .read x

/-- What a step accesses besides the slot that it fills, if it fills one. -/
def Expr.inputs : Expr → List Access
  | .assign .set (.ident x) value =>
    if isSlotName x then value.accesses else .write x :: value.accesses
  | e => e.accesses

/-- Whether steps, taken one after the other, read a slot only when it is known or filled by a step
before, and access slots in no other way. -/
def Supplied (known : List String) : List Expr → Prop
  | [] => True
  | e :: es => OnlyReads known e.inputs ∧ Supplied (known ++ e.slots) es

namespace OnlyReads

variable {known known' : List String} {as bs : List Access} {e : Expr}

theorem of_clean (h : ∀ a ∈ as, isSlotName a.name = false) : OnlyReads known as := by
  intro a ha hslot
  cases (h a ha).symm.trans hslot

theorem append (ha : OnlyReads known as) (hb : OnlyReads known bs) : OnlyReads known (as ++ bs) :=
  fun a h => (List.mem_append.1 h).elim (ha a) (hb a)

theorem left (h : OnlyReads known (as ++ bs)) : OnlyReads known as :=
  fun a ha => h a (List.mem_append_left bs ha)

theorem right (h : OnlyReads known (as ++ bs)) : OnlyReads known bs :=
  fun a ha => h a (List.mem_append_right as ha)

theorem mono (h : OnlyReads known as) (hk : ∀ x ∈ known, x ∈ known') : OnlyReads known' as := by
  intro a ha hslot
  obtain ⟨x, hx, rfl⟩ := h a ha hslot
  exact ⟨x, hk x hx, rfl⟩

theorem of_subset (h : OnlyReads known as)
    (hsub : ∀ b ∈ bs, b ∈ as ∨ isSlotName b.name = false) : OnlyReads known bs := by
  intro b hb hslot
  rcases hsub b hb with hb | hfalse
  · exact h b hb hslot
  · cases hfalse.symm.trans hslot

theorem count_write (h : OnlyReads known as) {x : String} (hx : isSlotName x = true) :
    as.count (.write x) = 0 := by
  refine List.count_eq_zero.2 fun hmem => ?_
  obtain ⟨y, -, hy⟩ := h _ hmem hx
  cases hy

theorem slots_eq_nil (h : OnlyReads known e.accesses) : e.slots = [] := by
  refine List.eq_nil_iff_forall_not_mem.2 fun x hx => ?_
  obtain ⟨hslot, hmem⟩ := mem_slots e x hx
  obtain ⟨y, -, hy⟩ := h _ hmem hslot
  cases hy

end OnlyReads

/-- A step fills a slot, or all that it accesses is an input. -/
theorem Expr.step_cases (e : Expr) :
    (∃ x value, isSlotName x = true ∧ e = .assign .set (.ident x) value) ∨
      e.inputs = e.accesses := by
  unfold Expr.inputs
  split
  · rename_i x value
    cases hx : isSlotName x with
    | true => exact .inl ⟨x, value, hx, rfl⟩
    | false => exact .inr rfl
  · exact .inr rfl

@[simp] theorem inputs_fill {x : String} (hx : isSlotName x = true) (value : Expr) :
    (Expr.assign .set (.ident x) value).inputs = value.accesses := if_pos hx

@[simp] theorem slots_fill {x : String} (hx : isSlotName x = true) (value : Expr) :
    (Expr.assign .set (.ident x) value).slots = [x] := by
  rw [Expr.slots, if_pos hx]

theorem accesses_fill (x : String) (value : Expr) :
    (Expr.assign .set (.ident x) value).accesses = .write x :: value.accesses := rfl

theorem mem_accesses_of_mem_inputs {a : Access} {e : Expr} (h : a ∈ e.inputs) : a ∈ e.accesses := by
  rcases e.step_cases with ⟨x, value, hx, rfl⟩ | heq
  · rw [inputs_fill hx] at h
    exact List.mem_cons_of_mem _ h
  · rwa [← heq]

namespace Supplied

variable {known known' : List String} {es ds : List Expr}

theorem append_iff :
    Supplied known (es ++ ds) ↔ Supplied known es ∧ Supplied (known ++ listSlots es) ds := by
  induction es generalizing known with
  | nil => simp [Supplied, listSlots]
  | cons e es ih => simp [Supplied, listSlots, ih, and_assoc]

theorem mono (h : Supplied known es) (hk : ∀ x ∈ known, x ∈ known') : Supplied known' es := by
  induction es generalizing known known' with
  | nil => trivial
  | cons e es ih =>
    refine ⟨h.1.mono hk, ih h.2 fun x hx => ?_⟩
    rcases List.mem_append.1 hx with hx | hx
    · exact List.mem_append_left _ (hk x hx)
    · exact List.mem_append_right _ hx

theorem count_write (h : Supplied known es) {x : String} (hx : isSlotName x = true) :
    (listAccesses es).count (.write x) = (listSlots es).count x := by
  induction es generalizing known with
  | nil => rfl
  | cons e es ih =>
    simp only [listAccesses, listSlots, List.count_append, ih h.2]
    congr 1
    rcases e.step_cases with ⟨y, value, hy, rfl⟩ | heq
    · have hvalue := h.1
      rw [inputs_fill hy] at hvalue
      rw [slots_fill hy, accesses_fill, List.count_cons, hvalue.count_write hx, List.count_singleton]
      simp
    · have hreads := heq ▸ h.1
      rw [hreads.slots_eq_nil, hreads.count_write hx]
      rfl

theorem name_mem (h : Supplied known es) {a : Access} (ha : a ∈ listAccesses es)
    (hslot : isSlotName a.name = true) : a.name ∈ known ++ listSlots es := by
  induction es generalizing known with
  | nil => cases ha
  | cons e es ih =>
    have hinput (ha : a ∈ e.inputs) : a.name ∈ known ++ listSlots (e :: es) := by
      obtain ⟨x, hx, rfl⟩ := h.1 a ha hslot
      exact List.mem_append_left _ hx
    rcases List.mem_append.1 ha with ha | ha
    · rcases e.step_cases with ⟨y, value, hy, rfl⟩ | heq
      · rcases List.mem_cons.1 ha with rfl | ha
        · simp [listSlots, hy]
        · exact hinput (by rwa [inputs_fill hy])
      · exact hinput (heq ▸ ha)
    · have hmem := ih h.2 ha
      rwa [List.append_assoc] at hmem

end Supplied

/-- Whether steps fill `k` slots, numbered from `n` up to `m`, and what is left reads no others. -/
structure Fills (n m : SlotNumber) (k : Nat) (before left : List Expr) : Prop where
  next : m = n + .ofNat k
  slots : listSlots before = drawn n k
  steps : Supplied [] before
  left : OnlyReads (drawn n k) (listAccesses left)

namespace Fills

variable {n m m' : SlotNumber} {j k : Nat} {before before' left left' : List Expr} {e : Expr}

theorem nothing (h : ∀ a ∈ listAccesses left, isSlotName a.name = false) :
    Fills n n 0 [] left :=
  ⟨(UInt64.add_zero n).symm, rfl, trivial, .of_clean h⟩

theorem append (h : Fills n m j before left) (h' : Fills m m' k before' left') :
    Fills n m' (j + k) (before ++ before') (left ++ left') where
  next := by rw [h'.next, h.next, UInt64.add_assoc, UInt64.ofNat_add]
  slots := by rw [listSlots_append, h.slots, h'.slots, h.next, drawn_add]
  steps := Supplied.append_iff.2 ⟨h.steps, h'.steps.mono nofun⟩
  left := by
    rw [listAccesses_append, drawn_add, ← h.next]
    exact .append (h.left.mono fun _ => List.mem_append_left _)
      (h'.left.mono fun _ => List.mem_append_right _)

theorem replace (h : Fills n m k before left)
    (hsub : ∀ a ∈ listAccesses left', a ∈ listAccesses left ∨ isSlotName a.name = false) :
    Fills n m k before left' :=
  ⟨h.next, h.slots, h.steps, h.left.of_subset hsub⟩

theorem store (h : Fills n m k before [e]) :
    Fills n (m + 1) (k + 1) (before ++ [.assign .set (.ident (slotName m)) e])
      [.ident (slotName m)] where
  next := by rw [h.next, UInt64.add_assoc, UInt64.ofNat_add]; rfl
  slots := by rw [listSlots_append, listSlots_store, h.slots, drawn_succ, ← h.next]
  steps := by
    refine Supplied.append_iff.2 ⟨h.steps, ?_, trivial⟩
    rw [inputs_fill (isSlotName_slotName m), List.nil_append, h.slots]
    exact h.left.left
  left := by
    intro a ha _
    obtain rfl := List.mem_singleton.1 ha
    refine ⟨slotName m, ?_, rfl⟩
    rw [drawn_succ, ← h.next]
    exact List.mem_append_right _ (List.mem_singleton_self _)

theorem perform (h : Fills n m k before [e]) : Fills n m k (before ++ [e]) [] := by
  have hreads : OnlyReads (drawn n k) e.accesses := h.left.left
  refine ⟨h.next, ?_, Supplied.append_iff.2 ⟨h.steps, ?_, trivial⟩, nofun⟩
  · rw [listSlots_append, h.slots]
    simp [listSlots, hreads.slots_eq_nil]
  · rw [List.nil_append, h.slots]
    exact fun a ha => hreads a (mem_accesses_of_mem_inputs ha)

theorem also (h : Fills n m k before left) (h' : OnlyReads (drawn n k) (listAccesses left')) :
    Fills n m k before (left' ++ left) :=
  ⟨h.next, h.slots, h.steps, by rw [listAccesses_append]; exact h'.append h.left⟩

theorem drop (h : Fills n m k before left) : Fills n m k before [] :=
  ⟨h.next, h.slots, h.steps, nofun⟩

theorem effects {h : Hoisted} (hf : Fills n m k h.before [h.rest]) :
    Fills n m k h.effects [] := by
  unfold Hoisted.effects
  split
  · exact hf.drop
  · exact hf.perform

theorem spill {n m m' : SlotNumber} {k : Nat} {before : List Expr} {s : Hoisted} (e : Expr)
    (h : Fills n m k before [e]) (hr : e.spill.run m = .ok (s, m')) :
    ∃ j ≤ 1, Fills n m' (k + j) (before ++ s.before) [s.rest] := by
  rcases run_spill_ok e s m m' hr with ⟨d, t, rfl, ht, rfl⟩ | ⟨-, rfl, rfl⟩ | ⟨rfl, rfl⟩
  · obtain ⟨j, hj, hf⟩ := Fills.spill d (h.replace fun a ha => .inl ha) ht
    exact ⟨j, hj, hf.replace fun a ha => .inl ha⟩
  · exact ⟨0, Nat.zero_le 1, by simpa using h⟩
  · exact ⟨1, Nat.le_refl 1, h.store⟩
termination_by sizeOf e

theorem settle {later : Bool} {h s : Hoisted} (hf : Fills n m k h.before [h.rest])
    (hr : (h.settle later).run m = .ok (s, m')) :
    ∃ j ≤ 1, Fills n m' (k + j) s.before [s.rest] := by
  rw [Hoisted.settle] at hr
  split at hr
  · simp only [run_bind_ok, run_pure_ok] at hr
    obtain ⟨t, i, ht, rfl, rfl⟩ := hr
    exact Fills.spill _ hf ht
  · obtain ⟨rfl, rfl⟩ := (run_pure_ok ..).1 hr
    exact ⟨0, Nat.zero_le 1, hf⟩

end Fills

def Clean (accesses : List Access) : Prop := ∀ a ∈ accesses, isSlotName a.name = false

instance (accesses : List Access) : Decidable (Clean accesses) :=
  inferInstanceAs (Decidable (∀ a ∈ accesses, isSlotName a.name = false))

section Clean

variable {as bs : List Access}

theorem clean_nil : Clean [] := nofun

theorem clean_append : Clean (as ++ bs) ↔ Clean as ∧ Clean bs := by
  simp [Clean, or_imp, forall_and]

theorem clean_aim {target : Expr} (h : Clean (target.aim as)) : Clean as := by
  unfold Expr.aim at h
  split at h
  · exact fun a ha => h a.toWrite (List.mem_map_of_mem ha)
  · exact h

theorem accesses_ofItems (es : List Expr) : (Expr.ofItems es).accesses = listAccesses es := by
  unfold Expr.ofItems
  split
  · exact (List.append_nil _).symm
  · rfl

theorem clean_operands {e : Expr} (h : Clean e.accesses) : Clean (listAccesses e.operands) := by
  intro a ha
  have hmem : a.name ∈ listUses e.operands := listUses_eq e.operands ▸ List.mem_map_of_mem ha
  have hmem := operands_uses e _ hmem
  rw [uses_eq] at hmem
  obtain ⟨b, hb, heq⟩ := List.mem_map.1 hmem
  rw [← heq]
  exact h b hb

end Clean

/-- The parts of a member that is assigned to are spilled, a name stays. -/
theorem spillTarget_fills {n m : SlotNumber} {target : Expr} {t : Hoisted}
    (ht : Clean target.accesses) (hr : target.spillTarget.run n = .ok (t, m)) :
    ∃ j ≤ 2, Fills n m j t.before [t.rest] ∧ (t.rest.isIdent = true → Clean t.rest.accesses) := by
  have hsingle {e : Expr} (he : Clean e.accesses) : Clean (listAccesses [e]) :=
    clean_append.2 ⟨he, (by rintro _ ⟨⟩)⟩
  rw [Expr.spillTarget.eq_def] at hr
  split at hr
  · rename_i object name
    have hobject : Clean object.accesses := ht
    simp only [run_bind_ok, run_pure_ok] at hr
    obtain ⟨o, k, ho, rfl, rfl⟩ := hr
    obtain ⟨j, hj, hf⟩ := Fills.spill _ (.nothing (hsingle hobject)) ho
    exact ⟨0 + j, by omega, hf.replace fun a ha => .inl ha, (by rintro ⟨⟩)⟩
  · rename_i object key
    obtain ⟨hobject, hkey⟩ := clean_append.1 ht
    simp only [run_bind_ok, run_pure_ok] at hr
    obtain ⟨o, k, ho, i, k', hi, rfl, rfl⟩ := hr
    obtain ⟨j, hj, hf⟩ := Fills.spill _ (.nothing (hsingle hobject)) ho
    obtain ⟨j', hj', hf'⟩ := Fills.spill _ (.nothing (hsingle hkey)) hi
    refine ⟨0 + j + (0 + j'), by omega, (hf.append hf').replace fun a ha => .inl ?_, (by rintro ⟨⟩)⟩
    simpa [listAccesses, Expr.accesses] using ha
  · obtain ⟨rfl, rfl⟩ := (run_pure_ok ..).1 hr
    exact ⟨0, Nat.zero_le 2, .nothing (hsingle ht), fun _ => ht⟩

theorem Fills.assign {n m : SlotNumber} {k : Nat} {before : List Expr} {op : AssignOp}
    {target value : Expr} (h : Fills n m k before [target, value])
    (ht : target.isIdent = true → Clean target.accesses) :
    Fills n m k before [.assign op target value] := by
  refine h.replace fun a ha => ?_
  simp only [listAccesses, Expr.accesses, Expr.aim, List.append_nil, List.mem_append] at ha ⊢
  rcases ha with ha | ha
  · split at ha
    · rename_i hident
      obtain ⟨b, hb, rfl⟩ := List.mem_map.1 ha
      exact .inr (ht hident b hb)
    · exact .inl (.inl ha)
  · exact .inl (.inr ha)

namespace Hoisting

def source : Hoisting → List Expr
  | .expr e _ => [e]
  | .operands es _ _ | .effects es _ | .items es _ => es

def before : Hoisting → List Expr
  | .expr _ h | .items _ h => h.before
  | .operands _ before _ | .effects _ before => before

def left : Hoisting → List Expr
  | .expr _ h | .items _ h => [h.rest]
  | .operands _ _ rest => rest
  | .effects _ _ => []

/-- A bound for the slots that hoisting draws. An expression may be spilled afterwards, which takes one
more. -/
noncomputable def slotBound : Hoisting → Nat
  | .expr e _ => 2 * sizeOf e - 1
  | .items es _ => 2 * totalSize es - 1
  | .operands es _ _ | .effects es _ => 2 * totalSize es

end Hoisting

theorem Suspends.spec {inAsync : Bool} {wrap : Expr → Expr} (h : Suspends inAsync wrap) (e : Expr) :
    (wrap e).accesses = e.accesses ∧ sizeOf e < sizeOf (wrap e) := by
  cases h <;> exact ⟨rfl, by simp <;> omega⟩

theorem isSimpleEffect_fills {n : SlotNumber} {e : Expr} (he : Clean e.accesses) :
    Fills n n 0 [e] [] := by
  have hnone : Fills n n 0 [] [e] := .nothing (clean_append.2 ⟨he, nofun⟩)
  exact hnone.perform

/-- Hoisting fills consecutive slots if the code has none of its own. -/
theorem Hoists.fills {inAsync : Bool} {n m : SlotNumber} {w : Hoisting} (h : Hoists inAsync n w m)
    (hw : Clean (listAccesses w.source)) :
    ∃ k ≤ w.slotBound, Fills n m k w.before w.left := by
  have hsingle {e : Expr} (he : Clean e.accesses) : Clean (listAccesses [e]) :=
    clean_append.2 ⟨he, nofun⟩
  induction h with
  | plain he => exact ⟨0, Nat.zero_le _, .nothing hw⟩
  | @bare n e hb =>
    have hpos := sizeOf_pos e
    exact ⟨0 + 1, by simp only [Hoisting.slotBound]; omega, (Fills.nothing hw).store⟩
  | @suspend n m wrap e h hs hh ih =>
    obtain ⟨heq, hlt⟩ := hs.spec e
    obtain ⟨k, hk, hf⟩ := ih (hsingle (heq ▸ (clean_append.1 hw).1))
    have hwrap : Fills n m k h.before [wrap h.rest] := hf.replace fun a ha => .inl <| by
      simpa [Hoisting.left, listAccesses, (hs.spec h.rest).1] using ha
    simp only [Hoisting.slotBound] at hk ⊢
    exact ⟨k + 1, by omega, hwrap.store⟩
  | @composite n m e before rest hs hc hh ih =>
    have he := (clean_append.1 hw).1
    obtain ⟨k, hk, hf⟩ := ih (clean_operands he)
    have hlt := totalSize_operands e
    simp only [Hoisting.slotBound] at hk ⊢
    refine ⟨k, by omega, hf.replace fun a ha => ?_⟩
    rcases accesses_withOperands e rest a (by simpa [Hoisting.left, listAccesses] using ha) with h | h
    · exact .inl h
    · exact .inr (he a h)
  | @assign n k m target value t v hv ht hspill hh ih =>
    obtain ⟨htarget, hvalue⟩ := clean_append.1 (clean_append.1 hw).1
    obtain ⟨i, hi, hf, hident⟩ := spillTarget_fills (clean_aim htarget) hspill
    obtain ⟨j, hj, hf'⟩ := ih (hsingle hvalue)
    have hpos := sizeOf_pos target
    simp only [Hoisting.slotBound, Expr.assign.sizeOf_spec] at hj ⊢
    exact ⟨i + j, by omega, .assign (hf.append hf') hident⟩
  | @compound n k k' m op bin target value t old v hop hv ht hspill hold hh ih =>
    obtain ⟨htarget, hvalue⟩ := clean_append.1 (clean_append.1 hw).1
    obtain ⟨i, hi, hf, hident⟩ := spillTarget_fills (clean_aim htarget) hspill
    obtain ⟨i', hi', hf'⟩ := Fills.spill _ hf hold
    have hboth : Fills n k' (i + i') (t.before ++ old.before) ([t.rest] ++ [old.rest]) :=
      hf'.also <| hf.left.mono fun x hx => drawn_add n i i' ▸ List.mem_append_left _ hx
    obtain ⟨j, hj, hf''⟩ := ih (hsingle hvalue)
    have hpos := sizeOf_pos target
    simp only [Hoisting.slotBound, Expr.assign.sizeOf_spec] at hj ⊢
    refine ⟨i + i' + j, by omega, .assign (.replace (hboth.append hf'') fun a ha => .inl ?_) hident⟩
    simpa [Hoisting.left, listAccesses, Expr.accesses] using ha
  | @sequence n m es h hs hh ih =>
    obtain ⟨k, hk, hf⟩ := ih (clean_append.1 hw).1
    have hlt := totalSize_lt es
    simp only [Hoisting.slotBound, Expr.seq.sizeOf_spec] at hk ⊢
    exact ⟨k, by omega, hf⟩
  | noOperand | noEffect => exact ⟨0, Nat.zero_le _, .nothing nofun⟩
  | @operand n k k' m e es before rest h s hh hsettle hrest ih ih' =>
    obtain ⟨he, hes⟩ := clean_append.1 hw
    obtain ⟨j, hj, hf⟩ := ih (hsingle he)
    obtain ⟨i, hi, hf⟩ := hf.settle hsettle
    obtain ⟨j', hj', hf'⟩ := ih' hes
    have hpos := sizeOf_pos e
    simp only [Hoisting.slotBound, totalSize_cons] at hj hj' ⊢
    exact ⟨j + i + j', by omega, hf.append hf'⟩
  | @innerEffects n k m inner es first rest hh hrest ih ih' =>
    obtain ⟨hinner, hes⟩ := clean_append.1 hw
    obtain ⟨j, hj, hf⟩ := ih hinner
    obtain ⟨j', hj', hf'⟩ := ih' hes
    have hlt := totalSize_lt inner
    simp only [Hoisting.slotBound, totalSize_cons, Expr.seq.sizeOf_spec] at hj hj' ⊢
    exact ⟨j + j', by omega, hf.append hf'⟩
  | @simpleEffect n m e es rest hs hh ih =>
    obtain ⟨he, hes⟩ := clean_append.1 hw
    obtain ⟨j, hj, hf⟩ := ih hes
    simp only [Hoisting.slotBound, totalSize_cons] at hj ⊢
    exact ⟨0 + j, by omega, (isSimpleEffect_fills he).append hf⟩
  | @effect n k m e es rest h hh hrest ih ih' =>
    obtain ⟨he, hes⟩ := clean_append.1 hw
    obtain ⟨j, hj, hf⟩ := ih (hsingle he)
    obtain ⟨j', hj', hf'⟩ := ih' hes
    simp only [Hoisting.slotBound, totalSize_cons] at hj hj' ⊢
    exact ⟨j + j', by omega, (Fills.effects hf).append hf'⟩
  | @lastItem n m e h hh ih =>
    obtain ⟨k, hk, hf⟩ := ih hw
    simp only [Hoisting.slotBound, totalSize_cons, totalSize_nil] at hk ⊢
    exact ⟨k, by omega, hf⟩
  | @item n k m e es first h hfirst hs hh ih ih' =>
    obtain ⟨he, hes⟩ := clean_append.1 hw
    obtain ⟨j, hj, hf⟩ := ih (hsingle he)
    obtain ⟨j', hj', hf'⟩ := ih' hes
    have hpos : 0 < totalSize es := totalSize_pos fun h => by simp [h] at hs
    simp only [Hoisting.slotBound, totalSize_cons, totalSize_nil] at hj hj' ⊢
    exact ⟨j + j', by omega, hf.append hf'⟩
  | @lastEffect n m e es first hfirst hne hs ih =>
    obtain ⟨he, hes⟩ := clean_append.1 hw
    obtain ⟨j, hj, hf⟩ := ih (hsingle he)
    have hpos := totalSize_pos hne
    simp only [Hoisting.slotBound, totalSize_cons, totalSize_nil] at hj ⊢
    refine ⟨j, by omega, hf.replace fun a ha => .inr (hes a ?_)⟩
    simpa [Hoisting.left, listAccesses, accesses_ofItems] using ha

theorem Fills.slot_uses {n m : SlotNumber} {k : Nat} {before : List Expr} {r : Expr}
    (hf : Fills n m k before [r]) {x : String} (hx : x ∈ r.uses) (hslot : isSlotName x = true) :
    x ∈ listSlots before := by
  rw [uses_eq] at hx
  obtain ⟨a, ha, rfl⟩ := List.mem_map.1 hx
  obtain ⟨y, hy, rfl⟩ := hf.left a (List.mem_append_left _ ha) hslot
  rwa [hf.slots]

theorem Fills.inert_uses {n m : SlotNumber} {k : Nat} {before : List Expr} {r : Expr}
    (hf : Fills n m k before [r]) (hi : r.isInert = true) :
    ∀ x ∈ r.uses, x ∈ listSlots before := by
  intro x hx
  refine hf.slot_uses hx ?_
  cases r with
  | ident name =>
    obtain rfl := List.mem_singleton.1 hx
    exact hi
  | null | bool | num | str => cases hx
  | _ => cases hi

theorem clean_of_listUses {es : List Expr} (h : ∀ x ∈ listUses es, isSlotName x = false) :
    Clean (listAccesses es) := by
  intro a ha
  refine h a.name ?_
  rw [listUses_eq]
  exact List.mem_map_of_mem ha

theorem clean_of_uses {e : Expr} (h : ∀ x ∈ e.uses, isSlotName x = false) :
    Clean (listAccesses [e]) :=
  clean_of_listUses (by simpa [listUses] using h)

end Resumable
