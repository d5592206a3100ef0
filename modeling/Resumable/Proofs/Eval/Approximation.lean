import Resumable.Proofs.Eval.Statements

/-!
Runs that go the same way as others as far as they go. Main definition: `approximates`. Hosts whose calls
give up earlier run all code the same way up to there.
-/

set_option autoImplicit false

namespace Resumable

/-- Whether a run gives up or goes the same way as another. -/
def Approximates {σ α : Type} (x y : RunOn σ α) : Prop := ∀ s, x s = .exhausted ∨ x s = y s

/-- Runs of which the first gives up or goes the same way as the second. -/
def approximates {σ : Type} [HasWorld σ] : RunRelation σ σ where
  rel := Approximates
  occurs _ := True
  names _ := True
  throw_occurs _ := trivial
  fatal_occurs _ := trivial
  pure _ _ := .inr rfl
  bind := by
    intro α β x y f g hx hf s
    simp only [Bind.bind, RunOn.bind]
    rcases hx s with h | h
    · exact .inl (by rw [h])
    · rw [h]
      cases y s with
      | done a t => exact hf a t
      | abrupt | exhausted => exact .inr rfl
  attempt := by
    intro α β x y f g hx hok herror s
    simp only [Bind.bind, RunOn.bind, RunOn.attempt]
    rcases hx s with h | h
    · exact .inl (by rw [h])
    · rw [h]
      cases y s with
      | done a t => exact hok a t
      | abrupt c t => exact herror c trivial t
      | exhausted => exact .inr rfl
  abrupt _ _ _ := .inr rfl
  exhausted _ := .inl rfl
  heap _ := .inr rfl
  lookup _ _ _ _ := .inr rfl
  has _ _ _ _ := .inr rfl
  this _ _ := .inr rfl
  edit _ _ _ _ := .inr rfl
  newScope _ _ := .inr rfl
  copyScope _ _ := .inr rfl
  declare _ _ _ _ _ := .inr rfl
  assign _ _ _ _ _ := .inr rfl
  define _ _ _ _ _ _ := .inr rfl

namespace Approximates

variable {σ α β : Type} {x y : RunOn σ α}

theorem refl (x : RunOn σ α) : Approximates x x := fun _ => .inr rfl

theorem exhausted (y : RunOn σ α) : Approximates Run.exhausted y := fun _ => .inl rfl

theorem eq_of_ne {s : σ} (h : Approximates x y) (hx : x s ≠ .exhausted) : y s = x s :=
  ((h s).resolve_left hx).symm

theorem bind [HasWorld σ] {f g : α → RunOn σ β} (hx : Approximates x y)
    (hf : ∀ a, Approximates (f a) (g a)) : Approximates (x >>= f) (y >>= g) :=
  approximates.bind hx hf

theorem after [HasWorld σ] (x : RunOn σ α) {f g : α → RunOn σ β}
    (h : ∀ a, Approximates (f a) (g a)) : Approximates (x >>= f) (x >>= g) := .bind (.refl x) h

theorem fuels [HasWorld σ] {n m : Nat} (h : n ≤ m) : (approximates : RunRelation σ σ).Fuels n m :=
  .more h exhausted

end Approximates

end Resumable
