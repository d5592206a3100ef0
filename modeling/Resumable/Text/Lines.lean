/-!
Lines of a text. A newline ends a line, and a carriage return right before it is part of the end.
What follows the last newline is a line as well, unless there is nothing. Main statement: lines
that hold no newline and do not end in a carriage return are read back as they were written.
-/

set_option autoImplicit false

namespace Resumable.Text

def joinLines (lines : List String) : String := String.join (lines.map (· ++ "\n"))

def extendLine (c : Char) : List (List Char) → List (List Char)
  | [] => [[c]]
  | line :: lines => (c :: line) :: lines

def linesOf : List Char → List (List Char)
  | [] => []
  | '\n' :: cs => [] :: linesOf cs
  | '\r' :: '\n' :: cs => [] :: linesOf cs
  | c :: cs => extendLine c (linesOf cs)

def splitLines (s : String) : List String := (linesOf s.toList).map String.ofList

/-- A line and its end are read as that line, whatever follows. -/
theorem linesOf_append_newline (line rest : List Char) (hn : '\n' ∉ line)
    (hr : line.getLast? ≠ some '\r') : linesOf (line ++ '\n' :: rest) = line :: linesOf rest := by
  induction line with
  | nil => simp [linesOf]
  | cons c cs ih =>
    have hc : c ≠ '\n' := fun h => hn (h ▸ List.mem_cons_self)
    cases cs with
    | nil =>
      have hr : c ≠ '\r' := by simpa using hr
      simp [linesOf, extendLine, hr]
    | cons d ds =>
      have hd : d ≠ '\n' := fun h => hn (by simp [h])
      have := ih (fun h => hn (List.mem_cons_of_mem _ h)) (by simpa using hr)
      simp only [List.cons_append] at this ⊢
      rw [linesOf]
      · rw [this, extendLine]
      · exact hc
      · intro _ _ h
        exact hd (List.cons.inj h).1

theorem splitLines_joinLines (lines : List String)
    (h : ∀ l ∈ lines, '\n' ∉ l.toList ∧ l.toList.getLast? ≠ some '\r') :
    splitLines (joinLines lines) = lines := by
  induction lines with
  | nil => rfl
  | cons l ls ih =>
    have hl := h l List.mem_cons_self
    have := ih fun l' m => h l' (List.mem_cons_of_mem _ m)
    simp only [splitLines, joinLines, String.toList_join] at this ⊢
    simp [linesOf_append_newline _ _ hl.1 hl.2, this]

example : splitLines "a\r\n\nb\rc\r" = ["a", "", "b\rc\r"] := by cbv

end Resumable.Text
