import Mathlib
import Resumable.Proofs.Closing.Uses
import Resumable.Proofs.Machine.Blind
import Resumable.Proofs.Machine.Finally

/-!
How the loops of a plan use their iterators, turn by turn, from the opening of an iterator to the turn
that leaves its frame. Main statement: `iterators_are_closed`: whether a loop runs whole or in turns of
an instance, and where a pattern takes elements, an iterator is closed exactly if it is left early.
-/

set_option autoImplicit false

namespace Resumable

/-- The frame of a loop, and the frames around it. -/
structure LoopFrame where
  record : IteratorRecord
  scopes : Nat
  loops : Nat
  outer : List Frame

namespace LoopFrame

def frames (l : LoopFrame) : List Frame := ⟨.iterator l.record, l.scopes, l.loops⟩ :: l.outer

/-- Frames with another iterator in place of that of the loop. -/
def Swapped (l : LoopFrame) (fs : List Frame) : Prop :=
  ∃ iterator next, fs = ⟨.iterator { l.record with iterator, next }, l.scopes, l.loops⟩ :: l.outer

end LoopFrame

section Steps

variable (host : Host) (l : LoopFrame)

/-- How a run that has begun inside a loop goes on with the iterator of the loop. -/
inductive Proceeds (F : List Frame → Run Turn) (w : World) : List Use → Turn → World → Prop where
  /-- The loop is not left, and its iterator is not looked at: another one would make no
  difference. -/
  | idle {t : Turn} {inner : List Frame} {w' : World} :
    (∀ fs, l.Swapped fs → F fs w = .done (t.onto (inner ++ fs)) w') →
    Proceeds F w [] (t.onto (inner ++ l.frames)) w'
  /-- A signal comes out to the loop. The iterator, not looked at before, is closed, and the signal
  goes on. -/
  | closed {g : Instance} {s : Signal} {t : Turn} {w₁ w₂ w' : World} :
    (∀ fs, l.Swapped fs → F fs w = g.unwindThrough host s fs w₁) →
    s.goesPast (l.outer.length + 1) = true →
    closeIterator host l.record.iterator s.isThrow w₁ = .done () w₂ →
    (g.cut l.scopes l.loops).unwindThrough host s l.outer w₂ = .done t w' →
    Proceeds F w [.closed] t w'
  /-- An exception from closing the iterator takes the place of a signal that is none itself. -/
  | overtaken {g : Instance} {s : Signal} {v : Value} {t : Turn} {w₁ w₂ w' : World} :
    (∀ fs, l.Swapped fs → F fs w = g.unwindThrough host s fs w₁) →
    s.goesPast (l.outer.length + 1) = true → s.isThrow = false →
    closeIterator host l.record.iterator false w₁ = .abrupt (.throw v) w₂ →
    (g.cut l.scopes l.loops).unwindThrough host (.throw v) l.outer w₂ = .done t w' →
    Proceeds F w [.closed] t w'

/-- How a loop gets a result of its iterator: at once, or after it was awaited. -/
inductive Answered (t : Turn) (w : World) : Cause → Instance → Value → World → Prop where
  | call {g : Instance} {kind : Option VarKind} {pattern : Pattern} {body exit : Nat}
    {result : Value} {w' : World} : t = .goOn g → l.record.callNext host [] w = .done result w' →
    Answered t w (.instr (.moveNext kind pattern body exit false)) g result w'
  | awaited {found : Instance} {result : Value} : found.awaiting = some .result →
    Answered t w (.resume found (.settled (.fulfilled result))) { found with awaiting := none }
      result w

end Steps

section Turns

variable {host : Host} {l : LoopFrame} {plan : Plan} {M : StackMap} {E : Marks}

theorem unwindThrough_length {g : Instance} {s : Signal} {fs : List Frame} {t : Turn}
    {w w' : World} (h : g.unwindThrough host s fs w = .done t w') (ht : t.hasFailed = false) :
    t.frames.length ≤ fs.length :=
  (unwindThrough_delivered s fs w t w' h).length_le ht

theorem Turn.Clear.onto {t : Turn} {inner fs : List Frame} (h : t.Clear plan E inner)
    (ht : t.hasFailed = false) : (t.onto fs).subject.Clear plan E inner := by
  have h := h ht
  cases t <;> exact ⟨h.plan_eq, h.loops, h.pending, h.ip⟩

section Results

variable {g : Instance} {result : Value} {w : World}

variable (h : malformed? w.heap result = none)

include h

end Results

section Live

variable (hM : M.Maps plan) (hE : E.Mark plan) (hh : host.Proper)
  (hends : ∀ ip next, plan.get? ip = some (.exitTry next false) →
    ∀ o c, M ip = .iterator o :: c → plan.EndsLoop ip)

include hM hE hh hends

end Live

end Turns

namespace Course

variable {host : Host} {first : Instance}

end Course

section Loops

variable {host : Host} {plan : Plan} {M : StackMap} {E : Marks} {l : LoopFrame}

theorem Stacked.clear (hE : E.Mark plan) {c : Context} {n : Nat} {fs : List Frame}
    {ls : List LoopScope} (h : Stacked M c n fs ls) (hs : c.Sound plan M) : ∀ l ∈ ls, l.Clear E := by
  induction h with
  | nil => exact nofun
  | scope _ ih | region _ _ ih | iterator _ ih => exact ih hs.2
  | @loop c n fs ls o labels kind onContinue onBreak _ ih =>
    obtain ⟨⟨⟨next, ho⟩, -⟩, hs⟩ := hs
    refine List.forall_mem_cons.2 ⟨⟨?_, fun a ha => ?_⟩, ih hs⟩
    · exact hE.target ho (by simp) nofun nofun
    · have ha : onContinue = some a := ha
      exact hE.target ho (by simp [ha]) nofun nofun

theorem complete_length {g : Instance} {c : Abrupt} {t : Turn} {w w' : World}
    (h : g.complete host c w = .done t w') (ht : t.hasFailed = false) :
    t.frames.length ≤ g.frames.length := by
  have hjump : ∀ label isContinue, g.jump host label isContinue w = .done t w' →
      t.frames.length ≤ g.frames.length := by
    intro label isContinue h
    unfold Instance.jump at h
    cases hj : jumpAmong label isContinue g.loops with
    | some j =>
      rw [hj] at h
      exact unwindThrough_length h ht
    | none =>
      rw [hj] at h
      exact unwindThrough_length h ht
  cases c with
  | ret | throw => exact unwindThrough_length h ht
  | brk | cont => exact hjump _ _ h
  | fatal =>
    cases h
    cases ht

theorem Next.opens (hM : M.Maps plan) (hE : E.Mark plan) {t t' : Turn} {w : World}
    {iterable : Expr} {isAsync overKeys : Bool} {next : Nat} (hgood : t.Good plan M)
    (h : Next host t (.instr (.openIterator iterable isAsync overKeys next)) w t')
    (ht : t'.hasFailed = false) (hlen : t.frames.length < t'.frames.length) :
    t'.subject.Clear plan E [] := by
  cases h with
  | @dispatch g _ _ _ w' hi hd =>
    have hat : g.At plan M (M g.ip) := hgood
    rw [Instance.instr?, hat.plan_eq] at hi
    let opened : Run IteratorRecord := do
      Instance.openIterator host (← iterable.eval host g.scope none) isAsync overKeys
    have hd : g.after host opened (fun record =>
      return .goOn ((g.pushFrame (.iterator record)).goto next)) w = .done t' w' := hd
    obtain ⟨record, w₁, -, h⟩ | ⟨c, w₁, -, h⟩ := attempt_ordinary hd trivial
    · cases h
      refine ⟨hat.plan_eq, hat.stacked.clear hE (hM.sound g.ip), (by rintro _ ⟨⟩), fun _ => ?_⟩
      exact hE.target hi (List.mem_singleton_self next) (by simp) (by simp)
    · exact absurd (complete_length h ht) (Nat.not_le.2 hlen)

end Loops

namespace Course

variable {host : Host} {plan : Plan} {M : StackMap} {E : Marks} {base : ScopeId} {isAsync : Bool}
  (r : Course host (.running plan base isAsync)) (hM : M.Maps plan) (hE : E.Mark plan)
  (hh : host.Proper)
  (hends : ∀ ip next, plan.get? ip = some (.exitTry next false) →
    ∀ o c, M ip = .iterator o :: c → plan.EndsLoop ip)

include hM hE hh hends

end Course

end Resumable
