import Resumable.Machine.Unwind
import Resumable.Proofs.Plan.StackMap

/-!
The stacks of an instance against a stack map. `Stacked` says that frames and loops are those of a
context, each with the depths that the others had when it was put there; whatever cuts the stacks
back to such depths is back at a smaller context.
-/

set_option autoImplicit false

namespace Resumable

namespace Context

def scopes : Context → Nat
  | [] => 0
  | .scope :: c => scopes c + 1
  | .region _ _ _ _ :: c | .iterator _ :: c | .loop _ _ _ _ _ :: c => scopes c

def frames : Context → Nat
  | [] => 0
  | .region _ _ _ _ :: c | .iterator _ :: c => frames c + 1
  | .scope :: c | .loop _ _ _ _ _ :: c => frames c

def loops : Context → Nat
  | [] => 0
  | .loop _ _ _ _ _ :: c => loops c + 1
  | .scope :: c | .region _ _ _ _ :: c | .iterator _ :: c => loops c

theorem counts_le {c d : Context} (h : d <:+ c) :
    d.scopes ≤ c.scopes ∧ d.frames ≤ c.frames ∧ d.loops ≤ c.loops := by
  induction c with
  | nil =>
    rw [List.suffix_nil.1 h]
    simp
  | cons s c ih =>
    obtain rfl | h := List.suffix_cons_iff.1 h
    · simp
    · have ih := ih h
      cases s <;> simp only [scopes, frames, loops] <;> omega

theorem Sound.suffix {plan : Plan} {M : StackMap} {c d : Context} (h : c.Sound plan M)
    (hd : d <:+ c) : d.Sound plan M := by
  induction c with
  | nil =>
    rw [List.suffix_nil.1 hd]
    trivial
  | cons s c ih =>
    obtain rfl | hd := List.suffix_cons_iff.1 hd
    · exact h
    · exact ih h.2 hd

end Context

theorem suffix_of_frames_lt {c d e : Context} (hd : d <:+ c) (he : e <:+ c)
    (h : d.frames < e.frames) : d <:+ e := by
  obtain h' | h' := List.suffix_or_suffix_of_suffix hd he
  · exact h'
  · have := (Context.counts_le h').2.1
    omega

section Outermost

variable {α : Type}

open Instance (outermost)

theorem outermost_self (xs : List α) : outermost xs.length xs = xs := by
  simp [outermost]

theorem outermost_cons {n : Nat} {x : α} {xs : List α} (h : n ≤ xs.length) :
    outermost n (x :: xs) = outermost n xs := by
  rw [outermost, outermost, List.length_cons,
    show xs.length + 1 - n = xs.length - n + 1 by omega, List.drop_succ_cons]

theorem length_outermost {n : Nat} {xs : List α} (h : n ≤ xs.length) :
    (outermost n xs).length = n := by
  simp only [outermost, List.length_drop]
  omega

theorem outermost_outermost {m n : Nat} {xs : List α} (hm : m ≤ n) (hn : n ≤ xs.length) :
    outermost m (outermost n xs) = outermost m xs := by
  simp only [outermost, List.length_drop, List.drop_drop]
  congr 1
  omega

end Outermost

def LoopScope.breakable (s : LoopScope) : Breakable := ⟨s.labels, s.kind⟩

theorem accepts_eq_isMeant (s : LoopScope) (label : Option String) (isContinue : Bool) :
    s.accepts label isContinue = s.breakable.isMeant label isContinue := by
  cases label <;> rfl

def Phase.stage : Phase → Stage
  | .body => .body
  | .handler => .handler
  | .finalizer _ => .finalizer

/-- Whether a jump goes back to a context below the given one, and knows its depths. -/
def Jump.LeadsBelow (M : StackMap) (c : Context) (j : Jump) : Prop :=
  M j.target <:+ c ∧ j.scopes = (M j.target).scopes ∧ j.frames = (M j.target).frames ∧
    j.loops = (M j.target).loops

def Signal.LeadsBelow (M : StackMap) (c : Context) : Signal → Prop
  | .jump j => j.LeadsBelow M c
  | .ret _ | .throw _ => True

/-- Whether what goes on after a finally block leads out of the region. -/
def Phase.LeadsBelow (M : StackMap) (c : Context) : Phase → Prop
  | .finalizer (some signal) => signal.LeadsBelow M c
  | .finalizer none | .body | .handler => True

/-- The stacks of a context: so many scopes, these frames and these loops. -/
inductive Stacked (M : StackMap) : Context → Nat → List Frame → List LoopScope → Prop where
  | nil : Stacked M [] 0 [] []
  | scope {c : Context} {n : Nat} {fs : List Frame} {ls : List LoopScope} :
    Stacked M c n fs ls → Stacked M (.scope :: c) (n + 1) fs ls
  | region {c : Context} {n : Nat} {fs : List Frame} {ls : List LoopScope} {o : Nat}
    {onThrow onExit : Option Nat} {phase : Phase} :
    Stacked M c n fs ls → phase.LeadsBelow M c →
    Stacked M (.region o onThrow onExit phase.stage :: c) n
      (⟨.region onThrow onExit phase, n, ls.length⟩ :: fs) ls
  | iterator {c : Context} {n : Nat} {fs : List Frame} {ls : List LoopScope} {o : Nat}
    {record : IteratorRecord} :
    Stacked M c n fs ls →
    Stacked M (.iterator o :: c) n (⟨.iterator record, n, ls.length⟩ :: fs) ls
  | loop {c : Context} {n : Nat} {fs : List Frame} {ls : List LoopScope} {o : Nat}
    {labels : List String} {kind : LoopKind} {onContinue : Option Nat} {onBreak : Nat} :
    Stacked M c n fs ls →
    Stacked M (.loop o labels kind onContinue onBreak :: c) n fs
      (⟨labels, kind, onContinue, onBreak, n, fs.length⟩ :: ls)

namespace Stacked

open Instance (outermost)

variable {M : StackMap} {c : Context} {n : Nat} {fs : List Frame} {ls : List LoopScope}

theorem counts (h : Stacked M c n fs ls) :
    n = c.scopes ∧ fs.length = c.frames ∧ ls.length = c.loops := by
  induction h with
  | nil => exact ⟨rfl, rfl, rfl⟩
  | scope _ ih | region _ _ ih | iterator _ ih | loop _ ih =>
    simp only [Context.scopes, Context.frames, Context.loops, List.length_cons]
    omega

theorem self (h : Stacked M c n fs ls) :
    Stacked M c c.scopes (outermost c.frames fs) (outermost c.loops ls) := by
  obtain ⟨hn, hf, hl⟩ := h.counts
  rwa [← hn, ← hf, ← hl, outermost_self, outermost_self]

theorem suffix (h : Stacked M c n fs ls) {d : Context} (hd : d <:+ c) :
    Stacked M d d.scopes (outermost d.frames fs) (outermost d.loops ls) := by
  induction h with
  | nil =>
    rw [List.suffix_nil.1 hd]
    exact .nil
  | scope h ih =>
    obtain rfl | hd := List.suffix_cons_iff.1 hd
    · exact h.scope.self
    · exact ih hd
  | region h hp ih =>
    obtain rfl | hd := List.suffix_cons_iff.1 hd
    · exact (h.region hp).self
    · rw [outermost_cons (by rw [h.counts.2.1]; exact (Context.counts_le hd).2.1)]
      exact ih hd
  | iterator h ih =>
    obtain rfl | hd := List.suffix_cons_iff.1 hd
    · exact h.iterator.self
    · rw [outermost_cons (by rw [h.counts.2.1]; exact (Context.counts_le hd).2.1)]
      exact ih hd
  | loop h ih =>
    obtain rfl | hd := List.suffix_cons_iff.1 hd
    · exact h.loop.self
    · rw [outermost_cons (by rw [h.counts.2.2]; exact (Context.counts_le hd).2.2)]
      exact ih hd

/-- A break or continue that finds a loop leads to a context below. -/
theorem jumpAmong_leadsBelow {plan : Plan} (h : Stacked M c n fs ls) (hs : c.Sound plan M)
    {label : Option String} {isContinue : Bool} {j : Jump}
    (hj : jumpAmong label isContinue ls = some j) : j.LeadsBelow M c := by
  induction h with
  | nil => cases hj
  | scope _ ih | region _ _ ih | iterator _ ih =>
    obtain ⟨hd, h⟩ := ih hs.2 hj
    exact ⟨hd.trans (List.suffix_cons _ _), h⟩
  | @loop c n fs ls o labels kind onContinue onBreak h ih =>
    obtain ⟨⟨-, -, hbreak, hcontinue, -⟩, hs⟩ := hs
    obtain ⟨rfl, hf, hl⟩ := h.counts
    rw [jumpAmong] at hj
    split at hj
    · cases isContinue with
      | false =>
        cases hj
        simp [Jump.LeadsBelow, hbreak, hf, hl]
      | true =>
        cases onContinue with
        | none => cases hj
        | some a =>
          cases hj
          simp [Jump.LeadsBelow, hcontinue a rfl, hf, hl, Context.scopes, Context.frames,
            Context.loops]
    · obtain ⟨hd, h⟩ := ih hs hj
      exact ⟨hd.trans (List.suffix_cons _ _), h⟩

theorem of_scope (h : Stacked M (.scope :: c) n fs ls) : ∃ m, n = m + 1 ∧ Stacked M c m fs ls := by
  cases h with
  | scope h => exact ⟨_, rfl, h⟩

theorem of_region {o : Nat} {onThrow onExit : Option Nat} {stage : Stage}
    (h : Stacked M (.region o onThrow onExit stage :: c) n fs ls) :
    ∃ phase rest, fs = ⟨.region onThrow onExit phase, n, ls.length⟩ :: rest ∧
      phase.stage = stage ∧ phase.LeadsBelow M c ∧ Stacked M c n rest ls := by
  cases h with
  | region h hp => exact ⟨_, _, rfl, rfl, hp, h⟩

theorem of_iterator {o : Nat} (h : Stacked M (.iterator o :: c) n fs ls) :
    ∃ record rest, fs = ⟨.iterator record, n, ls.length⟩ :: rest ∧ Stacked M c n rest ls := by
  cases h with
  | iterator h => exact ⟨_, _, rfl, h⟩

theorem of_loop {o : Nat} {labels : List String} {kind : LoopKind} {onContinue : Option Nat}
    {onBreak : Nat} (h : Stacked M (.loop o labels kind onContinue onBreak :: c) n fs ls) :
    ∃ rest, ls = ⟨labels, kind, onContinue, onBreak, n, fs.length⟩ :: rest ∧
      Stacked M c n fs rest := by
  cases h with
  | loop h => exact ⟨_, rfl, h⟩

theorem frame (h : Stacked M c n fs ls) {f : Frame} {outer : List Frame} (hf : fs = f :: outer) :
    ∃ (s : Site) (d : Context), s :: d <:+ c ∧ f.scopes = d.scopes ∧ f.loops = d.loops ∧
      outer.length = d.frames ∧
      ((∃ o onThrow onExit phase, s = .region o onThrow onExit phase.stage ∧
          f.kind = .region onThrow onExit phase ∧ phase.LeadsBelow M d) ∨
        ∃ o record, s = .iterator o ∧ f.kind = .iterator record) := by
  induction h with
  | nil => cases hf
  | scope _ ih | loop _ ih =>
    obtain ⟨s, d, hd, h⟩ := ih hf
    exact ⟨s, d, hd.trans (List.suffix_cons _ _), h⟩
  | region h hp =>
    cases hf
    obtain ⟨rfl, hf, hl⟩ := h.counts
    exact ⟨_, _, List.suffix_rfl, rfl, hl, hf, .inl ⟨_, _, _, _, rfl, rfl, hp⟩⟩
  | iterator h =>
    cases hf
    obtain ⟨rfl, hf, hl⟩ := h.counts
    exact ⟨_, _, List.suffix_rfl, rfl, hl, hf, .inr ⟨_, _, rfl, rfl⟩⟩

end Stacked

/-- Whether an instance runs this plan and has at least a context on its stacks, with these
frames. -/
structure Instance.Above (plan : Plan) (M : StackMap) (c : Context) (frames : List Frame)
    (g : Instance) : Prop where
  plan_eq : g.plan = plan
  awaiting_eq : g.awaiting = none
  scopes_le : c.scopes ≤ g.scopes.length
  loops_le : c.loops ≤ g.loops.length
  stacked : Stacked M c c.scopes frames (outermost c.loops g.loops)

/-- Whether an instance runs this plan and has exactly a context on its stacks. -/
structure Instance.At (plan : Plan) (M : StackMap) (c : Context) (g : Instance) : Prop where
  plan_eq : g.plan = plan
  awaiting_eq : g.awaiting = none
  stacked : Stacked M c g.scopes.length g.frames g.loops

namespace Instance

variable {plan : Plan} {M : StackMap} {c d : Context} {frames : List Frame} {g : Instance}

theorem At.above (h : g.At plan M c) : g.Above plan M c g.frames := by
  obtain ⟨hn, hf, hl⟩ := h.stacked.counts
  have hs := h.stacked.self
  rw [← hf, outermost_self] at hs
  exact ⟨h.plan_eq, h.awaiting_eq, by omega, by omega, hs⟩

theorem Above.cut (h : g.Above plan M c frames) (hd : d <:+ c) (ip : Nat) :
    At plan M d { g.cut d.scopes d.loops with frames := outermost d.frames frames, ip } := by
  have hle := Context.counts_le hd
  have hs := h.stacked.suffix hd
  rw [outermost_outermost hle.2.2 h.loops_le] at hs
  refine ⟨h.plan_eq, h.awaiting_eq, ?_⟩
  simp only [Instance.cut, length_outermost (Nat.le_trans hle.1 h.scopes_le)]
  exact hs

theorem Above.suffix (h : g.Above plan M c frames) (hd : d <:+ c) :
    g.Above plan M d (outermost d.frames frames) := by
  have hle := Context.counts_le hd
  have hs := h.stacked.suffix hd
  rw [outermost_outermost hle.2.2 h.loops_le] at hs
  exact ⟨h.plan_eq, h.awaiting_eq, Nat.le_trans hle.1 h.scopes_le,
    Nat.le_trans hle.2.2 h.loops_le, hs⟩

end Instance

end Resumable
