import Resumable.Proofs.Lowering.Lowered

/-!
Bodies in which every jump leads to a construct around it, also the jumps inside statements that a
plan runs whole. Main statement: `lowerBody_jumpsLead`: lowering keeps such a body such.
-/

set_option autoImplicit false

namespace Resumable

mutual

/-- Whether every jump in a statement leads to a construct around it. The labels are those directly
before the statement. -/
def Stmt.jumpsLead (around : List Breakable) (labels : List String) : Stmt → Bool
  | .empty | .expr _ | .throw _ | .ret _ | .declare _ _ | .function _ _ => true
  | .brk label => JumpSite.leads ⟨label, false, enclosed around labels⟩
  | .cont label => JumpSite.leads ⟨label, true, enclosed around labels⟩
  | .labeled label s => s.jumpsLead around (labels ++ [label])
  | .block body => bodyJumpsLead (enclosed around labels) body
  | .ifElse _ y none => y.jumpsLead (enclosed around labels) []
  | .ifElse _ y (some n) =>
    y.jumpsLead (enclosed around labels) [] && n.jumpsLead (enclosed around labels) []
  | .whileDo _ b | .doWhile b _ | .forLoop _ _ _ b | .forIn _ _ b | .forOf _ _ b _ =>
    b.jumpsLead (⟨labels, .loop⟩ :: around) []
  | .tryCatch b none none => bodyJumpsLead (enclosed around labels) b
  | .tryCatch b none (some f) =>
    bodyJumpsLead (enclosed around labels) b && bodyJumpsLead (enclosed around labels) f
  | .tryCatch b (some (.mk _ h)) none =>
    bodyJumpsLead (enclosed around labels) b && bodyJumpsLead (enclosed around labels) h
  | .tryCatch b (some (.mk _ h)) (some f) =>
    bodyJumpsLead (enclosed around labels) b && bodyJumpsLead (enclosed around labels) h &&
      bodyJumpsLead (enclosed around labels) f
  | .switch _ cases => casesJumpsLead (⟨labels, .switch⟩ :: around) cases

def bodyJumpsLead (around : List Breakable) : List Stmt → Bool
  | [] => true
  | s :: ss => s.jumpsLead around [] && bodyJumpsLead around ss

def casesJumpsLead (around : List Breakable) : List Case → Bool
  | [] => true
  | .mk _ body :: cases => bodyJumpsLead around body && casesJumpsLead around cases

end

section Lists

variable (around : List Breakable)

theorem bodyJumpsLead_cons (s : Stmt) (ss : List Stmt) :
    bodyJumpsLead around (s :: ss) = (s.jumpsLead around [] && bodyJumpsLead around ss) := rfl

theorem bodyJumpsLead_append (ss ts : List Stmt) :
    bodyJumpsLead around (ss ++ ts) = (bodyJumpsLead around ss && bodyJumpsLead around ts) := by
  induction ss with
  | nil => rfl
  | cons s ss ih => simp [bodyJumpsLead_cons, ih, Bool.and_assoc]

theorem bodyJumpsLead_of_isStraight {ss : List Stmt} (h : ∀ s ∈ ss, s.isStraight = true) :
    bodyJumpsLead around ss = true := by
  induction ss with
  | nil => rfl
  | cons s ss ih =>
    have hs : s.jumpsLead around [] = true := by
      have := h s (by simp)
      cases s <;> first | rfl | simp [Stmt.isStraight] at this
    rw [bodyJumpsLead_cons, hs, ih fun t ht => h t (by simp [ht]), Bool.and_self]

theorem jumpsLead_ofList (ss : List Stmt) :
    (Stmt.ofList ss).jumpsLead around [] = bodyJumpsLead around ss := by
  rcases ofList_cases ss with ⟨s, rfl, h⟩ | h
  · rw [h, bodyJumpsLead_cons]
    exact (Bool.and_true _).symm
  · exact congrArg (·.jumpsLead around []) h

end Lists

/-- What lowering makes of a statement has jumps in its last statement alone, and they lead where
those of the statement do. -/
structure KeepsJumps (s : Stmt) (ss : List Stmt) : Prop where
  last : ∃ init t, ss = init ++ [t] ∧ (∀ around, bodyJumpsLead around init = true) ∧
    ∀ around labels, t.jumpsLead around labels = s.jumpsLead around labels

namespace KeepsJumps

variable {s t : Stmt} {ss : List Stmt}

theorem body_eq (h : KeepsJumps s ss) (around : List Breakable) :
    bodyJumpsLead around ss = s.jumpsLead around [] := by
  obtain ⟨init, t, rfl, hi, ht⟩ := h.last
  rw [bodyJumpsLead_append, hi, bodyJumpsLead_cons, ht]
  exact Bool.and_true _

theorem ofList_eq (h : KeepsJumps s ss) (around : List Breakable) :
    (Stmt.ofList ss).jumpsLead around [] = s.jumpsLead around [] := by
  rw [jumpsLead_ofList, h.body_eq]

theorem after (es : List Expr)
    (h : ∀ around labels, t.jumpsLead around labels = s.jumpsLead around labels) :
    KeepsJumps s (effectStmts es ++ [t]) :=
  ⟨_, t, rfl, fun around => bodyJumpsLead_of_isStraight around fun _ => effectStmts_isStraight, h⟩

theorem one (h : ∀ around labels, t.jumpsLead around labels = s.jumpsLead around labels) :
    KeepsJumps s [t] :=
  ⟨[], t, rfl, fun _ => rfl, h⟩

theorem straight (hs : s.isStraight = true) (hne : ss ≠ []) (h : ∀ t ∈ ss, t.isStraight = true) :
    KeepsJumps s ss := by
  have hleads : ∀ {t : Stmt}, t.isStraight = true → ∀ around labels,
      t.jumpsLead around labels = true := by
    intro t ht around labels
    cases t <;> first | rfl | simp [Stmt.isStraight] at ht
  refine ⟨ss.dropLast, ss.getLast hne, (List.dropLast_concat_getLast hne).symm, fun around => ?_,
    fun around labels => ?_⟩
  · exact bodyJumpsLead_of_isStraight around fun t ht => h t (ss.dropLast_sublist.subset ht)
  · rw [hleads (h _ (List.getLast_mem hne)), hleads hs]

theorem labeled (label : String) (h : KeepsJumps s ss) :
    KeepsJumps (.labeled label s) (labelLast label ss) := by
  obtain ⟨init, t, rfl, hi, ht⟩ := h.last
  rw [labelLast_append]
  exact ⟨init, .labeled label t, rfl, hi, fun around labels => ht around (labels ++ [label])⟩

theorem ofRun {inAsync : Bool} {n m : SlotNumber} (hr : (s.lower inAsync).run n = .ok (ss, m))
    (h : s.hasSuspend inAsync = true → KeepsJumps s ss) : KeepsJumps s ss := by
  cases hs : s.hasSuspend inAsync with
  | false =>
    rw [Stmt.lower.eq_def] at hr
    simp only [hs, Bool.not_false, ↓reduceIte, run_pure_ok] at hr
    obtain ⟨rfl, -⟩ := hr
    exact .one fun _ _ => rfl
  | true => exact h hs

end KeepsJumps

mutual

theorem Stmt.lower_keepsJumps (inAsync : Bool) : (s : Stmt) → (ss : List Stmt) →
    (n m : SlotNumber) → (s.lower inAsync).run n = .ok (ss, m) → KeepsJumps s ss
  | .empty, ss, n, m, hr | .brk _, ss, n, m, hr | .cont _, ss, n, m, hr
  | .function _ _, ss, n, m, hr | .ret none, ss, n, m, hr => .ofRun hr fun hs => by
    simp [Stmt.hasSuspend] at hs
  | .expr e, ss, n, m, hr => by
    obtain ⟨init, t, rfl, -⟩ := ((Stmt.expr e).lowersTo inAsync ss n m hr).last
    refine .ofRun hr fun hs => .straight rfl (by simp) fun t ht => ?_
    rw [Stmt.lower] at hr
    simp only [run_unless_ok hs, run_bind_ok, run_pure_ok] at hr
    obtain ⟨-, k, -, before, k', -, heq, -⟩ := hr
    exact effectStmts_isStraight (heq ▸ ht)
  | .declare kind ds, ss, n, m, hr => by
    obtain ⟨init, t, rfl, -⟩ := ((Stmt.declare kind ds).lowersTo inAsync ss n m hr).last
    refine .ofRun hr fun hs => .straight rfl (by simp) ?_
    rw [Stmt.lower] at hr
    simp only [run_unless_ok hs] at hr
    exact (lowerDeclarators_sound inAsync kind ds _ n m hr).2.2.2.1
  | .ret (some e), ss, n, m, hr | .throw e, ss, n, m, hr => .ofRun hr fun hs => by
    rw [Stmt.lower] at hr
    simp only [run_unless_ok hs, run_bind_ok, run_pure_ok] at hr
    obtain ⟨h, k, -, rfl, -⟩ := hr
    exact .after _ fun _ _ => rfl
  | .block body, ss, n, m, hr => .ofRun hr fun hs => by
    rw [Stmt.lower] at hr
    simp only [run_unless_ok hs, run_bind_ok, run_pure_ok] at hr
    obtain ⟨b, k, hb, rfl, -⟩ := hr
    exact .one fun around labels => lowerStmts_keepsJumps inAsync body b n k hb _
  | .ifElse test yes none, ss, n, m, hr => .ofRun hr fun hs => by
    rw [Stmt.lower] at hr
    simp only [run_unless_ok hs, run_bind_ok, run_pure_ok] at hr
    obtain ⟨h, k, -, ys, k', hy, rfl, -⟩ := hr
    exact .after _ fun around labels => (yes.lower_keepsJumps inAsync ys k k' hy).ofList_eq _
  | .ifElse test yes (some no), ss, n, m, hr => .ofRun hr fun hs => by
    rw [Stmt.lower] at hr
    simp only [run_unless_ok hs, run_bind_ok, run_pure_ok] at hr
    obtain ⟨h, k, -, ys, k₁, hy, ns, k₂, hn, rfl, -⟩ := hr
    have iy := yes.lower_keepsJumps inAsync ys k k₁ hy
    have ino := no.lower_keepsJumps inAsync ns k₁ k₂ hn
    exact .after _ fun around labels => by simp [Stmt.jumpsLead, iy.ofList_eq, ino.ofList_eq]
  | .whileDo test body, ss, n, m, hr | .doWhile body test, ss, n, m, hr => .ofRun hr fun hs => by
    rw [Stmt.lower] at hr
    simp only [run_unless_ok hs, run_bind_ok, run_pure_ok] at hr
    obtain ⟨t, k, -, bs, k', hb, rfl, -⟩ := hr
    exact .one fun around labels => (body.lower_keepsJumps inAsync bs k k' hb).ofList_eq _
  | .forLoop init test update body, ss, n, m, hr => .ofRun hr fun hs => by
    rw [Stmt.lower] at hr
    simp only [run_unless_ok hs, run_bind_ok, run_pure_ok] at hr
    obtain ⟨⟨before, i⟩, k, -, t, k₁, -, u, k₂, -, bs, k₃, hb, rfl, -⟩ := hr
    exact .after _ fun around labels => (body.lower_keepsJumps inAsync bs k₂ k₃ hb).ofList_eq _
  | .forIn target subject body, ss, n, m, hr | .forOf target subject body _, ss, n, m, hr =>
    .ofRun hr fun hs => by
    rw [Stmt.lower] at hr
    simp only [run_unless_ok hs, run_bind_ok, run_pure_ok] at hr
    obtain ⟨-, k, -, h, k₁, -, bs, k₂, hb, rfl, -⟩ := hr
    exact .after _ fun around labels => (body.lower_keepsJumps inAsync bs k₁ k₂ hb).ofList_eq _
  | .tryCatch block none none, ss, n, m, hr => .ofRun hr fun hs => by
    rw [Stmt.lower] at hr
    simp only [run_unless_ok hs, run_bind_ok, run_pure_ok] at hr
    obtain ⟨b, k, hb, rfl, -⟩ := hr
    exact .one fun around labels => lowerStmts_keepsJumps inAsync block b n k hb _
  | .tryCatch block none (some finalizer), ss, n, m, hr => .ofRun hr fun hs => by
    rw [Stmt.lower] at hr
    simp only [run_unless_ok hs, run_bind_ok, run_pure_ok] at hr
    obtain ⟨f, k, hf, b, k', hb, rfl, -⟩ := hr
    have jf := lowerStmts_keepsJumps inAsync finalizer f n k hf
    have ib := lowerStmts_keepsJumps inAsync block b k k' hb
    exact .one fun around labels => by simp [Stmt.jumpsLead, ib, jf]
  | .tryCatch block (some (.mk param handler)) none, ss, n, m, hr => .ofRun hr fun hs => by
    rw [Stmt.lower] at hr
    simp only [run_unless_ok hs, run_guard_ok, run_bind_ok, run_pure_ok] at hr
    obtain ⟨-, c, k, hc, b, k', hb, rfl, -⟩ := hr
    have ic := lowerStmts_keepsJumps inAsync handler c n k hc
    have ib := lowerStmts_keepsJumps inAsync block b k k' hb
    exact .one fun around labels => by simp [Stmt.jumpsLead, ib, ic]
  | .tryCatch block (some (.mk param handler)) (some finalizer), ss, n, m, hr =>
    .ofRun hr fun hs => by
    rw [Stmt.lower] at hr
    simp only [run_unless_ok hs, run_guard_ok, run_bind_ok, run_pure_ok] at hr
    obtain ⟨-, c, k, hc, f, k', hf, b, k'', hb, rfl, -⟩ := hr
    have ic := lowerStmts_keepsJumps inAsync handler c n k hc
    have jf := lowerStmts_keepsJumps inAsync finalizer f k k' hf
    have ib := lowerStmts_keepsJumps inAsync block b k' k'' hb
    exact .one fun around labels => by simp [Stmt.jumpsLead, ib, ic, jf]
  | .switch subject cases, ss, n, m, hr => .ofRun hr fun hs => by
    rw [Stmt.lower] at hr
    simp only [run_unless_ok hs, run_bind_ok, run_pure_ok] at hr
    obtain ⟨h, k, -, cs, k', hc, rfl, -⟩ := hr
    exact .after _ fun around labels => lowerCases_keepsJumps inAsync cases cs k k' hc _
  | .labeled label body, ss, n, m, hr => .ofRun hr fun hs => by
    rw [Stmt.lower] at hr
    simp only [run_unless_ok hs, run_bind_ok, run_pure_ok] at hr
    obtain ⟨b, k, hb, rfl, -⟩ := hr
    exact (body.lower_keepsJumps inAsync b n k hb).labeled label

theorem lowerStmts_keepsJumps (inAsync : Bool) : (body ss : List Stmt) → (n m : SlotNumber) →
    (lowerStmts inAsync body).run n = .ok (ss, m) →
    ∀ around, bodyJumpsLead around ss = bodyJumpsLead around body
  | [], ss, n, m, hr, around => by
    obtain ⟨rfl, -⟩ := (run_pure_ok ..).1 hr
    rfl
  | s :: body, ss, n, m, hr, around => by
    simp only [lowerStmts, run_bind_ok, run_pure_ok] at hr
    obtain ⟨first, k, hf, rest, k', hrest, rfl, -⟩ := hr
    have h := s.lower_keepsJumps inAsync first n k hf
    have ih := lowerStmts_keepsJumps inAsync body rest k k' hrest around
    rw [bodyJumpsLead_append, bodyJumpsLead_cons, h.body_eq, ih]

theorem lowerCases_keepsJumps (inAsync : Bool) : (cases cs : List Case) → (n m : SlotNumber) →
    (lowerCases inAsync cases).run n = .ok (cs, m) →
    ∀ around, casesJumpsLead around cs = casesJumpsLead around cases
  | [], cs, n, m, hr, around => by
    obtain ⟨rfl, -⟩ := (run_pure_ok ..).1 hr
    rfl
  | .mk test body :: cases, cs, n, m, hr, around => by
    simp only [lowerCases, run_guard_ok, run_bind_ok, run_pure_ok] at hr
    obtain ⟨-, b, k, hb, rest, k', hrest, rfl, -⟩ := hr
    have h := lowerStmts_keepsJumps inAsync body b n k hb around
    have ih := lowerCases_keepsJumps inAsync cases rest k k' hrest around
    simp [casesJumpsLead, h, ih]

end

/-- Jumps lead somewhere in a lowered body just when they do in the body before. -/
theorem lowerBody_jumpsLead {inAsync : Bool} {body : List Stmt} {lowered : LoweredBody}
    (h : lowerBody inAsync body = .ok lowered) (around : List Breakable) :
    bodyJumpsLead around lowered.body = bodyJumpsLead around body := by
  rw [lowerBody] at h
  split at h
  · rename_i ss m hr
    cases h
    exact lowerStmts_keepsJumps inAsync body ss _ m hr around
  · cases h

end Resumable
