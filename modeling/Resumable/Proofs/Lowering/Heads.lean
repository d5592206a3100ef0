import Resumable.Plan.Fragment
import Resumable.Proofs.Lowering.Lowered

/-!
Loops whose turns have bindings of their own. Those that suspend somewhere after their initializer are run
by a plan, all others are evaluated whole. Main statement: `lowerStmts_ownLoops`: lowering keeps them.
-/

set_option autoImplicit false

namespace Resumable

mutual

/-- How many loops with a `let` or `const` head the statement has, outside of nested functions, that
suspend in their test, their update or their body. -/
def Stmt.ownLoops (inAsync : Bool) : Stmt → Nat
  | .empty | .brk _ | .cont _ | .function _ _ | .expr _ | .throw _ | .ret _ | .declare _ _ => 0
  | .block body => bodyOwnLoops inAsync body
  | .ifElse _ y none => y.ownLoops inAsync
  | .ifElse _ y (some n) => y.ownLoops inAsync + n.ownLoops inAsync
  | .whileDo _ b | .doWhile b _ | .forIn _ _ b | .forOf _ _ b _ | .labeled _ b => b.ownLoops inAsync
  | .forLoop i t u b =>
    (i.isScoped && !(Stmt.forLoop i t u b).runsWhole inAsync).toNat + b.ownLoops inAsync
  | .tryCatch b none none => bodyOwnLoops inAsync b
  | .tryCatch b none (some f) => bodyOwnLoops inAsync b + bodyOwnLoops inAsync f
  | .tryCatch b (some (.mk _ h)) none => bodyOwnLoops inAsync b + bodyOwnLoops inAsync h
  | .tryCatch b (some (.mk _ h)) (some f) =>
    bodyOwnLoops inAsync b + bodyOwnLoops inAsync h + bodyOwnLoops inAsync f
  | .switch _ cases => caseOwnLoops inAsync cases

def bodyOwnLoops (inAsync : Bool) : List Stmt → Nat
  | [] => 0
  | s :: ss => s.ownLoops inAsync + bodyOwnLoops inAsync ss

def caseOwnLoops (inAsync : Bool) : List Case → Nat
  | [] => 0
  | .mk _ body :: cases => bodyOwnLoops inAsync body + caseOwnLoops inAsync cases

end

variable {inAsync : Bool}

theorem bodyOwnLoops_cons (s : Stmt) (ss : List Stmt) :
    bodyOwnLoops inAsync (s :: ss) = s.ownLoops inAsync + bodyOwnLoops inAsync ss := rfl

theorem bodyOwnLoops_singleton (s : Stmt) : bodyOwnLoops inAsync [s] = s.ownLoops inAsync := rfl

theorem bodyOwnLoops_append (ss ts : List Stmt) :
    bodyOwnLoops inAsync (ss ++ ts) = bodyOwnLoops inAsync ss + bodyOwnLoops inAsync ts := by
  induction ss with
  | nil => exact (Nat.zero_add _).symm
  | cons s ss ih => simp [bodyOwnLoops_cons, ih, Nat.add_assoc]

theorem bodyOwnLoops_of_isStraight {ss : List Stmt} (h : ∀ s ∈ ss, s.isStraight = true) :
    bodyOwnLoops inAsync ss = 0 := by
  induction ss with
  | nil => rfl
  | cons s ss ih =>
    have hs : s.ownLoops inAsync = 0 := by
      have hs := h s (by simp)
      cases s <;> first | rfl | cases hs
    rw [bodyOwnLoops_cons, hs, ih fun t ht => h t (by simp [ht])]

theorem bodyOwnLoops_after (es : List Expr) (s : Stmt) :
    bodyOwnLoops inAsync (effectStmts es ++ [s]) = s.ownLoops inAsync := by
  have h : bodyOwnLoops inAsync (effectStmts es) = 0 :=
    bodyOwnLoops_of_isStraight fun t ht => effectStmts_isStraight ht
  rw [bodyOwnLoops_append, h, bodyOwnLoops_singleton, Nat.zero_add]

@[simp] theorem ownLoops_ofList (ss : List Stmt) :
    (Stmt.ofList ss).ownLoops inAsync = bodyOwnLoops inAsync ss := by
  rcases ofList_cases ss with ⟨s, rfl, h⟩ | h
  · rw [h, bodyOwnLoops_singleton]
  · exact congrArg (·.ownLoops inAsync) h

theorem bodyOwnLoops_labelLast (label : String) (ss : List Stmt) :
    bodyOwnLoops inAsync (labelLast label ss) = bodyOwnLoops inAsync ss := by
  rcases ss.eq_nil_or_concat with rfl | ⟨init, t, rfl⟩
  · rfl
  · rw [List.concat_eq_append, labelLast_append, bodyOwnLoops_append, bodyOwnLoops_append]
    rfl

mutual

theorem ownLoops_of_plain : (s : Stmt) → s.hasSuspend inAsync = false → s.ownLoops inAsync = 0
  | .empty, _ | .brk _, _ | .cont _, _ | .function _ _, _ | .expr _, _ | .throw _, _ | .ret _, _
  | .declare _ _, _ => rfl
  | .block b, h => bodyOwnLoops_of_plain b h
  | .ifElse t y none, h => by
    simp only [Stmt.hasSuspend, Bool.or_eq_false_iff] at h
    exact ownLoops_of_plain y h.2
  | .ifElse t y (some n), h => by
    simp only [Stmt.hasSuspend, Bool.or_eq_false_iff] at h
    simp [Stmt.ownLoops, ownLoops_of_plain y h.1.2, ownLoops_of_plain n h.2]
  | .whileDo t b, h | .doWhile b t, h => by
    simp only [Stmt.hasSuspend, Bool.or_eq_false_iff] at h
    exact ownLoops_of_plain b h.2
  | .forLoop i t u b, h => by
    have hw := runsWhole_of_plain inAsync _ h
    simp only [Stmt.hasSuspend, Bool.or_eq_false_iff] at h
    simp [Stmt.ownLoops, hw, ownLoops_of_plain b h.2]
  | .forIn p e b, h | .forOf p e b _, h => by
    simp only [Stmt.hasSuspend, Bool.or_eq_false_iff] at h
    exact ownLoops_of_plain b h.1.2
  | .tryCatch b none none, h => bodyOwnLoops_of_plain b h
  | .tryCatch b none (some f), h => by
    simp only [Stmt.hasSuspend, Bool.or_eq_false_iff] at h
    simp [Stmt.ownLoops, bodyOwnLoops_of_plain b h.1, bodyOwnLoops_of_plain f h.2]
  | .tryCatch b (some (.mk p c)) none, h => by
    simp only [Stmt.hasSuspend, Bool.or_eq_false_iff] at h
    simp [Stmt.ownLoops, bodyOwnLoops_of_plain b h.1.1, bodyOwnLoops_of_plain c h.1.2]
  | .tryCatch b (some (.mk p c)) (some f), h => by
    simp only [Stmt.hasSuspend, Bool.or_eq_false_iff] at h
    simp [Stmt.ownLoops, bodyOwnLoops_of_plain b h.1.1.1, bodyOwnLoops_of_plain c h.1.1.2,
      bodyOwnLoops_of_plain f h.2]
  | .switch e cases, h => by
    simp only [Stmt.hasSuspend, Bool.or_eq_false_iff] at h
    exact caseOwnLoops_of_plain cases h.2
  | .labeled _ s, h => ownLoops_of_plain s h

theorem bodyOwnLoops_of_plain : (ss : List Stmt) → anySuspend inAsync ss = false →
    bodyOwnLoops inAsync ss = 0
  | [], _ => rfl
  | s :: ss, h => by
    simp only [anySuspend, Bool.or_eq_false_iff] at h
    simp [bodyOwnLoops, ownLoops_of_plain s h.1, bodyOwnLoops_of_plain ss h.2]

theorem caseOwnLoops_of_plain : (cases : List Case) → casesHaveSuspend inAsync cases = false →
    caseOwnLoops inAsync cases = 0
  | [], _ => rfl
  | .mk t body :: cases, h => by
    simp only [casesHaveSuspend, Bool.or_eq_false_iff] at h
    simp [caseOwnLoops, bodyOwnLoops_of_plain body h.1.2, caseOwnLoops_of_plain cases h.2]

end

theorem ForInit.lower_isScoped {init init' : ForInit} {before : List Expr} {n m : SlotNumber}
    (hr : (init.lower inAsync).run n = .ok ((before, init'), m)) : init'.isScoped = init.isScoped := by
  cases init with
  | absent =>
    simp only [ForInit.lower, run_pure_ok, Prod.mk.injEq] at hr
    obtain ⟨⟨-, rfl⟩, -⟩ := hr
    rfl
  | declare kind ds =>
    simp only [ForInit.lower, run_bind_ok, run_pure_ok, Prod.mk.injEq] at hr
    obtain ⟨-, -, -, ⟨-, rfl⟩, -⟩ := hr
    rfl
  | expr e =>
    rw [ForInit.lower] at hr
    split at hr
    · simp only [run_pure_ok, Prod.mk.injEq] at hr
      obtain ⟨⟨-, rfl⟩, -⟩ := hr
      rfl
    · simp only [run_bind_ok, run_pure_ok, Prod.mk.injEq] at hr
      obtain ⟨-, -, -, -, -, -, ⟨-, rfl⟩, -⟩ := hr
      rfl

theorem ownLoops_ofRun {s : Stmt} {ss : List Stmt} {n m : SlotNumber}
    (hr : (s.lower inAsync).run n = .ok (ss, m))
    (h : s.hasSuspend inAsync = true → bodyOwnLoops inAsync ss = s.ownLoops inAsync) :
    bodyOwnLoops inAsync ss = s.ownLoops inAsync := by
  cases hs : s.hasSuspend inAsync with
  | false =>
    rw [Stmt.lower.eq_def] at hr
    simp only [hs, Bool.not_false, ↓reduceIte, run_pure_ok] at hr
    obtain ⟨rfl, -⟩ := hr
    simp [bodyOwnLoops]
  | true => exact h hs

mutual

theorem Stmt.lower_ownLoops (inAsync : Bool) : (s : Stmt) → (ss : List Stmt) → (n m : SlotNumber) →
    (s.lower inAsync).run n = .ok (ss, m) → bodyOwnLoops inAsync ss = s.ownLoops inAsync
  | .empty, ss, n, m, hr | .brk _, ss, n, m, hr | .cont _, ss, n, m, hr
  | .function _ _, ss, n, m, hr | .ret none, ss, n, m, hr => ownLoops_ofRun hr fun hs => by
    simp [Stmt.hasSuspend] at hs
  | .expr e, ss, n, m, hr => ownLoops_ofRun hr fun hs => by
    rw [Stmt.lower] at hr
    simp only [run_unless_ok hs, run_bind_ok, run_pure_ok] at hr
    obtain ⟨-, k, -, before, k', -, rfl, -⟩ := hr
    exact bodyOwnLoops_of_isStraight fun t ht => effectStmts_isStraight ht
  | .declare kind ds, ss, n, m, hr => ownLoops_ofRun hr fun hs => by
    rw [Stmt.lower, run_unless_ok hs] at hr
    obtain ⟨-, -, -, hstraight, -⟩ := lowerDeclarators_sound inAsync kind ds ss n m hr
    exact bodyOwnLoops_of_isStraight hstraight
  | .ret (some e), ss, n, m, hr | .throw e, ss, n, m, hr => ownLoops_ofRun hr fun hs => by
    rw [Stmt.lower] at hr
    simp only [run_unless_ok hs, run_bind_ok, run_pure_ok] at hr
    obtain ⟨h, k, -, rfl, -⟩ := hr
    exact bodyOwnLoops_after ..
  | .block body, ss, n, m, hr => ownLoops_ofRun hr fun hs => by
    rw [Stmt.lower] at hr
    simp only [run_unless_ok hs, run_bind_ok, run_pure_ok] at hr
    obtain ⟨b, k, hb, rfl, -⟩ := hr
    simp [bodyOwnLoops, Stmt.ownLoops, lowerStmts_ownLoops inAsync body b n k hb]
  | .ifElse test yes none, ss, n, m, hr => ownLoops_ofRun hr fun hs => by
    rw [Stmt.lower] at hr
    simp only [run_unless_ok hs, run_bind_ok, run_pure_ok] at hr
    obtain ⟨h, k, -, y, k₁, hy, rfl, -⟩ := hr
    simp [bodyOwnLoops_after, Stmt.ownLoops, yes.lower_ownLoops inAsync y k k₁ hy]
  | .ifElse test yes (some no), ss, n, m, hr => ownLoops_ofRun hr fun hs => by
    rw [Stmt.lower] at hr
    simp only [run_unless_ok hs, run_bind_ok, run_pure_ok] at hr
    obtain ⟨h, k, -, y, k₁, hy, o, k₂, ho, rfl, -⟩ := hr
    simp [bodyOwnLoops_after, Stmt.ownLoops, yes.lower_ownLoops inAsync y k k₁ hy,
      no.lower_ownLoops inAsync o k₁ k₂ ho]
  | .whileDo test body, ss, n, m, hr => ownLoops_ofRun hr fun hs => by
    rw [Stmt.lower] at hr
    simp only [run_unless_ok hs, run_bind_ok, run_pure_ok] at hr
    obtain ⟨t, k, -, b, k₁, hb, rfl, -⟩ := hr
    simp [bodyOwnLoops, Stmt.ownLoops, body.lower_ownLoops inAsync b k k₁ hb]
  | .doWhile body test, ss, n, m, hr => ownLoops_ofRun hr fun hs => by
    rw [Stmt.lower] at hr
    simp only [run_unless_ok hs, run_bind_ok, run_pure_ok] at hr
    obtain ⟨t, k, -, b, k₁, hb, rfl, -⟩ := hr
    simp [bodyOwnLoops, Stmt.ownLoops, body.lower_ownLoops inAsync b k k₁ hb]
  | .forLoop init test update body, ss, n, m, hr => ownLoops_ofRun hr fun hs => by
    rw [Stmt.lower] at hr
    simp only [run_unless_ok hs, run_bind_ok, run_pure_ok] at hr
    obtain ⟨⟨before, i⟩, k, hi, t, k₁, ht, u, k₂, hu, b, k₃, hb, rfl, -⟩ := hr
    have ht := anyHasSuspend_eq_of_forms inAsync (lowerConditions_sound inAsync test t k k₁ ht).2
    have hu := anyHasSuspend_eq_of_forms inAsync (lowerConditions_sound inAsync update u k₁ k₂ hu).2
    have hw : (Stmt.forLoop i t u (.ofList b)).runsWhole inAsync =
        (Stmt.forLoop init test update body).runsWhole inAsync := by
      simp only [Stmt.runsWhole, ht, hu, hasSuspend_ofList,
        (body.lowersTo inAsync b k₂ k₃ hb).suspends]
    simp [bodyOwnLoops_after, Stmt.ownLoops, hw, ForInit.lower_isScoped hi,
      body.lower_ownLoops inAsync b k₂ k₃ hb]
  | .forIn target subject body, ss, n, m, hr => ownLoops_ofRun hr fun hs => by
    rw [Stmt.lower] at hr
    simp only [run_unless_ok hs, run_bind_ok, run_pure_ok, run_check_ok] at hr
    obtain ⟨-, k, ⟨-, rfl⟩, h, k₁, -, b, k₂, hb, rfl, -⟩ := hr
    simp [bodyOwnLoops_after, Stmt.ownLoops, body.lower_ownLoops inAsync b k₁ k₂ hb]
  | .forOf target subject body isAwait, ss, n, m, hr => ownLoops_ofRun hr fun hs => by
    rw [Stmt.lower] at hr
    simp only [run_unless_ok hs, run_bind_ok, run_pure_ok, run_check_ok] at hr
    obtain ⟨-, k, ⟨-, rfl⟩, h, k₁, -, b, k₂, hb, rfl, -⟩ := hr
    simp [bodyOwnLoops_after, Stmt.ownLoops, body.lower_ownLoops inAsync b k₁ k₂ hb]
  | .tryCatch block none none, ss, n, m, hr => ownLoops_ofRun hr fun hs => by
    rw [Stmt.lower] at hr
    simp only [run_unless_ok hs, run_bind_ok, run_pure_ok] at hr
    obtain ⟨b, k, hb, rfl, -⟩ := hr
    simp [bodyOwnLoops, Stmt.ownLoops, lowerStmts_ownLoops inAsync block b n k hb]
  | .tryCatch block none (some finalizer), ss, n, m, hr => ownLoops_ofRun hr fun hs => by
    rw [Stmt.lower] at hr
    simp only [run_unless_ok hs, run_bind_ok, run_pure_ok] at hr
    obtain ⟨f, k, hf, b, k₁, hb, rfl, -⟩ := hr
    simp [bodyOwnLoops, Stmt.ownLoops, lowerStmts_ownLoops inAsync finalizer f n k hf,
      lowerStmts_ownLoops inAsync block b k k₁ hb]
  | .tryCatch block (some (.mk param handler)) none, ss, n, m, hr => ownLoops_ofRun hr fun hs => by
    rw [Stmt.lower] at hr
    simp only [run_unless_ok hs, run_guard_ok, run_bind_ok, run_pure_ok] at hr
    obtain ⟨-, h, k, hh, b, k₁, hb, rfl, -⟩ := hr
    simp [bodyOwnLoops, Stmt.ownLoops, lowerStmts_ownLoops inAsync handler h n k hh,
      lowerStmts_ownLoops inAsync block b k k₁ hb]
  | .tryCatch block (some (.mk param handler)) (some finalizer), ss, n, m, hr =>
    ownLoops_ofRun hr fun hs => by
    rw [Stmt.lower] at hr
    simp only [run_unless_ok hs, run_guard_ok, run_bind_ok, run_pure_ok] at hr
    obtain ⟨-, h, k, hh, f, k₁, hf, b, k₂, hb, rfl, -⟩ := hr
    simp [bodyOwnLoops, Stmt.ownLoops, lowerStmts_ownLoops inAsync handler h n k hh,
      lowerStmts_ownLoops inAsync finalizer f k k₁ hf, lowerStmts_ownLoops inAsync block b k₁ k₂ hb]
  | .switch subject cases, ss, n, m, hr => ownLoops_ofRun hr fun hs => by
    rw [Stmt.lower] at hr
    simp only [run_unless_ok hs, run_bind_ok, run_pure_ok] at hr
    obtain ⟨h, k, -, cs, k₁, hc, rfl, -⟩ := hr
    simp [bodyOwnLoops_after, Stmt.ownLoops, lowerCases_ownLoops inAsync cases cs k k₁ hc]
  | .labeled label body, ss, n, m, hr => ownLoops_ofRun hr fun hs => by
    rw [Stmt.lower] at hr
    simp only [run_unless_ok hs, run_bind_ok, run_pure_ok] at hr
    obtain ⟨b, k, hb, rfl, -⟩ := hr
    rw [bodyOwnLoops_labelLast, body.lower_ownLoops inAsync b n k hb, Stmt.ownLoops]

theorem lowerStmts_ownLoops (inAsync : Bool) : (body ss : List Stmt) → (n m : SlotNumber) →
    (lowerStmts inAsync body).run n = .ok (ss, m) →
    bodyOwnLoops inAsync ss = bodyOwnLoops inAsync body
  | [], ss, n, m, hr => by
    obtain ⟨rfl, -⟩ := (run_pure_ok ..).1 hr
    rfl
  | s :: body, ss, n, m, hr => by
    simp only [lowerStmts, run_bind_ok, run_pure_ok] at hr
    obtain ⟨first, k, hf, rest, k₁, hrest, rfl, -⟩ := hr
    simp [bodyOwnLoops_append, bodyOwnLoops, s.lower_ownLoops inAsync first n k hf,
      lowerStmts_ownLoops inAsync body rest k k₁ hrest]

theorem lowerCases_ownLoops (inAsync : Bool) : (cases cs : List Case) → (n m : SlotNumber) →
    (lowerCases inAsync cases).run n = .ok (cs, m) →
    caseOwnLoops inAsync cs = caseOwnLoops inAsync cases
  | [], cs, n, m, hr => by
    obtain ⟨rfl, -⟩ := (run_pure_ok ..).1 hr
    rfl
  | .mk test body :: cases, cs, n, m, hr => by
    simp only [lowerCases, run_guard_ok, run_bind_ok, run_pure_ok] at hr
    obtain ⟨-, b, k, hb, rest, k₁, hrest, rfl, -⟩ := hr
    simp [caseOwnLoops, lowerStmts_ownLoops inAsync body b n k hb,
      lowerCases_ownLoops inAsync cases rest k k₁ hrest]

end

end Resumable
