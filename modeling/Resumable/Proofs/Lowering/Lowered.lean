import Resumable.Proofs.Lowering.Parts

/-!
Every suspend point of a lowered body is a simple effect, the suspend points are those of the body
before, in the same order, and so are the jumps that no statement keeps to itself. Main statements:
`Stmt.lowersTo`, `lowerStmts_sound`.
-/

set_option autoImplicit false

namespace Resumable

/-- What lowering makes of a list of statements. -/
structure BodyLowersTo (inAsync : Bool) (body ss : List Stmt) : Prop where
  lowered : areLowered inAsync ss = true
  forms : bodyForms inAsync ss = bodyForms inAsync body
  suspends : anySuspend inAsync ss = anySuspend inAsync body
  jumps : ∀ around, bodyJumps inAsync around ss = bodyJumps inAsync around body

structure CasesLowerTo (inAsync : Bool) (cases cs : List Case) : Prop where
  lowered : casesAreLowered inAsync cs = true
  forms : caseForms inAsync cs = caseForms inAsync cases
  suspends : casesHaveSuspend inAsync cs = casesHaveSuspend inAsync cases
  jumps : ∀ around, caseJumps inAsync around cs = caseJumps inAsync around cases

theorem labelLast_append (label : String) (ss : List Stmt) (s : Stmt) :
    labelLast label (ss ++ [s]) = ss ++ [.labeled label s] := by
  induction ss with
  | nil => rfl
  | cons t ss ih =>
    cases ss with
    | nil => rfl
    | cons u ss => simpa [labelLast] using ih

namespace LowersTo

variable {inAsync : Bool} {s t : Stmt}

theorem plain (hs : s.hasSuspend inAsync = false) : LowersTo inAsync s [s] where
  lowered := by simp [areLowered, isLowered_of_plain inAsync s hs]
  forms := by simp [bodyForms]
  suspends := by simp [anySuspend]
  same _ := rfl
  last := ⟨[], s, rfl, fun _ => rfl, rfl, fun _ _ => rfl⟩

theorem after {b : List Expr} (hs : s.hasSuspend inAsync = true)
    (hb : AreEffects inAsync b) (ht : t.isLowered inAsync = true)
    (hf : listForms inAsync b ++ t.forms inAsync = s.forms inAsync)
    (hts : (listHasSuspend inAsync b || t.hasSuspend inAsync) = true)
    (hj : t.isJump = s.isJump)
    (hjs : ∀ around labels, t.jumps inAsync around labels = s.jumps inAsync around labels) :
    LowersTo inAsync s (effectStmts b ++ [t]) where
  lowered := by
    rw [areLowered_append, areLowered_effectStmts inAsync hb]
    simp [areLowered, ht]
  forms := by simp [bodyForms_append, bodyForms_effectStmts, bodyForms, hf]
  suspends := by
    rw [anySuspend_append, anySuspend_effectStmts, hs]
    simpa [anySuspend] using hts
  same h := by simp [h] at hs
  last := ⟨effectStmts b, t, rfl, fun _ => bodyJumps_effectStmts .., hj, hjs⟩

theorem one (hs : s.hasSuspend inAsync = true) (ht : t.isLowered inAsync = true)
    (hf : t.forms inAsync = s.forms inAsync) (hts : t.hasSuspend inAsync = true)
    (hj : t.isJump = s.isJump)
    (hjs : ∀ around labels, t.jumps inAsync around labels = s.jumps inAsync around labels) :
    LowersTo inAsync s [t] :=
  after (b := []) hs (by simp [AreEffects]) ht hf (by simpa using hts) hj hjs

theorem straight {ss : List Stmt} (hs : s.hasSuspend inAsync = true) (hsj : s.isStraight = true)
    (hl : areLowered inAsync ss = true) (hf : bodyForms inAsync ss = s.forms inAsync)
    (hss : anySuspend inAsync ss = true) (hne : ss ≠ []) (h : ∀ t ∈ ss, t.isStraight = true) :
    LowersTo inAsync s ss where
  lowered := hl
  forms := hf
  suspends := by rw [hss, hs]
  same h := by simp [h] at hs
  last := by
    refine ⟨ss.dropLast, ss.getLast hne, (List.dropLast_concat_getLast hne).symm, ?_, ?_, ?_⟩
    · exact bodyJumps_of_isStraight inAsync fun t ht => h t (ss.dropLast_sublist.subset ht)
    · rw [(jumps_of_isStraight inAsync (h _ (List.getLast_mem hne)) [] []).2,
        (jumps_of_isStraight inAsync hsj [] []).2]
    · intro around labels
      rw [(jumps_of_isStraight inAsync (h _ (List.getLast_mem hne)) around labels).1,
        (jumps_of_isStraight inAsync hsj around labels).1]

theorem labeled {ss : List Stmt} (label : String) (h : LowersTo inAsync s ss) (hj : s.isJump = false) :
    LowersTo inAsync (.labeled label s) (labelLast label ss) := by
  obtain ⟨init, t, rfl, hi, htj, hjs⟩ := h.last
  have hf := h.forms
  have hs := h.suspends
  have hl := h.lowered
  rw [bodyForms_append] at hf
  rw [anySuspend_append] at hs
  rw [areLowered_append] at hl
  rw [labelLast_append]
  refine ⟨?_, ?_, ?_, ?_, init, .labeled label t, rfl, hi, rfl, ?_⟩
  · simpa [areLowered_append, areLowered, Stmt.isLowered] using hl
  · simpa [bodyForms_append, bodyForms, Stmt.forms] using hf
  · simpa [anySuspend_append, anySuspend, Stmt.hasSuspend] using hs
  · intro hp
    have hone := h.same hp
    have hinit : init = [] := by
      cases init with
      | nil => rfl
      | cons x init => simp at hone
    subst hinit
    simpa using hone
  · intro around labels
    simp [Stmt.jumps, htj, hj, hjs]

/-- A statement that does not suspend stays as it is; the others are left to the case at hand. -/
theorem ofRun {ss : List Stmt} {n m : SlotNumber} (hr : (s.lower inAsync).run n = .ok (ss, m))
    (h : s.hasSuspend inAsync = true → LowersTo inAsync s ss) : LowersTo inAsync s ss := by
  cases hs : s.hasSuspend inAsync with
  | false =>
    rw [Stmt.lower.eq_def] at hr
    simp only [hs, Bool.not_false, ↓reduceIte, run_pure_ok] at hr
    obtain ⟨rfl, -⟩ := hr
    exact plain hs
  | true => exact h hs

end LowersTo

mutual

theorem Stmt.lowersTo (inAsync : Bool) : (s : Stmt) → (ss : List Stmt) → (n m : SlotNumber) →
    (s.lower inAsync).run n = .ok (ss, m) → LowersTo inAsync s ss
  | .empty, ss, n, m, hr | .brk _, ss, n, m, hr | .cont _, ss, n, m, hr
  | .function _ _, ss, n, m, hr | .ret none, ss, n, m, hr => .ofRun hr fun hs => by
    simp [Stmt.hasSuspend] at hs
  | .expr e, ss, n, m, hr => .ofRun hr fun hs => by
    rw [Stmt.lower] at hr
    simp only [run_unless_ok hs, run_bind_ok, run_checkYields_ok, run_pure_ok] at hr
    obtain ⟨-, k, ⟨-, rfl⟩, before, k', hb, rfl, -⟩ := hr
    obtain ⟨h1, h2⟩ := hoistEffect_sound inAsync e before n k' hb
    have h3 := hasSuspend_of_forms inAsync h2
    refine .straight hs rfl (areLowered_effectStmts inAsync h1) ?_ ?_ ?_
      fun t ht => effectStmts_isStraight ht
    · rw [bodyForms_effectStmts, h2, Stmt.forms]
    · rw [anySuspend_effectStmts, h3]
      exact hs
    · rintro hnil
      simp only [effectStmts, List.map_eq_nil_iff] at hnil
      subst hnil
      exact absurd (h3.trans hs) (by simp)
  | .declare kind ds, ss, n, m, hr => .ofRun hr fun hs => by
    rw [Stmt.lower] at hr
    simp only [run_unless_ok hs] at hr
    obtain ⟨h1, h2, h3, h4, h5⟩ := lowerDeclarators_sound inAsync kind ds ss n m hr
    refine .straight hs rfl h1 h2 (h3.trans hs) (h5 ?_) h4
    rintro rfl
    simp [Stmt.hasSuspend] at hs
  | .ret (some e), ss, n, m, hr => .ofRun hr fun hs => by
    rw [Stmt.lower] at hr
    simp only [run_unless_ok hs, run_bind_ok, run_pure_ok] at hr
    obtain ⟨h, k, hh, rfl, -⟩ := hr
    obtain ⟨h1, h2, h3⟩ := lowerValue_sound inAsync e h n k hh
    have h4 := hasSuspend_of_forms inAsync h3
    refine .after hs h2 ?_ ?_ ?_ rfl fun _ _ => rfl
    · simp [Stmt.isLowered, h1]
    · simp [Stmt.forms, optionForms, h3, (forms_eq_nil_iff ..).2 h1]
    · simpa [h4, Stmt.hasSuspend] using Or.inl hs
  | .throw e, ss, n, m, hr => .ofRun hr fun hs => by
    rw [Stmt.lower] at hr
    simp only [run_unless_ok hs, run_bind_ok, run_pure_ok] at hr
    obtain ⟨h, k, hh, rfl, -⟩ := hr
    obtain ⟨h1, h2, h3⟩ := lowerValue_sound inAsync e h n k hh
    have h4 := hasSuspend_of_forms inAsync h3
    refine .after hs h2 ?_ ?_ ?_ rfl fun _ _ => rfl
    · simp [Stmt.isLowered, h1]
    · simp [Stmt.forms, h3, (forms_eq_nil_iff ..).2 h1]
    · simpa [h4, Stmt.hasSuspend] using Or.inl hs
  | .block body, ss, n, m, hr => .ofRun hr fun hs => by
    rw [Stmt.lower] at hr
    simp only [run_unless_ok hs, run_bind_ok, run_pure_ok] at hr
    obtain ⟨b, k, hb, rfl, -⟩ := hr
    have ih := lowerStmts_sound inAsync body b n k hb
    refine .one hs ih.lowered ih.forms (ih.suspends.trans hs) rfl ?_
    intro around labels
    simp [Stmt.jumps, Stmt.runsWhole, Stmt.hasSuspend, ih.suspends, ih.jumps]
  | .ifElse test yes none, ss, n, m, hr => .ofRun hr fun hs => by
    rw [Stmt.lower] at hr
    simp only [run_unless_ok hs, run_bind_ok, run_pure_ok] at hr
    obtain ⟨h, k, hh, ys, k', hy, rfl, -⟩ := hr
    obtain ⟨h1, h2, h3⟩ := lowerValue_sound inAsync test h n k hh
    have h4 := hasSuspend_of_forms inAsync h3
    have iy := yes.lowersTo inAsync ys k k' hy
    refine .after hs h2 ?_ ?_ ?_ rfl ?_
    · simp [Stmt.isLowered, h1, isLowered_ofList, iy.lowered]
    · simp [Stmt.forms, h3, (forms_eq_nil_iff ..).2 h1, forms_ofList, iy.forms]
    · simpa [Stmt.hasSuspend, h4, h1, hasSuspend_ofList, iy.suspends] using hs
    · intro around labels
      simp [Stmt.jumps, Stmt.runsWhole, hasSuspend_ofList, iy.suspends, iy.jumps_ofList]
  | .ifElse test yes (some no), ss, n, m, hr => .ofRun hr fun hs => by
    rw [Stmt.lower] at hr
    simp only [run_unless_ok hs, run_bind_ok, run_pure_ok] at hr
    obtain ⟨h, k, hh, ys, k₁, hy, ns, k₂, hn, rfl, -⟩ := hr
    obtain ⟨h1, h2, h3⟩ := lowerValue_sound inAsync test h n k hh
    have h4 := hasSuspend_of_forms inAsync h3
    have iy := yes.lowersTo inAsync ys k k₁ hy
    have ino := no.lowersTo inAsync ns k₁ k₂ hn
    refine .after hs h2 ?_ ?_ ?_ rfl ?_
    · simp [Stmt.isLowered, h1, isLowered_ofList, iy.lowered, ino.lowered]
    · simp [Stmt.forms, h3, (forms_eq_nil_iff ..).2 h1, forms_ofList, iy.forms, ino.forms]
    · simpa [Stmt.hasSuspend, h4, h1, hasSuspend_ofList, iy.suspends, ino.suspends,
        or_assoc] using hs
    · intro around labels
      simp [Stmt.jumps, Stmt.runsWhole, hasSuspend_ofList, iy.suspends, iy.jumps_ofList,
        ino.suspends, ino.jumps_ofList]
  | .whileDo test body, ss, n, m, hr => .ofRun hr fun hs => by
    rw [Stmt.lower] at hr
    simp only [run_unless_ok hs, run_bind_ok, run_pure_ok] at hr
    obtain ⟨t, k, ht, bs, k', hb, rfl, -⟩ := hr
    obtain ⟨h1, h2⟩ := lowerCondition_sound inAsync test t n k ht
    have h3 := hasSuspend_eq_of_forms inAsync h2
    have ib := body.lowersTo inAsync bs k k' hb
    refine .one hs ?_ ?_ ?_ rfl ?_
    · simp [Stmt.isLowered, h1, isLowered_ofList, ib.lowered]
    · simp [Stmt.forms, h2, forms_ofList, ib.forms]
    · simpa [Stmt.hasSuspend, h3, hasSuspend_ofList, ib.suspends] using hs
    · intro around labels
      simp [Stmt.jumps, Stmt.runsWhole, Stmt.hasSuspend, h3, hasSuspend_ofList, ib.suspends,
        ib.jumps_ofList]
  | .doWhile body test, ss, n, m, hr => .ofRun hr fun hs => by
    rw [Stmt.lower] at hr
    simp only [run_unless_ok hs, run_bind_ok, run_pure_ok] at hr
    obtain ⟨t, k, ht, bs, k', hb, rfl, -⟩ := hr
    obtain ⟨h1, h2⟩ := lowerCondition_sound inAsync test t n k ht
    have h3 := hasSuspend_eq_of_forms inAsync h2
    have ib := body.lowersTo inAsync bs k k' hb
    refine .one hs ?_ ?_ ?_ rfl ?_
    · simp [Stmt.isLowered, h1, isLowered_ofList, ib.lowered]
    · simp [Stmt.forms, h2, forms_ofList, ib.forms]
    · simpa [Stmt.hasSuspend, h3, hasSuspend_ofList, ib.suspends] using hs
    · intro around labels
      simp [Stmt.jumps, Stmt.runsWhole, Stmt.hasSuspend, h3, hasSuspend_ofList, ib.suspends,
        ib.jumps_ofList]
  | .forLoop init test update body, ss, n, m, hr => .ofRun hr fun hs => by
    rw [Stmt.lower] at hr
    simp only [run_unless_ok hs, run_bind_ok, run_pure_ok] at hr
    obtain ⟨⟨before, i⟩, k, hi, t, k₁, ht, u, k₂, hu, bs, k₃, hb, rfl, -⟩ := hr
    obtain ⟨h1, h2, h3, h4⟩ := init.lower_sound inAsync i before n k hi
    obtain ⟨t1, t2⟩ := lowerConditions_sound inAsync test t k k₁ ht
    obtain ⟨u1, u2⟩ := lowerConditions_sound inAsync update u k₁ k₂ hu
    have t3 := anyHasSuspend_eq_of_forms inAsync t2
    have u3 := anyHasSuspend_eq_of_forms inAsync u2
    have ib := body.lowersTo inAsync bs k₂ k₃ hb
    have h5 := forInit_forms inAsync i h4
    refine .after hs h1 ?_ ?_ ?_ rfl ?_
    · simp only [Stmt.isLowered, h4, t1, u1, isLowered_ofList, ib.lowered]
      rfl
    · simp [Stmt.forms, h2, h5, t2, u2, forms_ofList, ib.forms]
    · simpa only [Stmt.hasSuspend, h3, h4, t3, u3, hasSuspend_ofList, ib.suspends, Bool.false_or,
        Bool.or_assoc] using hs
    · intro around labels
      simp only [Stmt.jumps, Stmt.runsWhole, t3, u3, hasSuspend_ofList, ib.suspends, ib.jumps_ofList]
      rfl
  | .forIn target subject body, ss, n, m, hr => .ofRun hr fun hs => by
    rw [Stmt.lower] at hr
    simp only [run_unless_ok hs, run_bind_ok, run_check_ok, run_pure_ok] at hr
    obtain ⟨-, k, ⟨hp, rfl⟩, h, k₁, hh, bs, k₂, hb, rfl, -⟩ := hr
    obtain ⟨h1, h2, h3⟩ := lowerValue_sound inAsync subject h n k₁ hh
    have h4 := hasSuspend_of_forms inAsync h3
    have ib := body.lowersTo inAsync bs k₁ k₂ hb
    refine .after hs h2 ?_ ?_ ?_ rfl ?_
    · simp [Stmt.isLowered, h1, hp, isLowered_ofList, ib.lowered]
    · simp [Stmt.forms, h3, (forms_eq_nil_iff ..).2 h1, forms_ofList, ib.forms]
    · simpa [Stmt.hasSuspend, h4, h1, hp, hasSuspend_ofList, ib.suspends] using hs
    · intro around labels
      simp [Stmt.jumps, Stmt.runsWhole, hasSuspend_ofList, ib.suspends, ib.jumps_ofList]
  | .forOf target subject body isAwait, ss, n, m, hr => .ofRun hr fun hs => by
    rw [Stmt.lower] at hr
    simp only [run_unless_ok hs, run_bind_ok, run_check_ok, run_pure_ok] at hr
    obtain ⟨-, k, ⟨hp, rfl⟩, h, k₁, hh, bs, k₂, hb, rfl, -⟩ := hr
    obtain ⟨h1, h2, h3⟩ := lowerValue_sound inAsync subject h n k₁ hh
    have h4 := hasSuspend_of_forms inAsync h3
    have ib := body.lowersTo inAsync bs k₁ k₂ hb
    refine .after hs h2 ?_ ?_ ?_ rfl ?_
    · simp [Stmt.isLowered, h1, hp, isLowered_ofList, ib.lowered]
    · simp [Stmt.forms, h3, (forms_eq_nil_iff ..).2 h1, forms_ofList, ib.forms]
    · simp only [Stmt.hasSuspend, h4, h1, hp, hasSuspend_ofList, ib.suspends, Bool.or_false] at hs ⊢
      rwa [Bool.or_left_comm, ← Bool.or_assoc] 
    · intro around labels
      simp [Stmt.jumps, Stmt.runsWhole, hasSuspend_ofList, ib.suspends, ib.jumps_ofList]
  | .tryCatch block none none, ss, n, m, hr => .ofRun hr fun hs => by
    rw [Stmt.lower] at hr
    simp only [run_unless_ok hs, run_bind_ok, run_pure_ok] at hr
    obtain ⟨b, k, hb, rfl, -⟩ := hr
    have ib := lowerStmts_sound inAsync block b n k hb
    refine .one hs ib.lowered ib.forms (ib.suspends.trans hs) rfl ?_
    intro around labels
    simp [Stmt.jumps, Stmt.runsWhole, Stmt.hasSuspend, ib.suspends, ib.jumps]
  | .tryCatch block none (some finalizer), ss, n, m, hr => .ofRun hr fun hs => by
    rw [Stmt.lower] at hr
    simp only [run_unless_ok hs, run_bind_ok, run_pure_ok] at hr
    obtain ⟨f, k, hf, b, k', hb, rfl, -⟩ := hr
    have jf := lowerStmts_sound inAsync finalizer f n k hf
    have ib := lowerStmts_sound inAsync block b k k' hb
    refine .one hs ?_ ?_ ?_ rfl ?_
    · simp [Stmt.isLowered, ib.lowered, jf.lowered]
    · simp [Stmt.forms, ib.forms, jf.forms]
    · simpa [Stmt.hasSuspend, ib.suspends, jf.suspends] using hs
    · intro around labels
      simp [Stmt.jumps, Stmt.runsWhole, Stmt.hasSuspend, ib.suspends, ib.jumps, jf.suspends, jf.jumps]
  | .tryCatch block (some (.mk param handler)) none, ss, n, m, hr => .ofRun hr fun hs => by
    rw [Stmt.lower] at hr
    simp only [run_unless_ok hs, run_guard_ok, run_bind_ok, run_pure_ok] at hr
    obtain ⟨hp, c, k, hc, b, k', hb, rfl, -⟩ := hr
    rw [Bool.not_eq_true] at hp
    have ic := lowerStmts_sound inAsync handler c n k hc
    have ib := lowerStmts_sound inAsync block b k k' hb
    refine .one hs ?_ ?_ ?_ rfl ?_
    · simp only [Stmt.isLowered, ib.lowered, ic.lowered, hp]
      rfl
    · simp [Stmt.forms, ib.forms, ic.forms]
    · simpa only [Stmt.hasSuspend, ib.suspends, ic.suspends] using hs
    · intro around labels
      simp only [Stmt.jumps, Stmt.runsWhole, Stmt.hasSuspend, ib.suspends, ib.jumps, ic.suspends,
        ic.jumps]
      rfl
  | .tryCatch block (some (.mk param handler)) (some finalizer), ss, n, m, hr => .ofRun hr fun hs => by
    rw [Stmt.lower] at hr
    simp only [run_unless_ok hs, run_guard_ok, run_bind_ok, run_pure_ok] at hr
    obtain ⟨hp, c, k, hc, f, k', hf, b, k'', hb, rfl, -⟩ := hr
    rw [Bool.not_eq_true] at hp
    have ic := lowerStmts_sound inAsync handler c n k hc
    have jf := lowerStmts_sound inAsync finalizer f k k' hf
    have ib := lowerStmts_sound inAsync block b k' k'' hb
    refine .one hs ?_ ?_ ?_ rfl ?_
    · simp only [Stmt.isLowered, ib.lowered, ic.lowered, jf.lowered, hp]
      rfl
    · simp [Stmt.forms, ib.forms, ic.forms, jf.forms]
    · simpa only [Stmt.hasSuspend, ib.suspends, ic.suspends, jf.suspends] using hs
    · intro around labels
      simp only [Stmt.jumps, Stmt.runsWhole, Stmt.hasSuspend, ib.suspends, ib.jumps, ic.suspends,
        ic.jumps, jf.suspends, jf.jumps]
      rfl
  | .switch subject cases, ss, n, m, hr => .ofRun hr fun hs => by
    rw [Stmt.lower] at hr
    simp only [run_unless_ok hs, run_bind_ok, run_pure_ok] at hr
    obtain ⟨h, k, hh, cs, k', hc, rfl, -⟩ := hr
    obtain ⟨h1, h2, h3⟩ := lowerValue_sound inAsync subject h n k hh
    have h4 := hasSuspend_of_forms inAsync h3
    have ic := lowerCases_sound inAsync cases cs k k' hc
    refine .after hs h2 ?_ ?_ ?_ rfl ?_
    · simp [Stmt.isLowered, h1, ic.lowered]
    · simp [Stmt.forms, h3, (forms_eq_nil_iff ..).2 h1, ic.forms]
    · simpa [Stmt.hasSuspend, h4, h1, ic.suspends] using hs
    · intro around labels
      simp [Stmt.jumps, Stmt.runsWhole, ic.suspends, ic.jumps]
  | .labeled label body, ss, n, m, hr => .ofRun hr fun hs => by
    rw [Stmt.lower] at hr
    simp only [run_unless_ok hs, run_bind_ok, run_pure_ok] at hr
    obtain ⟨b, k, hb, rfl, -⟩ := hr
    refine (body.lowersTo inAsync b n k hb).labeled label ?_
    cases body <;> first | rfl | simp [Stmt.hasSuspend] at hs

theorem lowerStmts_sound (inAsync : Bool) : (body ss : List Stmt) → (n m : SlotNumber) →
    (lowerStmts inAsync body).run n = .ok (ss, m) → BodyLowersTo inAsync body ss
  | [], ss, n, m, hr => by
    obtain ⟨rfl, -⟩ := (run_pure_ok ..).1 hr
    exact ⟨rfl, rfl, rfl, fun _ => rfl⟩
  | s :: body, ss, n, m, hr => by
    simp only [lowerStmts, run_bind_ok, run_pure_ok] at hr
    obtain ⟨first, k, hf, rest, k', hrest, rfl, -⟩ := hr
    have h := s.lowersTo inAsync first n k hf
    have ih := lowerStmts_sound inAsync body rest k k' hrest
    exact ⟨by simp [areLowered_append, h.lowered, ih.lowered],
      by simp [bodyForms_append, h.forms, ih.forms, bodyForms],
      by simp [anySuspend_append, h.suspends, ih.suspends, anySuspend],
      fun around => by simp [bodyJumps_append, h.bodyJumps_eq, ih.jumps, bodyJumps]⟩

theorem lowerCases_sound (inAsync : Bool) : (cases cs : List Case) → (n m : SlotNumber) →
    (lowerCases inAsync cases).run n = .ok (cs, m) → CasesLowerTo inAsync cases cs
  | [], cs, n, m, hr => by
    obtain ⟨rfl, -⟩ := (run_pure_ok ..).1 hr
    exact ⟨rfl, rfl, rfl, fun _ => rfl⟩
  | .mk test body :: cases, cs, n, m, hr => by
    simp only [lowerCases, run_guard_ok, run_bind_ok, run_pure_ok] at hr
    obtain ⟨ht, b, k, hb, rest, k', hrest, rfl, -⟩ := hr
    have h := lowerStmts_sound inAsync body b n k hb
    have ih := lowerCases_sound inAsync cases rest k k' hrest
    rw [Bool.not_eq_true] at ht
    exact ⟨by simp only [casesAreLowered, ht, h.lowered, ih.lowered]; rfl,
      by simp [caseForms, h.forms, ih.forms],
      by simp [casesHaveSuspend, h.suspends, ih.suspends],
      fun around => by simp [caseJumps, h.jumps, ih.jumps]⟩

end

end Resumable
