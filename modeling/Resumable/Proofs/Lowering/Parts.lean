import Resumable.Proofs.Lowering.Grammar

/-!
What lowering makes of the parts of statements: of operands and conditions, declarations and the heads of
loops. What goes before consists of simple effects, and the suspend points are those of the part. A part
that does not suspend has no suspend points.
-/

set_option autoImplicit false

namespace Resumable

section Parts

variable (inAsync : Bool)

theorem hoist_sound (e : Expr) (h : Hoisted) (n m : SlotNumber)
    (hr : (e.hoist inAsync).run n = .ok (h, m)) :
    h.rest.hasSuspend inAsync = false ∧ AreEffects inAsync h.before ∧
      listForms inAsync h.before = e.forms inAsync := by
  have hh := (e.hoists inAsync n m h hr).sound
  rw [← forms_eq_nil_iff]
  exact hh

theorem lowerValue_sound (e : Expr) (h : Hoisted) (n m : SlotNumber)
    (hr : (e.lowerValue inAsync).run n = .ok (h, m)) :
    h.rest.hasSuspend inAsync = false ∧ AreEffects inAsync h.before ∧
      listForms inAsync h.before = e.forms inAsync := by
  simp only [Expr.lowerValue, run_bind_ok, run_checkYields_ok] at hr
  obtain ⟨-, k, ⟨-, rfl⟩, hr⟩ := hr
  exact hoist_sound inAsync e h n m hr

theorem listHasSuspend_append (es ds : List Expr) :
    listHasSuspend inAsync (es ++ ds) = (listHasSuspend inAsync es || listHasSuspend inAsync ds) := by
  induction es with
  | nil => simp
  | cons e es ih => simp [listHasSuspend_cons, ih, Bool.or_assoc]

theorem hasSuspend_of_forms {es : List Expr} {e : Expr}
    (h : listForms inAsync es = e.forms inAsync) :
    listHasSuspend inAsync es = e.hasSuspend inAsync := by
  apply eq_of_false_iff
  rw [← listForms_eq_nil_iff, h, forms_eq_nil_iff]

theorem sequenceIsLowered_append {es : List Expr} {e : Expr} (hes : AreEffects inAsync es)
    (he : e.hasSuspend inAsync = false) : sequenceIsLowered inAsync (es ++ [e]) = true := by
  induction es with
  | nil => simp [sequenceIsLowered, he]
  | cons d es ih =>
    have hd : d.isEffect inAsync = true := hes d (by simp)
    have ih := ih fun x hx => hes x (by simp [hx])
    cases es with
    | nil => simpa [sequenceIsLowered, Expr.isEffect, he] using hd
    | cons c es =>
      simp only [List.cons_append, sequenceIsLowered, Bool.and_eq_true] at ih ⊢
      exact ⟨hd, ih⟩

theorem lowerCondition_sound (e d : Expr) (n m : SlotNumber)
    (hr : (e.lowerCondition inAsync).run n = .ok (d, m)) :
    d.isLoweredCondition inAsync = true ∧ d.forms inAsync = e.forms inAsync := by
  rw [Expr.lowerCondition] at hr
  split at hr
  · rename_i hs
    obtain ⟨rfl, -⟩ := (run_pure_ok ..).1 hr
    exact ⟨isLoweredCondition_of_plain inAsync e (by simpa using hs), rfl⟩
  · simp only [run_bind_ok, run_checkYields_ok] at hr
    obtain ⟨-, k, ⟨-, rfl⟩, hr⟩ := hr
    split at hr
    · rename_i hl
      obtain ⟨rfl, -⟩ := (run_pure_ok ..).1 hr
      exact ⟨hl, rfl⟩
    · simp only [run_bind_ok, run_pure_ok] at hr
      obtain ⟨h, k', hh, rfl, -⟩ := hr
      obtain ⟨hrest, hb, hf⟩ := hoist_sound inAsync e h n k' hh
      refine ⟨sequenceIsLowered_append inAsync hb hrest, ?_⟩
      simp [hf, (forms_eq_nil_iff inAsync h.rest).2 hrest]

theorem lowerConditions_sound (e d : Option Expr) (n m : SlotNumber)
    (hr : (lowerConditions inAsync e).run n = .ok (d, m)) :
    d.all (·.isLoweredCondition inAsync) = true ∧ optionForms inAsync d = optionForms inAsync e := by
  cases e with
  | none =>
    obtain ⟨rfl, -⟩ := (run_pure_ok ..).1 hr
    exact ⟨rfl, rfl⟩
  | some e =>
    obtain ⟨d, hd, rfl⟩ := (run_map_ok ..).1 hr
    exact lowerCondition_sound inAsync e d n m hd

theorem hasSuspend_eq_of_forms {e d : Expr} (h : d.forms inAsync = e.forms inAsync) :
    d.hasSuspend inAsync = e.hasSuspend inAsync := by
  apply eq_of_false_iff
  rw [← forms_eq_nil_iff, h, forms_eq_nil_iff]

theorem optionForms_eq_nil_iff (e : Option Expr) :
    optionForms inAsync e = [] ↔ e.any (·.hasSuspend inAsync) = false := by
  cases e with
  | none => simp [optionForms]
  | some e => simp [optionForms, forms_eq_nil_iff]

theorem anyHasSuspend_eq_of_forms {e d : Option Expr}
    (h : optionForms inAsync d = optionForms inAsync e) :
    d.any (·.hasSuspend inAsync) = e.any (·.hasSuspend inAsync) := by
  apply eq_of_false_iff
  rw [← optionForms_eq_nil_iff, h, optionForms_eq_nil_iff]

/-- A statement with no other statement in it, and no jump. -/
def Stmt.isStraight : Stmt → Bool
  | .expr _ | .declare _ _ => true
  | _ => false

theorem jumps_of_isStraight {s : Stmt} (h : s.isStraight = true) (around : List Breakable)
    (labels : List String) : s.jumps inAsync around labels = [] ∧ s.isJump = false := by
  cases s <;> simp_all [Stmt.isStraight, Stmt.jumps, Stmt.isJump]

theorem bodyJumps_of_isStraight {ss : List Stmt} (h : ∀ s ∈ ss, s.isStraight = true)
    (around : List Breakable) : bodyJumps inAsync around ss = [] := by
  induction ss with
  | nil => rfl
  | cons s ss ih =>
    have hs := jumps_of_isStraight inAsync (h s (by simp)) around []
    simp [bodyJumps, hs.1, ih fun t ht => h t (by simp [ht])]

theorem effectStmts_isStraight {s : Stmt} {es : List Expr} (h : s ∈ effectStmts es) :
    s.isStraight = true := by
  obtain ⟨e, -, rfl⟩ := List.mem_map.1 h
  rfl

theorem lowerDeclarators_sound (kind : VarKind) (ds : List Declarator) (ss : List Stmt)
    (n m : SlotNumber) (hr : (lowerDeclarators inAsync kind ds).run n = .ok (ss, m)) :
    areLowered inAsync ss = true ∧ bodyForms inAsync ss = ds.flatMap (Declarator.forms inAsync) ∧
      anySuspend inAsync ss = ds.any (·.hasSuspend inAsync) ∧ (∀ s ∈ ss, s.isStraight = true) ∧
      (ds ≠ [] → ss ≠ []) := by
  induction ds generalizing ss n m with
  | nil =>
    obtain ⟨rfl, -⟩ := (run_pure_ok ..).1 hr
    exact ⟨rfl, rfl, rfl, by simp, by simp⟩
  | cons d ds ih =>
    obtain ⟨p, init⟩ := d
    rw [lowerDeclarators] at hr
    simp only [run_guard_ok] at hr
    obtain ⟨hp, hr⟩ := hr
    rw [Bool.not_eq_true] at hp
    -- what the first declarator gives, whatever its initializer
    have first : ∃ ts k rest, areLowered inAsync ts = true ∧
        bodyForms inAsync ts = optionForms inAsync init ∧
        anySuspend inAsync ts = init.any (·.hasSuspend inAsync) ∧
        (∀ s ∈ ts, s.isStraight = true) ∧ ts ≠ [] ∧
        (lowerDeclarators inAsync kind ds).run k = .ok (rest, m) ∧ ss = ts ++ rest := by
      cases init with
      | none =>
        simp only [run_bind_ok, run_pure_ok] at hr
        obtain ⟨ts, k, ⟨rfl, rfl⟩, rest, k', hrest, rfl, rfl⟩ := hr
        exact ⟨_, _, rest, by simp [areLowered, Stmt.isLowered, Declarator.hasSuspend, hp],
          rfl, by simp [anySuspend, Stmt.hasSuspend, Declarator.hasSuspend, hp],
          by simp [Stmt.isStraight], by simp, hrest, rfl⟩
      | some e =>
        dsimp only at hr
        split at hr
        · simp only [run_bind_ok, run_pure_ok] at hr
          obtain ⟨h, k₁, hh, ts, k, ⟨rfl, rfl⟩, rest, k₂, hrest, rfl, rfl⟩ := hr
          obtain ⟨hrest', hb, hf⟩ := lowerValue_sound inAsync e h n k₁ hh
          have hd : Declarator.hasSuspend inAsync (.mk p (some h.rest)) = false := by
            simp [Declarator.hasSuspend, hp, hrest']
          have hn := (forms_eq_nil_iff inAsync h.rest).2 hrest'
          refine ⟨_, _, rest, ?_, ?_, ?_, ?_, by simp, hrest, rfl⟩
          · rw [areLowered_append, areLowered_effectStmts inAsync hb]
            simp [areLowered, Stmt.isLowered, hd]
          · rw [bodyForms_append, bodyForms_effectStmts, hf]
            simp [bodyForms, Stmt.forms, Declarator.forms, optionForms, hn]
          · rw [anySuspend_append, anySuspend_effectStmts, hasSuspend_of_forms inAsync hf]
            simp [anySuspend, Stmt.hasSuspend, hd]
          · intro s hs
            rcases List.mem_append.1 hs with hs | hs
            · exact effectStmts_isStraight hs
            · simp only [List.mem_singleton] at hs
              subst hs
              rfl
        · rename_i he
          simp only [run_bind_ok, run_pure_ok] at hr
          obtain ⟨ts, k, ⟨rfl, rfl⟩, rest, k', hrest, rfl, rfl⟩ := hr
          have hd : Declarator.hasSuspend inAsync (.mk p (some e)) = false := by
            simp [Declarator.hasSuspend, hp, he]
          exact ⟨_, _, rest, by simp [areLowered, Stmt.isLowered, hd],
            by simp [bodyForms, Stmt.forms, Declarator.forms],
            by simp [anySuspend, Stmt.hasSuspend, hd, he],
            by simp [Stmt.isStraight], by simp, hrest, rfl⟩
    obtain ⟨ts, k, rest, h1, h2, h3, h4, h5, hrest, rfl⟩ := first
    obtain ⟨i1, i2, i3, i4, -⟩ := ih rest k m hrest
    refine ⟨?_, ?_, ?_, ?_, by simp [h5]⟩
    · rw [areLowered_append, h1, i1]
      rfl
    · rw [bodyForms_append, h2, i2]
      rfl
    · rw [anySuspend_append, h3, i3]
      simp [Declarator.hasSuspend, hp]
    · intro s hs
      rcases List.mem_append.1 hs with hs | hs
      · exact h4 s hs
      · exact i4 s hs

theorem lowerHead_sound (ds es : List Declarator) (before : List Expr) (n m : SlotNumber)
    (hr : (lowerHead inAsync ds).run n = .ok ((before, es), m)) :
    AreEffects inAsync before ∧ listForms inAsync before = ds.flatMap (Declarator.forms inAsync) ∧
      listHasSuspend inAsync before = ds.any (·.hasSuspend inAsync) ∧
      es.any (·.hasSuspend inAsync) = false := by
  induction ds generalizing before es n m with
  | nil =>
    simp only [lowerHead, run_pure_ok, Prod.mk.injEq] at hr
    obtain ⟨⟨rfl, rfl⟩, -⟩ := hr
    exact ⟨by simp [AreEffects], rfl, rfl, rfl⟩
  | cons d ds ih =>
    obtain ⟨p, init⟩ := d
    rw [lowerHead] at hr
    simp only [run_guard_ok] at hr
    obtain ⟨hp, hr⟩ := hr
    rw [Bool.not_eq_true] at hp
    have first : ∃ b init' k rest es', AreEffects inAsync b ∧
        listForms inAsync b = optionForms inAsync init ∧
        init'.any (·.hasSuspend inAsync) = false ∧
        (lowerHead inAsync ds).run k = .ok ((rest, es'), m) ∧
        before = b ++ rest ∧ es = .mk p init' :: es' := by
      cases init with
      | none =>
        simp only [run_bind_ok, run_pure_ok, Prod.mk.injEq] at hr
        obtain ⟨⟨b, i⟩, k, ⟨⟨rfl, rfl⟩, rfl⟩, ⟨rest, es'⟩, k', hrest, ⟨rfl, rfl⟩, rfl⟩ := hr
        exact ⟨[], none, _, rest, es', by simp [AreEffects], rfl, rfl, hrest, rfl, rfl⟩
      | some e =>
        dsimp only at hr
        split at hr
        · simp only [run_bind_ok, run_pure_ok, Prod.mk.injEq] at hr
          obtain ⟨h, k₁, hh, t, k₂, ht, ⟨b, i⟩, k, ⟨⟨rfl, rfl⟩, rfl⟩, ⟨rest, es'⟩, k', hrest,
            ⟨rfl, rfl⟩, rfl⟩ := hr
          obtain ⟨hrest', hb, hf⟩ := hoist_sound inAsync e h n k₁ hh
          rw [← forms_eq_nil_iff] at hrest'
          obtain ⟨h1, xs, h2, h3⟩ := settle_forms inAsync _ _ _ _ _ ht hrest'
          refine ⟨t.before, some t.rest, _, rest, es', ?_, ?_, ?_, hrest, rfl, rfl⟩
          · rw [h2]
            exact areEffects_append hb (areEffects_of_forms h3)
          · simp [h2, h3, hf, optionForms]
          · simpa [forms_eq_nil_iff] using h1
        · split at hr
          · simp only [run_bind_ok, run_pure_ok, Prod.mk.injEq] at hr
            obtain ⟨h, k₁, hh, ⟨b, i⟩, k, ⟨⟨rfl, rfl⟩, rfl⟩, ⟨rest, es'⟩, k', hrest, ⟨rfl, rfl⟩,
              rfl⟩ := hr
            obtain ⟨hrest', hb, hf⟩ := lowerValue_sound inAsync e h n k₁ hh
            exact ⟨h.before, some h.rest, _, rest, es', hb, hf, by simpa using hrest', hrest, rfl,
              rfl⟩
          · rename_i he
            simp only [run_bind_ok, run_pure_ok, Prod.mk.injEq] at hr
            obtain ⟨⟨b, i⟩, k, ⟨⟨rfl, rfl⟩, rfl⟩, ⟨rest, es'⟩, k', hrest, ⟨rfl, rfl⟩, rfl⟩ := hr
            rw [Bool.not_eq_true] at he
            exact ⟨[], some e, _, rest, es', by simp [AreEffects],
              ((forms_eq_nil_iff inAsync e).2 he).symm, by simpa using he, hrest, rfl, rfl⟩
    obtain ⟨b, init', k, rest, es', h1, h2, h3, hrest, rfl, rfl⟩ := first
    obtain ⟨i1, i2, i3, i4⟩ := ih es' rest k m hrest
    refine ⟨areEffects_append h1 i1, by simp [h2, i2, Declarator.forms], ?_, ?_⟩
    · rw [listHasSuspend_append, i3]
      have : listHasSuspend inAsync b = init.any (·.hasSuspend inAsync) := by
        apply eq_of_false_iff
        rw [← listForms_eq_nil_iff, h2, optionForms_eq_nil_iff]
      simp [this, Declarator.hasSuspend, hp]
    · simp only [List.any_cons, Bool.or_eq_false_iff]
      exact ⟨by simp [Declarator.hasSuspend, h3, hp], i4⟩

theorem run_check_ok (target : ForTarget) (u : Unit) (n m : SlotNumber) :
    (target.check inAsync).run n = .ok (u, m) ↔
      target.pattern.hasSuspend inAsync = false ∧ n = m := by
  rw [ForTarget.check]
  cases target.pattern.hasSuspend inAsync with
  | true => simp [run_refuse_ok]
  | false => simpa using run_pure_ok () u n m

theorem forInit_forms (init : ForInit) (h : init.hasSuspend inAsync = false) :
    init.forms inAsync = [] := by
  cases init with
  | absent => rfl
  | declare kind ds =>
    refine List.flatMap_eq_nil_iff.2 fun d hd => ?_
    have h := List.any_eq_false.1 h d hd
    obtain ⟨p, i⟩ := d
    simp only [Declarator.hasSuspend, Bool.or_eq_true, not_or, Bool.not_eq_true] at h
    exact (optionForms_eq_nil_iff inAsync i).2 h.1
  | expr e => exact (forms_eq_nil_iff inAsync e).2 h

theorem hoistEffect_sound (e : Expr) (before : List Expr) (n m : SlotNumber)
    (hr : (e.hoistEffect inAsync).run n = .ok (before, m)) :
    AreEffects inAsync before ∧ listForms inAsync before = e.forms inAsync := by
  have h := (hoists_effects inAsync [e] n m before hr).sound
  simpa [Hoisting.Sound] using h

theorem ForInit.lower_sound (init init' : ForInit) (before : List Expr) (n m : SlotNumber)
    (hr : (init.lower inAsync).run n = .ok ((before, init'), m)) :
    AreEffects inAsync before ∧ listForms inAsync before = init.forms inAsync ∧
      listHasSuspend inAsync before = init.hasSuspend inAsync ∧
      init'.hasSuspend inAsync = false := by
  cases init with
  | absent =>
    simp only [ForInit.lower, run_pure_ok, Prod.mk.injEq] at hr
    obtain ⟨⟨rfl, rfl⟩, -⟩ := hr
    exact ⟨by simp [AreEffects], rfl, rfl, rfl⟩
  | declare kind ds =>
    simp only [ForInit.lower, run_bind_ok, run_pure_ok, Prod.mk.injEq] at hr
    obtain ⟨⟨b, es⟩, k, hh, ⟨rfl, rfl⟩, -⟩ := hr
    exact lowerHead_sound inAsync ds es b n k hh
  | expr e =>
    rw [ForInit.lower] at hr
    split at hr
    · rename_i he
      simp only [run_pure_ok, Prod.mk.injEq] at hr
      obtain ⟨⟨rfl, rfl⟩, -⟩ := hr
      have he : e.hasSuspend inAsync = false := by simpa using he
      exact ⟨by simp [AreEffects], ((forms_eq_nil_iff inAsync e).2 he).symm, he.symm, he⟩
    · simp only [run_bind_ok, run_checkYields_ok, run_pure_ok, Prod.mk.injEq] at hr
      obtain ⟨-, k, ⟨-, rfl⟩, b, k', hb, ⟨rfl, rfl⟩, -⟩ := hr
      obtain ⟨h1, h2⟩ := hoistEffect_sound inAsync e b n k' hb
      exact ⟨h1, h2, hasSuspend_of_forms inAsync h2, rfl⟩

end Parts

theorem declaratorForms_of_plain (inAsync : Bool) (ds : List Declarator)
    (h : ds.any (·.hasSuspend inAsync) = false) : ds.flatMap (Declarator.forms inAsync) = [] :=
  forInit_forms inAsync (.declare .var ds) h

mutual

theorem stmtForms_of_plain (inAsync : Bool) : (s : Stmt) → s.hasSuspend inAsync = false →
    s.forms inAsync = []
  | .empty, _ | .brk _, _ | .cont _, _ | .function _ _, _ => rfl
  | .expr e, h | .throw e, h => (forms_eq_nil_iff inAsync e).2 h
  | .ret e, h => (optionForms_eq_nil_iff inAsync e).2 h
  | .declare _ ds, h => declaratorForms_of_plain inAsync ds h
  | .block b, h => bodyForms_of_plain inAsync b h
  | .ifElse t y none, h => by
    simp only [Stmt.hasSuspend, Bool.or_eq_false_iff] at h
    simp [Stmt.forms, (forms_eq_nil_iff inAsync t).2 h.1, stmtForms_of_plain inAsync y h.2]
  | .ifElse t y (some n), h => by
    simp only [Stmt.hasSuspend, Bool.or_eq_false_iff] at h
    simp [Stmt.forms, (forms_eq_nil_iff inAsync t).2 h.1.1, stmtForms_of_plain inAsync y h.1.2,
      stmtForms_of_plain inAsync n h.2]
  | .whileDo t b, h | .doWhile b t, h => by
    simp only [Stmt.hasSuspend, Bool.or_eq_false_iff] at h
    simp [Stmt.forms, (forms_eq_nil_iff inAsync t).2 h.1, stmtForms_of_plain inAsync b h.2]
  | .forLoop i t u b, h => by
    simp only [Stmt.hasSuspend, Bool.or_eq_false_iff] at h
    simp [Stmt.forms, forInit_forms inAsync i h.1.1.1, (optionForms_eq_nil_iff inAsync t).2 h.1.1.2,
      (optionForms_eq_nil_iff inAsync u).2 h.1.2, stmtForms_of_plain inAsync b h.2]
  | .forIn p e b, h => by
    simp only [Stmt.hasSuspend, Bool.or_eq_false_iff] at h
    simp [Stmt.forms, (forms_eq_nil_iff inAsync e).2 h.1.1, stmtForms_of_plain inAsync b h.1.2]
  | .forOf p e b a, h => by
    simp only [Stmt.hasSuspend, Bool.or_eq_false_iff] at h
    simp [Stmt.forms, (forms_eq_nil_iff inAsync e).2 h.1.1.2, stmtForms_of_plain inAsync b h.1.2]
  | .tryCatch b none none, h => bodyForms_of_plain inAsync b h
  | .tryCatch b none (some f), h => by
    simp only [Stmt.hasSuspend, Bool.or_eq_false_iff] at h
    simp [Stmt.forms, bodyForms_of_plain inAsync b h.1, bodyForms_of_plain inAsync f h.2]
  | .tryCatch b (some (.mk p c)) none, h => by
    simp only [Stmt.hasSuspend, Bool.or_eq_false_iff] at h
    simp [Stmt.forms, bodyForms_of_plain inAsync b h.1.1, bodyForms_of_plain inAsync c h.1.2]
  | .tryCatch b (some (.mk p c)) (some f), h => by
    simp only [Stmt.hasSuspend, Bool.or_eq_false_iff] at h
    simp [Stmt.forms, bodyForms_of_plain inAsync b h.1.1.1, bodyForms_of_plain inAsync c h.1.1.2,
      bodyForms_of_plain inAsync f h.2]
  | .switch e cases, h => by
    simp only [Stmt.hasSuspend, Bool.or_eq_false_iff] at h
    simp [Stmt.forms, (forms_eq_nil_iff inAsync e).2 h.1, caseForms_of_plain inAsync cases h.2]
  | .labeled _ s, h => stmtForms_of_plain inAsync s h

theorem bodyForms_of_plain (inAsync : Bool) : (ss : List Stmt) → anySuspend inAsync ss = false →
    bodyForms inAsync ss = []
  | [], _ => rfl
  | s :: ss, h => by
    simp only [anySuspend, Bool.or_eq_false_iff] at h
    simp [bodyForms, stmtForms_of_plain inAsync s h.1, bodyForms_of_plain inAsync ss h.2]

theorem caseForms_of_plain (inAsync : Bool) : (cases : List Case) →
    casesHaveSuspend inAsync cases = false → caseForms inAsync cases = []
  | [], _ => rfl
  | .mk t body :: cases, h => by
    simp only [casesHaveSuspend, Bool.or_eq_false_iff] at h
    simp [caseForms, (optionForms_eq_nil_iff inAsync t).2 h.1.1,
      bodyForms_of_plain inAsync body h.1.2, caseForms_of_plain inAsync cases h.2]

end

theorem runsWhole_of_plain (inAsync : Bool) (s : Stmt) (h : s.hasSuspend inAsync = false) :
    s.runsWhole inAsync = true := by
  rw [Stmt.runsWhole.eq_def]
  split <;> grind [Stmt.hasSuspend]

theorem jumps_of_plain (inAsync : Bool) (around : List Breakable) (labels : List String)
    (s : Stmt) (h : s.hasSuspend inAsync = false) (hj : s.isJump = false) :
    s.jumps inAsync around labels = [] := by
  have hw := runsWhole_of_plain inAsync s h
  match s with
  | .labeled label s =>
    cases hs : s.isJump with
    | true => simp [Stmt.jumps, hs]
    | false =>
      simpa [Stmt.jumps, hs] using jumps_of_plain inAsync around (labels ++ [label]) s h hs
  | .brk _ | .cont _ => simp [Stmt.isJump] at hj
  | .empty | .expr _ | .throw _ | .ret _ | .declare _ _ | .function _ _ => rfl
  | .block _ | .ifElse _ _ none | .ifElse _ _ (some _) | .whileDo _ _ | .doWhile _ _
  | .forLoop _ _ _ _ | .forIn _ _ _ | .forOf _ _ _ _ | .switch _ _ | .tryCatch _ none none
  | .tryCatch _ none (some _) | .tryCatch _ (some (.mk _ _)) none
  | .tryCatch _ (some (.mk _ _)) (some _) => simp only [Stmt.jumps, hw, if_true]

end Resumable
