import Resumable.Proofs.Lowering.Admission

/-!
Which bodies lowering takes. Main statement: `supported_iff_accepted`: the supported bodies, apart from
those that crowd the head of a loop.
-/

set_option autoImplicit false

namespace Resumable

open Lower (Admits)

section Statements

variable {inAsync : Bool}

/-- Whether there are two if one of them nests another. -/
def NestsTwo (es : List Expr) : Prop := es.any Expr.wrapsYield = true → 2 ≤ es.length

theorem NestsTwo.nil : NestsTwo [] := nofun

theorem NestsTwo.append {es ds : List Expr} (he : NestsTwo es) (hd : NestsTwo ds) :
    NestsTwo (es ++ ds) := by
  intro h
  rw [List.any_append, Bool.or_eq_true] at h
  rw [List.length_append]
  obtain h | h := h
  · exact Nat.le_add_right_of_le (he h)
  · exact Nat.le_add_left_of_le (hd h)

theorem NestsTwo.wrap {e d : Expr} (he : NestsTwo (e.suspends false))
    (hd : d.wrapsYield = !e.yields.isEmpty) : NestsTwo (e.suspends false ++ [d]) := by
  intro h
  rw [List.length_append, List.length_singleton]
  rw [List.any_append, Bool.or_eq_true] at h
  obtain h | h := h
  · exact Nat.le_succ_of_le (he h)
  · have hne : e.suspends false ≠ [] := by simpa [hd, Expr.yields] using h
    exact Nat.succ_le_succ (List.length_pos_iff.2 hne)

mutual

theorem Expr.nestsTwo : (e : Expr) → NestsTwo (e.suspends false)
  | .null | .bool _ | .num _ | .str _ | .ident _ | .this | .function _ _ | .arrow _
  | .lambda _ _ _ => .nil
  | .yield none | .yieldStar none => nofun
  | .yield (some e) | .yieldStar (some e) => e.nestsTwo.wrap rfl
  | .await e => e.nestsTwo.append .nil
  | .unary _ e | .typeof e | .void e | .spread e | .dot e _ | .update _ _ e => e.nestsTwo
  | .binary _ l r | .index l r | .logical _ l r | .assign _ l r => l.nestsTwo.append r.nestsTwo
  | .cond t y n => (t.nestsTwo.append y.nestsTwo).append n.nestsTwo
  | .call f args | .new f args => f.nestsTwo.append (listNestsTwo args)
  | .array items => itemsNestTwo items
  | .object ps => propertiesNestTwo ps
  | .seq items => listNestsTwo items

theorem listNestsTwo : (es : List Expr) → NestsTwo (listSuspends false es)
  | [] => .nil
  | e :: es => e.nestsTwo.append (listNestsTwo es)

theorem itemsNestTwo : (items : List (Option Expr)) → NestsTwo (itemsSuspends false items)
  | [] => .nil
  | none :: items => itemsNestTwo items
  | some e :: items => e.nestsTwo.append (itemsNestTwo items)

theorem propertiesNestTwo : (ps : List Property) → NestsTwo (propertiesSuspends false ps)
  | [] => .nil
  | .mk (.computed k) v :: ps => (k.nestsTwo.append v.nestsTwo).append (propertiesNestTwo ps)
  | .mk (.ident _) v :: ps | .mk (.str _) v :: ps | .mk (.num _) v :: ps =>
    v.nestsTwo.append (propertiesNestTwo ps)

end

theorem isSupported_eq (e : Expr) :
    e.isSupported inAsync = (decide (e.yields.length ≤ 1) && e.isHoistable inAsync) := by
  by_cases h : e.yields.length ≤ 1
  · have hnone : (e.suspends false).any Expr.wrapsYield = false := by
      rw [Bool.eq_false_iff]
      intro hany
      have htwo := e.nestsTwo hany
      exact absurd htwo (Nat.not_le_of_lt (Nat.lt_succ_of_le h))
    simp [Expr.isSupported, Expr.isHoistable, hnone]
  · simp [Expr.isSupported, h]

theorem isSupported_of_plain {e : Expr} (h : e.hasSuspend inAsync = false) :
    e.isSupported inAsync = true := by
  simp [Expr.isSupported, Expr.yields, yields_of_plain h,
    e.isRegular_of_plain (suspends_of_plain h)]

theorem checkYields_admits (e : Expr) :
    e.checkYields.Admits false (decide (e.yields.length ≤ 1)) := by
  intro n
  rw [decide_eq_true_iff]
  refine ⟨fun ⟨⟨⟨u, m⟩, hr⟩, _⟩ => ((run_checkYields_ok ..).1 hr).1, fun h => ⟨⟨((), n), ?_⟩, rfl⟩⟩
  exact (run_checkYields_ok ..).2 ⟨h, rfl⟩

theorem lowerValue_admits (e : Expr) :
    (e.lowerValue inAsync).Admits false (e.isSupported inAsync) := by
  rw [isSupported_eq]
  exact (checkYields_admits e).bind fun _ => e.hoist_admits

theorem hoistEffect_admits (e : Expr) :
    (e.hoistEffect inAsync).Admits false (e.isHoistable inAsync) :=
  (hoistEffects_admits [e]).congr rfl (by rw [areHoistable_cons]; exact (Bool.and_true _).symm)

theorem areHoistable_of_lowered {es : List Expr} (h : sequenceIsLowered inAsync es = true) :
    areHoistable inAsync es = true := by
  induction es with
  | nil => rfl
  | cons e es ih =>
    cases es with
    | nil =>
      rw [areHoistable_cons, isHoistable_of_plain (by simpa [sequenceIsLowered] using h)]
      rfl
    | cons d es =>
      simp only [sequenceIsLowered, Bool.and_eq_true, Bool.or_eq_true, Bool.not_eq_true'] at h
      have he : e.isHoistable inAsync = true := by
        obtain hplain | hsimple := h.1
        · exact isHoistable_of_plain hplain
        · exact isHoistable_of_isSimpleEffect hsimple
      rw [areHoistable_cons, he, ih h.2]
      rfl

theorem isHoistable_of_loweredCondition {e : Expr} (h : e.isLoweredCondition inAsync = true) :
    e.isHoistable inAsync = true := by
  rcases e.seq_cases with ⟨items, rfl⟩ | he
  · exact areHoistable_of_lowered h
  · rw [Expr.isLoweredCondition.eq_def] at h
    split at h
    · cases he
    · exact isHoistable_of_plain (by simpa using h)

theorem lowerCondition_admits (e : Expr) :
    (e.lowerCondition inAsync).Admits false (e.isSupported inAsync) := by
  rw [Expr.lowerCondition]
  cases hs : e.hasSuspend inAsync with
  | false =>
    rw [isSupported_of_plain hs]
    exact .pure _
  | true =>
    rw [isSupported_eq]
    refine (checkYields_admits e).bind fun _ => ?_
    split
    · rename_i hlowered
      rw [isHoistable_of_loweredCondition hlowered]
      exact .pure _
    · exact e.hoist_admits.map _

theorem lowerConditions_admits (e : Option Expr) :
    (lowerConditions inAsync e).Admits false (optionIsSupported inAsync e) := by
  cases e with
  | none => exact .pure _
  | some e => exact (lowerCondition_admits e).map some

theorem check_admits (target : ForTarget) :
    (target.check inAsync).Admits false (!target.pattern.hasSuspend inAsync) := by
  rw [ForTarget.check]
  cases target.pattern.hasSuspend inAsync with
  | true => exact .refuse _
  | false => exact .pure _

theorem lowerDeclarators_admits (kind : VarKind) (ds : List Declarator) :
    (lowerDeclarators inAsync kind ds).Admits false (ds.all (·.isSupported inAsync)) := by
  induction ds with
  | nil => exact .pure _
  | cons d ds ih =>
    obtain ⟨p, init⟩ := d
    rw [lowerDeclarators, List.all_cons, Declarator.isSupported, Bool.and_assoc]
    refine Admits.guard ?_ _ _ _
    cases init with
    | none => exact (Admits.pure _).bind fun _ => ih.map _
    | some e =>
      dsimp only [optionIsSupported, Option.all_some]
      cases hs : e.hasSuspend inAsync with
      | false =>
        rw [isSupported_of_plain hs]
        exact (Admits.pure _).bind fun _ => ih.map _
      | true =>
        exact (lowerValue_admits e).bind fun _ =>
          ((Admits.pure _).bind fun _ => ih.map _).congr rfl (Bool.true_and _).symm

theorem isHoistable_crowded (e : Expr) :
    (e.isHoistable inAsync && !decide (1 < e.yields.length)) = e.isSupported inAsync := by
  rw [isSupported_eq, Bool.and_comm]
  by_cases h : e.yields.length ≤ 1
  · simp [h]
  · simp [h]

/-- Initializers before a suspending one are not counted, so that they may crowd the head. -/
theorem lowerHead_admits (ds : List Declarator) :
    (lowerHead inAsync ds).Admits (crowds inAsync ds) (ds.all (·.isSupported inAsync)) := by
  induction ds with
  | nil => exact .pure _
  | cons d ds ih =>
    obtain ⟨p, init⟩ := d
    rw [lowerHead, List.all_cons, Declarator.isSupported, Bool.and_assoc]
    refine Admits.guard ?_ _ _ _
    cases init with
    | none =>
      refine ((Admits.pure _).bind fun _ => ih.map _).congr ?_ rfl
      simp [crowds]
    | some e =>
      dsimp only [optionIsSupported, Option.all_some]
      cases hlater : ds.any (·.initHasSuspend inAsync) with
      | true =>
        have hfirst : (e.hoist inAsync).Admits (decide (1 < e.yields.length))
            (e.isSupported inAsync) :=
          (e.hoist_admits.crowd _).congr rfl (isHoistable_crowded e).symm
        refine (hfirst.bind fun h => (settle_admits h true).bind fun _ =>
          (Admits.pure _).bind fun _ => ih.map _).congr ?_ ?_
        · simp [crowds, hlater]
        · simp
      | false =>
        have hcrowds : crowds inAsync (.mk p (some e) :: ds) = crowds inAsync ds := by
          simp [crowds, hlater]
        rw [hcrowds]
        cases hs : e.hasSuspend inAsync with
        | false =>
          rw [isSupported_of_plain hs]
          exact ((Admits.pure _).bind fun _ => ih.map _).congr (Bool.false_or _).symm rfl
        | true =>
          refine ((lowerValue_admits e).bind fun _ => (Admits.pure _).bind fun _ =>
            ih.map _).congr ?_ ?_
          · simp
          · simp

theorem forInit_admits (init : ForInit) :
    (init.lower inAsync).Admits (init.crowds inAsync) (init.isSupported inAsync) := by
  cases init with
  | absent => exact .pure _
  | declare kind ds => exact (lowerHead_admits ds).map _
  | expr e =>
    rw [ForInit.lower, ForInit.isSupported]
    cases hs : e.hasSuspend inAsync with
    | false =>
      rw [isSupported_of_plain hs]
      exact .pure _
    | true =>
      rw [isSupported_eq]
      exact (checkYields_admits e).bind fun _ => (hoistEffect_admits e).map _

theorem optionIsSupported_of_plain {e : Option Expr} (h : e.any (·.hasSuspend inAsync) = false) :
    optionIsSupported inAsync e = true := by
  cases e with
  | none => rfl
  | some e => exact isSupported_of_plain h

theorem declarators_of_plain {ds : List Declarator} (h : ds.any (·.hasSuspend inAsync) = false) :
    ds.all (·.isSupported inAsync) = true ∧ crowds inAsync ds = false := by
  induction ds with
  | nil => exact ⟨rfl, rfl⟩
  | cons d ds ih =>
    obtain ⟨p, init⟩ := d
    rw [List.any_cons, Bool.or_eq_false_iff] at h
    obtain ⟨hd, hds⟩ := h
    obtain ⟨hall, hcrowds⟩ := ih hds
    obtain ⟨hinit, hp⟩ :
        init.any (·.hasSuspend inAsync) = false ∧ p.hasSuspend inAsync = false := by
      simpa only [Declarator.hasSuspend, Bool.or_eq_false_iff] using hd
    have hlater : ds.any (·.initHasSuspend inAsync) = false := by
      rw [List.any_eq_false] at hds ⊢
      intro d hd hsuspends
      obtain ⟨q, init⟩ := d
      exact hds _ hd (by simp_all [Declarator.hasSuspend, Declarator.initHasSuspend])
    constructor
    · rw [List.all_cons, hall, Declarator.isSupported, hp, optionIsSupported_of_plain hinit]
      rfl
    · simp [crowds, hcrowds, hlater]

theorem forInit_of_plain {init : ForInit} (h : init.hasSuspend inAsync = false) :
    init.isSupported inAsync = true ∧ init.crowds inAsync = false := by
  cases init with
  | absent => exact ⟨rfl, rfl⟩
  | declare kind ds => exact declarators_of_plain h
  | expr e => exact ⟨isSupported_of_plain h, rfl⟩

mutual

theorem Stmt.supported_of_plain : (s : Stmt) → s.hasSuspend inAsync = false →
    s.isSupported inAsync = true ∧ s.crowdsHead inAsync = false
  | .empty, _ | .brk _, _ | .cont _, _ | .function _ _, _ | .ret none, _ => ⟨rfl, rfl⟩
  | .expr e, h | .throw e, h | .ret (some e), h => ⟨isSupported_of_plain h, rfl⟩
  | .block body, h => supported_of_plain body h
  | .declare _ ds, h => ⟨(declarators_of_plain h).1, rfl⟩
  | .ifElse t y none, h => by
    simp only [Stmt.hasSuspend, Bool.or_eq_false_iff] at h
    obtain ⟨hy, hy'⟩ := y.supported_of_plain h.2
    simp [Stmt.isSupported, Stmt.crowdsHead, isSupported_of_plain h.1, hy, hy']
  | .ifElse t y (some n), h => by
    simp only [Stmt.hasSuspend, Bool.or_eq_false_iff] at h
    obtain ⟨hy, hy'⟩ := y.supported_of_plain h.1.2
    obtain ⟨hn, hn'⟩ := n.supported_of_plain h.2
    simp [Stmt.isSupported, Stmt.crowdsHead, isSupported_of_plain h.1.1, hy, hy', hn, hn']
  | .whileDo t b, h | .doWhile b t, h => by
    simp only [Stmt.hasSuspend, Bool.or_eq_false_iff] at h
    obtain ⟨hb, hb'⟩ := b.supported_of_plain h.2
    simp [Stmt.isSupported, Stmt.crowdsHead, isSupported_of_plain h.1, hb, hb']
  | .forLoop i t u b, h => by
    simp only [Stmt.hasSuspend, Bool.or_eq_false_iff] at h
    obtain ⟨hi, hi'⟩ := forInit_of_plain h.1.1.1
    obtain ⟨hb, hb'⟩ := b.supported_of_plain h.2
    simp [Stmt.isSupported, Stmt.crowdsHead, hi, hi', optionIsSupported_of_plain h.1.1.2,
      optionIsSupported_of_plain h.1.2, hb, hb']
  | .forIn p e b, h => by
    simp only [Stmt.hasSuspend, Bool.or_eq_false_iff] at h
    obtain ⟨hb, hb'⟩ := b.supported_of_plain h.1.2
    simp [Stmt.isSupported, Stmt.crowdsHead, h.2, isSupported_of_plain h.1.1, hb, hb']
  | .forOf p e b _, h => by
    simp only [Stmt.hasSuspend, Bool.or_eq_false_iff] at h
    obtain ⟨hb, hb'⟩ := b.supported_of_plain h.1.2
    simp [Stmt.isSupported, Stmt.crowdsHead, h.2, isSupported_of_plain h.1.1.2, hb, hb']
  | .tryCatch b none none, h => supported_of_plain b h
  | .tryCatch b none (some f), h => by
    simp only [Stmt.hasSuspend, Bool.or_eq_false_iff] at h
    obtain ⟨hb, hb'⟩ := supported_of_plain b h.1
    obtain ⟨hf, hf'⟩ := supported_of_plain f h.2
    simp [Stmt.isSupported, Stmt.crowdsHead, hb, hb', hf, hf']
  | .tryCatch b (some (.mk p c)) none, h => by
    simp only [Stmt.hasSuspend, Bool.or_eq_false_iff] at h
    obtain ⟨hb, hb'⟩ := supported_of_plain b h.1.1
    obtain ⟨hc, hc'⟩ := supported_of_plain c h.1.2
    simp [Stmt.isSupported, Stmt.crowdsHead, hb, hb', hc, hc', h.2]
  | .tryCatch b (some (.mk p c)) (some f), h => by
    simp only [Stmt.hasSuspend, Bool.or_eq_false_iff] at h
    obtain ⟨hb, hb'⟩ := supported_of_plain b h.1.1.1
    obtain ⟨hc, hc'⟩ := supported_of_plain c h.1.1.2
    obtain ⟨hf, hf'⟩ := supported_of_plain f h.2
    simp [Stmt.isSupported, Stmt.crowdsHead, hb, hb', hc, hc', hf, hf', h.1.2]
  | .switch e cases, h => by
    simp only [Stmt.hasSuspend, Bool.or_eq_false_iff] at h
    obtain ⟨hc, hc'⟩ := casesSupported_of_plain cases h.2
    simp [Stmt.isSupported, Stmt.crowdsHead, isSupported_of_plain h.1, hc, hc']
  | .labeled _ s, h => s.supported_of_plain h

theorem supported_of_plain : (ss : List Stmt) → anySuspend inAsync ss = false →
    areSupported inAsync ss = true ∧ anyCrowdsHead inAsync ss = false
  | [], _ => ⟨rfl, rfl⟩
  | s :: ss, h => by
    simp only [anySuspend, Bool.or_eq_false_iff] at h
    obtain ⟨hs, hs'⟩ := s.supported_of_plain h.1
    obtain ⟨hss, hss'⟩ := supported_of_plain ss h.2
    simp [areSupported, anyCrowdsHead, hs, hs', hss, hss']

theorem casesSupported_of_plain : (cases : List Case) → casesHaveSuspend inAsync cases = false →
    casesAreSupported inAsync cases = true ∧ casesCrowdHead inAsync cases = false
  | [], _ => ⟨rfl, rfl⟩
  | .mk t body :: cases, h => by
    simp only [casesHaveSuspend, Bool.or_eq_false_iff] at h
    obtain ⟨hb, hb'⟩ := supported_of_plain body h.1.2
    obtain ⟨hc, hc'⟩ := casesSupported_of_plain cases h.2
    simp [casesAreSupported, casesCrowdHead, h.1.1, hb, hb', hc, hc']

end

theorem lower_admits_of {s : Stmt} (h : s.hasSuspend inAsync = true →
      (s.lower inAsync).Admits (s.crowdsHead inAsync) (s.isSupported inAsync)) :
    (s.lower inAsync).Admits (s.crowdsHead inAsync) (s.isSupported inAsync) := by
  cases hs : s.hasSuspend inAsync with
  | false =>
    have hp : s.lower inAsync = pure [s] := by
      rw [Stmt.lower.eq_def]
      simp [hs]
    obtain ⟨hsupported, hcrowds⟩ := s.supported_of_plain hs
    rw [hp, hsupported, hcrowds]
    exact .pure _
  | true => exact h hs

mutual

theorem Stmt.lower_admits : (s : Stmt) →
    (s.lower inAsync).Admits (s.crowdsHead inAsync) (s.isSupported inAsync)
  | .empty | .brk _ | .cont _ | .function _ _ | .ret none => lower_admits_of fun hs => by cases hs
  | .expr e => lower_admits_of fun hs => by
    rw [Stmt.lower, hs, Stmt.isSupported, isSupported_eq]
    exact (checkYields_admits e).bind fun _ => (hoistEffect_admits e).map _
  | .declare kind ds => lower_admits_of fun hs => by
    rw [Stmt.lower, hs]
    exact lowerDeclarators_admits kind ds
  | .ret (some e) | .throw e => lower_admits_of fun hs => by
    rw [Stmt.lower, hs]
    exact (lowerValue_admits e).map _
  | .block body => lower_admits_of fun hs => by
    rw [Stmt.lower, hs]
    exact (lowerStmts_admits body).map _
  | .ifElse test yes none => lower_admits_of fun hs => by
    rw [Stmt.lower, hs]
    exact (lowerValue_admits test).bind fun _ => yes.lower_admits.map _
  | .ifElse test yes (some no) => lower_admits_of fun hs => by
    rw [Stmt.lower, hs]
    refine ((lowerValue_admits test).bind fun _ => yes.lower_admits.bind fun _ =>
      no.lower_admits.map _).congr ?_ ?_
    · simp [Stmt.crowdsHead]
    · simp [Stmt.isSupported, Bool.and_assoc]
  | .whileDo test body | .doWhile body test => lower_admits_of fun hs => by
    rw [Stmt.lower, hs]
    exact (lowerCondition_admits test).bind fun _ => body.lower_admits.map _
  | .forLoop init test update body => lower_admits_of fun hs => by
    rw [Stmt.lower, hs]
    refine ((forInit_admits init).bind fun _ => (lowerConditions_admits test).bind fun _ =>
      (lowerConditions_admits update).bind fun _ => body.lower_admits.map _).congr ?_ ?_
    · simp [Stmt.crowdsHead]
    · simp [Stmt.isSupported, Bool.and_assoc]
  | .forIn target subject body | .forOf target subject body _ => lower_admits_of fun hs => by
    rw [Stmt.lower, hs]
    refine ((check_admits target).bind fun _ => (lowerValue_admits subject).bind fun _ =>
      body.lower_admits.map _).congr ?_ ?_
    · simp [Stmt.crowdsHead]
    · simp [Stmt.isSupported, Bool.and_assoc]
  | .tryCatch block none none => lower_admits_of fun hs => by
    rw [Stmt.lower, hs]
    exact (lowerStmts_admits block).map _
  | .tryCatch block none (some finalizer) => lower_admits_of fun hs => by
    rw [Stmt.lower, hs]
    exact ((lowerStmts_admits finalizer).bind fun _ => (lowerStmts_admits block).map _).congr
      (Bool.or_comm ..) (Bool.and_comm ..)
  | .tryCatch block (some (.mk param handler)) none => lower_admits_of fun hs => by
    rw [Stmt.lower, hs]
    refine (((lowerStmts_admits handler).bind fun _ => (lowerStmts_admits block).map _).guard
      _ _ _).congr (Bool.or_comm ..) ?_
    rw [Stmt.isSupported]
    ac_rfl
  | .tryCatch block (some (.mk param handler)) (some finalizer) => lower_admits_of fun hs => by
    rw [Stmt.lower, hs]
    refine (((lowerStmts_admits handler).bind fun _ => (lowerStmts_admits finalizer).bind fun _ =>
      (lowerStmts_admits block).map _).guard _ _ _).congr ?_ ?_
    · rw [Stmt.crowdsHead]
      ac_rfl
    · rw [Stmt.isSupported]
      ac_rfl
  | .switch subject cases => lower_admits_of fun hs => by
    rw [Stmt.lower, hs]
    exact (lowerValue_admits subject).bind fun _ => (lowerCases_admits cases).map _
  | .labeled label body => lower_admits_of fun hs => by
    rw [Stmt.lower, hs]
    exact body.lower_admits.map _

theorem lowerStmts_admits : (body : List Stmt) →
    (lowerStmts inAsync body).Admits (anyCrowdsHead inAsync body) (areSupported inAsync body)
  | [] => .pure _
  | s :: ss => by
    rw [lowerStmts]
    exact s.lower_admits.bind fun _ => (lowerStmts_admits ss).map _

theorem lowerCases_admits : (cases : List Case) →
    (lowerCases inAsync cases).Admits (casesCrowdHead inAsync cases)
      (casesAreSupported inAsync cases)
  | [] => .pure _
  | .mk test body :: cases => by
    rw [lowerCases, casesAreSupported, Bool.and_assoc]
    exact ((lowerStmts_admits body).bind fun _ => (lowerCases_admits cases).map _).guard _ _ _

end

end Statements

/-- The supported bodies are those that lowering takes and that crowd the head of no loop. -/
theorem supported_iff_accepted (inAsync : Bool) (body : List Stmt) :
    areSupported inAsync body = true ↔
      (∃ lowered, lowerBody inAsync body = .ok lowered) ∧ anyCrowdsHead inAsync body = false := by
  rw [← lowerStmts_admits body (firstFreeSlot body)]
  refine and_congr_left' ?_
  rw [lowerBody]
  cases (lowerStmts inAsync body).run (firstFreeSlot body) with
  | ok r => exact ⟨fun _ => ⟨_, rfl⟩, fun _ => ⟨_, rfl⟩⟩
  | error o => exact ⟨(by simp), (by simp)⟩

/-- The head of a loop that lowering takes although one of its initializers yields twice. -/
theorem lowerBody_crowded_head :
    let head := ForInit.declare .var [
      .mk (.ident "a") (some (.binary .add (.yield none) (.yield none))),
      .mk (.ident "b") (some (.yield none))]
    areSupported false [.forLoop head (some (.bool false)) none .empty] = false ∧
      ∃ lowered, lowerBody false [.forLoop head (some (.bool false)) none .empty] = .ok lowered :=
  ⟨by decide, _, rfl⟩

end Resumable
