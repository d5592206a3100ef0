import Resumable.Proofs.Lowering.Lowered

/-!
To lower a lowered body changes nothing. A statement is fixed if lowering gives it back and draws no
slot; everything that lowering gives is made of fixed statements. Main statement:
`lowerBody_idempotent`.
-/

set_option autoImplicit false

namespace Resumable

section Yields

mutual

theorem suspends_false_eq (inAsync : Bool) : (e : Expr) →
    e.suspends false = (e.suspends inAsync).filter Expr.isYield
  | .null | .bool _ | .num _ | .str _ | .ident _ | .this | .function _ _ | .arrow _
  | .lambda _ _ _ | .yield none | .yieldStar none => rfl
  | .unary _ e | .update _ _ e | .spread e | .typeof e | .void e | .dot e _ =>
    suspends_false_eq inAsync e
  | .binary _ l r | .logical _ l r | .assign _ l r | .index l r => by
    simp [Expr.suspends, suspends_false_eq inAsync l, suspends_false_eq inAsync r]
  | .cond t y n => by
    simp [Expr.suspends, suspends_false_eq inAsync t, suspends_false_eq inAsync y,
      suspends_false_eq inAsync n]
  | .call f args | .new f args => by
    simp [Expr.suspends, suspends_false_eq inAsync f, listSuspends_false_eq inAsync args]
  | .seq items => listSuspends_false_eq inAsync items
  | .array items => itemsSuspends_false_eq inAsync items
  | .object ps => propertiesSuspends_false_eq inAsync ps
  | .yield (some e) | .yieldStar (some e) => by
    rw [Expr.suspends, Expr.suspends, List.filter_append, suspends_false_eq inAsync e]
    rfl
  | .await e => by
    rw [Expr.suspends, Expr.suspends, List.filter_append, suspends_false_eq inAsync e]
    cases inAsync <;> rfl

theorem listSuspends_false_eq (inAsync : Bool) : (es : List Expr) →
    listSuspends false es = (listSuspends inAsync es).filter Expr.isYield
  | [] => rfl
  | e :: es => by
    simp [listSuspends, suspends_false_eq inAsync e, listSuspends_false_eq inAsync es]

theorem itemsSuspends_false_eq (inAsync : Bool) : (items : List (Option Expr)) →
    itemsSuspends false items = (itemsSuspends inAsync items).filter Expr.isYield
  | [] => rfl
  | none :: items => by simp [itemsSuspends, itemsSuspends_false_eq inAsync items]
  | some e :: items => by
    simp [itemsSuspends, suspends_false_eq inAsync e, itemsSuspends_false_eq inAsync items]

theorem propertiesSuspends_false_eq (inAsync : Bool) : (ps : List Property) →
    propertiesSuspends false ps = (propertiesSuspends inAsync ps).filter Expr.isYield
  | [] => rfl
  | .mk (.computed k) v :: ps => by
    simp [propertiesSuspends, suspends_false_eq inAsync k, suspends_false_eq inAsync v,
      propertiesSuspends_false_eq inAsync ps]
  | .mk (.ident _) v :: ps | .mk (.str _) v :: ps | .mk (.num _) v :: ps => by
    simp [propertiesSuspends, suspends_false_eq inAsync v, propertiesSuspends_false_eq inAsync ps]

end

def SuspendForm.isYield : SuspendForm → Bool
  | .yield _ | .delegate _ => true
  | .await => false

theorem isYield_form (e : Expr) : e.form.isYield = e.isYield := by
  cases e <;> rfl

/-- How many `yield`s there are can be told from the forms of the suspend points. -/
theorem length_yields (inAsync : Bool) (e : Expr) :
    e.yields.length = (e.forms inAsync).countP SuspendForm.isYield := by
  have h : SuspendForm.isYield ∘ Expr.form = Expr.isYield := funext isYield_form
  rw [Expr.yields, suspends_false_eq inAsync e, ← List.countP_eq_length_filter, Expr.forms, List.countP_map, h]

theorem yields_le_one_of_forms {inAsync : Bool} {e : Expr} (h : (e.forms inAsync).length ≤ 1) :
    e.yields.length ≤ 1 := by
  rw [length_yields inAsync]
  exact Nat.le_trans (List.countP_le_length) h

end Yields

section Parts

variable {inAsync : Bool}

theorem forms_of_isSimpleSuspend {e : Expr} (h : e.isSimpleSuspend inAsync = true) :
    e.forms inAsync = [e.form] := by
  match e with
  | .yield none | .yieldStar none => rfl
  | .yield (some d) | .yieldStar (some d) =>
    have hd : d.suspends inAsync = [] := by simpa [Expr.isSimpleSuspend, Expr.hasSuspend] using h
    simp [Expr.forms, Expr.suspends, hd]
  | .await d =>
    simp only [Expr.isSimpleSuspend, Expr.hasSuspend, Bool.and_eq_true] at h
    obtain ⟨rfl, hd⟩ := h
    have hd : d.suspends true = [] := by simpa using hd
    simp [Expr.forms, Expr.suspends, hd]

theorem forms_of_isSimpleEffect {e : Expr} (h : e.isSimpleEffect inAsync = true) :
    (e.forms inAsync).length = 1 := by
  rw [Expr.isSimpleEffect.eq_def] at h
  split at h
  · simp [forms_of_isSimpleSuspend h]
  · simp [forms_of_isSimpleSuspend h]

theorem isSeq_of_isSimpleEffect {e : Expr} (h : e.isSimpleEffect inAsync = true) :
    e.isSeq = false := by
  rcases e.seq_cases with ⟨items, rfl⟩ | he
  · simp [Expr.isSimpleEffect, Expr.isSimpleSuspend] at h
  · exact he

theorem hoistEffect_of_isSimpleEffect {e : Expr} (h : e.isSimpleEffect inAsync = true)
    (n : SlotNumber) : (e.hoistEffect inAsync).run n = .ok ([e], n) := by
  have hs := isSeq_of_isSimpleEffect h
  rw [Expr.hoistEffect, hoistEffects_cons inAsync e [] hs, Expr.hoistOne, if_pos h]
  rfl

theorem checkYields_of_forms {e : Expr} (h : (e.forms inAsync).length ≤ 1) (n : SlotNumber) :
    e.checkYields.run n = .ok ((), n) :=
  (run_checkYields_ok ..).2 ⟨yields_le_one_of_forms h, rfl⟩

theorem lowerValue_of_plain {e : Expr} (h : e.hasSuspend inAsync = false) (n : SlotNumber) :
    (e.lowerValue inAsync).run n = .ok (⟨[], e⟩, n) := by
  have hf : (e.forms inAsync).length ≤ 1 := by simp [(forms_eq_nil_iff inAsync e).2 h]
  rw [Expr.lowerValue, run_bind_ok]
  exact ⟨(), n, checkYields_of_forms hf n, (hoist_run_plain inAsync e _ n n h).2 ⟨rfl, rfl⟩⟩

/-- Whether lowering leaves a test or an update as it is. -/
def Expr.IsFixedCondition (inAsync : Bool) (e : Expr) : Prop :=
  ∀ n, (e.lowerCondition inAsync).run n = .ok (e, n)

theorem lowerCondition_fixed {e d : Expr} {n m : SlotNumber}
    (hr : (e.lowerCondition inAsync).run n = .ok (d, m)) : d.IsFixedCondition inAsync := by
  obtain ⟨hd, hf⟩ := lowerCondition_sound inAsync e d n m hr
  intro k
  rw [Expr.lowerCondition]
  cases hs : d.hasSuspend inAsync with
  | false => rfl
  | true =>
    have he : e.hasSuspend inAsync = true := by rw [← hasSuspend_eq_of_forms inAsync hf, hs]
    -- the first pass has counted the yields, and the second finds as many
    have hy : d.yields.length ≤ 1 := by
      rw [Expr.lowerCondition, run_unless_ok he] at hr
      simp only [run_bind_ok, run_checkYields_ok] at hr
      obtain ⟨-, -, ⟨hy, -⟩, -⟩ := hr
      rwa [length_yields inAsync, hf, ← length_yields]
    rw [run_unless_ok rfl, run_bind_ok]
    refine ⟨(), k, (run_checkYields_ok ..).2 ⟨hy, rfl⟩, ?_⟩
    rw [if_pos hd]
    rfl

theorem lowerConditions_fixed {e d : Option Expr} {n m : SlotNumber}
    (hr : (lowerConditions inAsync e).run n = .ok (d, m)) (k : SlotNumber) :
    (lowerConditions inAsync d).run k = .ok (d, k) := by
  cases e with
  | none =>
    obtain ⟨rfl, -⟩ := (run_pure_ok ..).1 hr
    rfl
  | some e =>
    obtain ⟨d, hd, rfl⟩ := (run_map_ok ..).1 hr
    exact (run_map_ok ..).2 ⟨d, lowerCondition_fixed hd k, rfl⟩

theorem lowerHead_of_plain {ds : List Declarator} (h : ds.any (·.hasSuspend inAsync) = false)
    (n : SlotNumber) : (lowerHead inAsync ds).run n = .ok (([], ds), n) := by
  induction ds with
  | nil => rfl
  | cons d ds ih =>
    obtain ⟨p, init⟩ := d
    simp only [List.any_cons, Bool.or_eq_false_iff, Declarator.hasSuspend] at h
    obtain ⟨⟨hi, hp⟩, hds⟩ := h
    have hlater : ds.any (·.initHasSuspend inAsync) = false := by
      rw [List.any_eq_false] at hds ⊢
      intro d hd
      obtain ⟨q, i⟩ := d
      have := hds _ hd
      simp_all [Declarator.hasSuspend, Declarator.initHasSuspend]
    rw [lowerHead]
    simp only [run_guard_ok, hp, Bool.false_eq_true, not_false_eq_true, true_and]
    cases init with
    | none =>
      simp only [run_bind_ok, run_pure_ok]
      exact ⟨_, _, ⟨rfl, rfl⟩, _, _, ih hds, rfl, rfl⟩
    | some e =>
      have he : e.hasSuspend inAsync = false := hi
      simp only [hlater, he, Bool.false_eq_true, ↓reduceIte, run_bind_ok, run_pure_ok]
      exact ⟨_, _, ⟨rfl, rfl⟩, _, _, ih hds, rfl, rfl⟩

theorem ForInit.lower_of_plain {init : ForInit} (h : init.hasSuspend inAsync = false)
    (n : SlotNumber) : (init.lower inAsync).run n = .ok (([], init), n) := by
  cases init with
  | absent => rfl
  | declare kind ds =>
    simp only [ForInit.lower, run_bind_ok, run_pure_ok]
    exact ⟨_, _, lowerHead_of_plain h n, rfl, rfl⟩
  | expr e =>
    have he : e.hasSuspend inAsync = false := h
    simp only [ForInit.lower, he, Bool.not_false, ↓reduceIte, run_pure_ok, and_self]

end Parts

def Stmt.IsFixed (inAsync : Bool) (s : Stmt) : Prop :=
  ∀ n, (s.lower inAsync).run n = .ok ([s], n)

/-- Whether lowering leaves the bodies of cases as they are. -/
def CasesAreFixed (inAsync : Bool) (cases : List Case) : Prop :=
  ∀ n, (lowerCases inAsync cases).run n = .ok (cases, n)

section Fixed

variable {inAsync : Bool}

theorem isFixed_of {s : Stmt} (h : s.hasSuspend inAsync = true → s.IsFixed inAsync) :
    s.IsFixed inAsync := by
  cases hs : s.hasSuspend inAsync with
  | false =>
    intro n
    rw [Stmt.lower.eq_def]
    simp only [hs, Bool.not_false, ↓reduceIte, run_pure_ok, and_self]
  | true => exact h hs

theorem isFixed_of_plain {s : Stmt} (hs : s.hasSuspend inAsync = false) : s.IsFixed inAsync :=
  isFixed_of fun h => by simp [hs] at h

theorem isFixed_expr {e : Expr} (h : e.isEffect inAsync = true) : (Stmt.expr e).IsFixed inAsync :=
  isFixed_of fun hs n => by
    have he : e.isSimpleEffect inAsync = true := by
      simpa [Expr.isEffect, show e.hasSuspend inAsync = true from hs] using h
    have hf : (e.forms inAsync).length ≤ 1 := Nat.le_of_eq (forms_of_isSimpleEffect he)
    rw [Stmt.lower]
    simp only [run_unless_ok hs, run_bind_ok, run_pure_ok]
    exact ⟨(), n, checkYields_of_forms hf n, [e], n, hoistEffect_of_isSimpleEffect he n, rfl, rfl⟩

theorem effectStmts_fixed {es : List Expr} (h : AreEffects inAsync es) :
    ∀ s ∈ effectStmts es, s.IsFixed inAsync := by
  intro s hs
  obtain ⟨e, he, rfl⟩ := List.mem_map.1 hs
  exact isFixed_expr (h e he)

theorem fixed_append {ss ts : List Stmt} (hs : ∀ s ∈ ss, s.IsFixed inAsync)
    (ht : ∀ t ∈ ts, t.IsFixed inAsync) : ∀ s ∈ ss ++ ts, s.IsFixed inAsync := by
  intro s h
  rcases List.mem_append.1 h with h | h
  · exact hs s h
  · exact ht s h

theorem fixed_after {es : List Expr} {s : Stmt} (he : AreEffects inAsync es)
    (hs : s.IsFixed inAsync) : ∀ t ∈ effectStmts es ++ [s], t.IsFixed inAsync :=
  fixed_append (effectStmts_fixed he) (by simpa using hs)

theorem lowerStmts_of_fixed {ss : List Stmt} (h : ∀ s ∈ ss, s.IsFixed inAsync) (n : SlotNumber) :
    (lowerStmts inAsync ss).run n = .ok (ss, n) := by
  induction ss with
  | nil => rfl
  | cons s ss ih =>
    simp only [lowerStmts, run_bind_ok, run_pure_ok]
    exact ⟨[s], n, h s (by simp) n, ss, n, ih (fun t ht => h t (by simp [ht])), rfl, rfl⟩

theorem isFixed_block {ss : List Stmt} (h : ∀ s ∈ ss, s.IsFixed inAsync) :
    (Stmt.block ss).IsFixed inAsync :=
  isFixed_of fun hs n => by
    rw [Stmt.lower]
    simp only [run_unless_ok hs, run_bind_ok, run_pure_ok]
    exact ⟨ss, n, lowerStmts_of_fixed h n, rfl, rfl⟩

theorem isFixed_ofList {ss : List Stmt} (h : ∀ s ∈ ss, s.IsFixed inAsync) :
    (Stmt.ofList ss).IsFixed inAsync := by
  rcases ofList_cases ss with ⟨s, rfl, hs⟩ | hs
  · rw [hs]
    exact h s (by simp)
  · rw [hs]
    exact isFixed_block h

theorem labelLast_fixed {ss : List Stmt} (label : String) (h : ∀ s ∈ ss, s.IsFixed inAsync) :
    ∀ s ∈ labelLast label ss, s.IsFixed inAsync := by
  rcases ss.eq_nil_or_concat with rfl | ⟨init, t, rfl⟩
  · intro s hs
    obtain rfl : s = .labeled label .empty := by simpa [labelLast] using hs
    exact isFixed_of_plain rfl
  · rw [List.concat_eq_append] at h ⊢
    have hinit : ∀ s ∈ init, s.IsFixed inAsync := fun s hs => h s (by simp [hs])
    have ht : t.IsFixed inAsync := h t (by simp)
    rw [labelLast_append]
    refine fixed_append hinit ?_
    rintro s hs
    obtain rfl : s = .labeled label t := by simpa using hs
    refine isFixed_of fun hs n => ?_
    rw [Stmt.lower]
    simp only [run_unless_ok hs, run_bind_ok, run_pure_ok]
    exact ⟨[t], n, ht n, rfl, rfl⟩

theorem lowerDeclarators_fixed (kind : VarKind) {ds : List Declarator} {ss : List Stmt}
    {n m : SlotNumber} (hr : (lowerDeclarators inAsync kind ds).run n = .ok (ss, m)) :
    ∀ s ∈ ss, s.IsFixed inAsync := by
  obtain ⟨hl, -, -, hs, -⟩ := lowerDeclarators_sound inAsync kind ds ss n m hr
  clear hr
  induction ss with
  | nil => simp
  | cons s ss ih =>
    rw [areLowered, Bool.and_eq_true] at hl
    have hfirst : s.IsFixed inAsync := by
      have hstraight := hs s (by simp)
      cases s with
      | expr e => exact isFixed_expr hl.1
      | declare kind ds => exact isFixed_of_plain (by simpa [Stmt.isLowered, Stmt.hasSuspend] using hl.1)
      | _ => simp [Stmt.isStraight] at hstraight
    have hrest := ih hl.2 fun t ht => hs t (by simp [ht])
    intro t ht
    rcases List.mem_cons.1 ht with rfl | ht
    · exact hfirst
    · exact hrest t ht

/-- What lowering makes of one statement: all fixed, if the case at hand shows it for those that
suspend. -/
theorem fixed_ofRun {s : Stmt} {ss : List Stmt} {n m : SlotNumber}
    (hr : (s.lower inAsync).run n = .ok (ss, m))
    (h : s.hasSuspend inAsync = true → ∀ t ∈ ss, t.IsFixed inAsync) :
    ∀ t ∈ ss, t.IsFixed inAsync := by
  cases hs : s.hasSuspend inAsync with
  | false =>
    rw [Stmt.lower.eq_def] at hr
    simp only [hs, Bool.not_false, ↓reduceIte, run_pure_ok] at hr
    obtain ⟨rfl, -⟩ := hr
    simpa using isFixed_of_plain hs
  | true => exact h hs

theorem fixed_one {s : Stmt} (h : s.hasSuspend inAsync = true → s.IsFixed inAsync) :
    ∀ t ∈ [s], t.IsFixed inAsync := by
  simpa using isFixed_of h

end Fixed

mutual

theorem Stmt.lower_fixed (inAsync : Bool) : (s : Stmt) → (ss : List Stmt) → (n m : SlotNumber) →
    (s.lower inAsync).run n = .ok (ss, m) → ∀ t ∈ ss, t.IsFixed inAsync
  | .empty, ss, n, m, hr | .brk _, ss, n, m, hr | .cont _, ss, n, m, hr
  | .function _ _, ss, n, m, hr | .ret none, ss, n, m, hr => fixed_ofRun hr fun hs => by
    simp [Stmt.hasSuspend] at hs
  | .expr e, ss, n, m, hr => fixed_ofRun hr fun hs => by
    rw [Stmt.lower] at hr
    simp only [run_unless_ok hs, run_bind_ok, run_pure_ok] at hr
    obtain ⟨-, k, -, before, k', hb, rfl, -⟩ := hr
    exact effectStmts_fixed (hoistEffect_sound inAsync e before k k' hb).1
  | .declare kind ds, ss, n, m, hr => fixed_ofRun hr fun hs => by
    rw [Stmt.lower, run_unless_ok hs] at hr
    exact lowerDeclarators_fixed kind hr
  | .ret (some e), ss, n, m, hr => fixed_ofRun hr fun hs => by
    rw [Stmt.lower] at hr
    simp only [run_unless_ok hs, run_bind_ok, run_pure_ok] at hr
    obtain ⟨h, k, hh, rfl, -⟩ := hr
    obtain ⟨hrest, hb, -⟩ := lowerValue_sound inAsync e h n k hh
    exact fixed_after hb (isFixed_of_plain (by simpa [Stmt.hasSuspend] using hrest))
  | .throw e, ss, n, m, hr => fixed_ofRun hr fun hs => by
    rw [Stmt.lower] at hr
    simp only [run_unless_ok hs, run_bind_ok, run_pure_ok] at hr
    obtain ⟨h, k, hh, rfl, -⟩ := hr
    obtain ⟨hrest, hb, -⟩ := lowerValue_sound inAsync e h n k hh
    exact fixed_after hb (isFixed_of_plain hrest)
  | .block body, ss, n, m, hr => fixed_ofRun hr fun hs => by
    rw [Stmt.lower] at hr
    simp only [run_unless_ok hs, run_bind_ok, run_pure_ok] at hr
    obtain ⟨b, k, hb, rfl, -⟩ := hr
    exact fixed_one fun _ => isFixed_block (lowerStmts_fixed inAsync body b n k hb)
  | .ifElse test yes none, ss, n, m, hr => fixed_ofRun hr fun hs => by
    rw [Stmt.lower] at hr
    simp only [run_unless_ok hs, run_bind_ok, run_pure_ok] at hr
    obtain ⟨h, k, hh, y, k₁, hy, rfl, -⟩ := hr
    obtain ⟨hrest, hb, -⟩ := lowerValue_sound inAsync test h n k hh
    have hy := isFixed_ofList (Stmt.lower_fixed inAsync yes y k k₁ hy)
    refine fixed_after hb (isFixed_of fun hs k => ?_)
    rw [Stmt.lower]
    simp only [run_unless_ok hs, run_bind_ok, run_pure_ok]
    exact ⟨_, _, lowerValue_of_plain hrest k, _, _, hy k, rfl, rfl⟩
  | .ifElse test yes (some no), ss, n, m, hr => fixed_ofRun hr fun hs => by
    rw [Stmt.lower] at hr
    simp only [run_unless_ok hs, run_bind_ok, run_pure_ok] at hr
    obtain ⟨h, k, hh, y, k₁, hy, o, k₂, ho, rfl, -⟩ := hr
    obtain ⟨hrest, hb, -⟩ := lowerValue_sound inAsync test h n k hh
    have hy := isFixed_ofList (Stmt.lower_fixed inAsync yes y k k₁ hy)
    have ho := isFixed_ofList (Stmt.lower_fixed inAsync no o k₁ k₂ ho)
    refine fixed_after hb (isFixed_of fun hs k => ?_)
    rw [Stmt.lower]
    simp only [run_unless_ok hs, run_bind_ok, run_pure_ok]
    exact ⟨_, _, lowerValue_of_plain hrest k, _, _, hy k, _, _, ho k, rfl, rfl⟩
  | .whileDo test body, ss, n, m, hr => fixed_ofRun hr fun hs => by
    rw [Stmt.lower] at hr
    simp only [run_unless_ok hs, run_bind_ok, run_pure_ok] at hr
    obtain ⟨t, k, ht, b, k₁, hb, rfl, -⟩ := hr
    have hb := isFixed_ofList (Stmt.lower_fixed inAsync body b k k₁ hb)
    refine fixed_one fun hs k => ?_
    rw [Stmt.lower]
    simp only [run_unless_ok hs, run_bind_ok, run_pure_ok]
    exact ⟨_, _, lowerCondition_fixed ht k, _, _, hb k, rfl, rfl⟩
  | .doWhile body test, ss, n, m, hr => fixed_ofRun hr fun hs => by
    rw [Stmt.lower] at hr
    simp only [run_unless_ok hs, run_bind_ok, run_pure_ok] at hr
    obtain ⟨t, k, ht, b, k₁, hb, rfl, -⟩ := hr
    have hb := isFixed_ofList (Stmt.lower_fixed inAsync body b k k₁ hb)
    refine fixed_one fun hs k => ?_
    rw [Stmt.lower]
    simp only [run_unless_ok hs, run_bind_ok, run_pure_ok]
    exact ⟨_, _, lowerCondition_fixed ht k, _, _, hb k, rfl, rfl⟩
  | .forLoop init test update body, ss, n, m, hr => fixed_ofRun hr fun hs => by
    rw [Stmt.lower] at hr
    simp only [run_unless_ok hs, run_bind_ok, run_pure_ok] at hr
    obtain ⟨⟨before, i⟩, k, hi, t, k₁, ht, u, k₂, hu, b, k₃, hb, rfl, -⟩ := hr
    obtain ⟨hbefore, -, -, hplain⟩ := ForInit.lower_sound inAsync init i before n k hi
    have hb := isFixed_ofList (Stmt.lower_fixed inAsync body b k₂ k₃ hb)
    refine fixed_after hbefore (isFixed_of fun hs k => ?_)
    rw [Stmt.lower]
    simp only [run_unless_ok hs, run_bind_ok, run_pure_ok]
    exact ⟨_, _, ForInit.lower_of_plain hplain k, _, _, lowerConditions_fixed ht k, _, _,
      lowerConditions_fixed hu k, _, _, hb k, rfl, rfl⟩
  | .forIn target subject body, ss, n, m, hr => fixed_ofRun hr fun hs => by
    rw [Stmt.lower] at hr
    simp only [run_unless_ok hs, run_bind_ok, run_pure_ok] at hr
    obtain ⟨⟨⟩, k, hc, h, k₁, hh, b, k₂, hb, rfl, -⟩ := hr
    obtain ⟨hp, -⟩ := (run_check_ok ..).1 hc
    obtain ⟨hrest, hbefore, -⟩ := lowerValue_sound inAsync subject h k k₁ hh
    have hb := isFixed_ofList (Stmt.lower_fixed inAsync body b k₁ k₂ hb)
    refine fixed_after hbefore (isFixed_of fun hs k => ?_)
    rw [Stmt.lower]
    simp only [run_unless_ok hs, run_bind_ok, run_pure_ok]
    exact ⟨(), k, (run_check_ok ..).2 ⟨hp, rfl⟩, _, _, lowerValue_of_plain hrest k, _, _, hb k, rfl,
      rfl⟩
  | .forOf target subject body isAwait, ss, n, m, hr => fixed_ofRun hr fun hs => by
    rw [Stmt.lower] at hr
    simp only [run_unless_ok hs, run_bind_ok, run_pure_ok] at hr
    obtain ⟨⟨⟩, k, hc, h, k₁, hh, b, k₂, hb, rfl, -⟩ := hr
    obtain ⟨hp, -⟩ := (run_check_ok ..).1 hc
    obtain ⟨hrest, hbefore, -⟩ := lowerValue_sound inAsync subject h k k₁ hh
    have hb := isFixed_ofList (Stmt.lower_fixed inAsync body b k₁ k₂ hb)
    refine fixed_after hbefore (isFixed_of fun hs k => ?_)
    rw [Stmt.lower]
    simp only [run_unless_ok hs, run_bind_ok, run_pure_ok]
    exact ⟨(), k, (run_check_ok ..).2 ⟨hp, rfl⟩, _, _, lowerValue_of_plain hrest k, _, _, hb k, rfl,
      rfl⟩
  | .tryCatch block none none, ss, n, m, hr => fixed_ofRun hr fun hs => by
    rw [Stmt.lower] at hr
    simp only [run_unless_ok hs, run_bind_ok, run_pure_ok] at hr
    obtain ⟨b, k, hb, rfl, -⟩ := hr
    have hb := lowerStmts_of_fixed (lowerStmts_fixed inAsync block b n k hb)
    refine fixed_one fun hs k => ?_
    rw [Stmt.lower]
    simp only [run_unless_ok hs, run_bind_ok, run_pure_ok]
    exact ⟨_, _, hb k, rfl, rfl⟩
  | .tryCatch block none (some finalizer), ss, n, m, hr => fixed_ofRun hr fun hs => by
    rw [Stmt.lower] at hr
    simp only [run_unless_ok hs, run_bind_ok, run_pure_ok] at hr
    obtain ⟨f, k, hf, b, k₁, hb, rfl, -⟩ := hr
    have hf := lowerStmts_of_fixed (lowerStmts_fixed inAsync finalizer f n k hf)
    have hb := lowerStmts_of_fixed (lowerStmts_fixed inAsync block b k k₁ hb)
    refine fixed_one fun hs k => ?_
    rw [Stmt.lower]
    simp only [run_unless_ok hs, run_bind_ok, run_pure_ok]
    exact ⟨_, _, hf k, _, _, hb k, rfl, rfl⟩
  | .tryCatch block (some (.mk param handler)) none, ss, n, m, hr => fixed_ofRun hr fun hs => by
    rw [Stmt.lower] at hr
    simp only [run_unless_ok hs, run_guard_ok, run_bind_ok, run_pure_ok] at hr
    obtain ⟨hp, h, k, hh, b, k₁, hb, rfl, -⟩ := hr
    have hh := lowerStmts_of_fixed (lowerStmts_fixed inAsync handler h n k hh)
    have hb := lowerStmts_of_fixed (lowerStmts_fixed inAsync block b k k₁ hb)
    refine fixed_one fun hs k => ?_
    rw [Stmt.lower]
    simp only [run_unless_ok hs, run_guard_ok, run_bind_ok, run_pure_ok]
    exact ⟨hp, _, _, hh k, _, _, hb k, rfl, rfl⟩
  | .tryCatch block (some (.mk param handler)) (some finalizer), ss, n, m, hr =>
    fixed_ofRun hr fun hs => by
    rw [Stmt.lower] at hr
    simp only [run_unless_ok hs, run_guard_ok, run_bind_ok, run_pure_ok] at hr
    obtain ⟨hp, h, k, hh, f, k₁, hf, b, k₂, hb, rfl, -⟩ := hr
    have hh := lowerStmts_of_fixed (lowerStmts_fixed inAsync handler h n k hh)
    have hf := lowerStmts_of_fixed (lowerStmts_fixed inAsync finalizer f k k₁ hf)
    have hb := lowerStmts_of_fixed (lowerStmts_fixed inAsync block b k₁ k₂ hb)
    refine fixed_one fun hs k => ?_
    rw [Stmt.lower]
    simp only [run_unless_ok hs, run_guard_ok, run_bind_ok, run_pure_ok]
    exact ⟨hp, _, _, hh k, _, _, hf k, _, _, hb k, rfl, rfl⟩
  | .switch subject cases, ss, n, m, hr => fixed_ofRun hr fun hs => by
    rw [Stmt.lower] at hr
    simp only [run_unless_ok hs, run_bind_ok, run_pure_ok] at hr
    obtain ⟨h, k, hh, cs, k₁, hc, rfl, -⟩ := hr
    obtain ⟨hrest, hbefore, -⟩ := lowerValue_sound inAsync subject h n k hh
    have hc := lowerCases_fixed inAsync cases cs k k₁ hc
    refine fixed_after hbefore (isFixed_of fun hs k => ?_)
    rw [Stmt.lower]
    simp only [run_unless_ok hs, run_bind_ok, run_pure_ok]
    exact ⟨_, _, lowerValue_of_plain hrest k, _, _, hc k, rfl, rfl⟩
  | .labeled label body, ss, n, m, hr => fixed_ofRun hr fun hs => by
    rw [Stmt.lower] at hr
    simp only [run_unless_ok hs, run_bind_ok, run_pure_ok] at hr
    obtain ⟨b, k, hb, rfl, -⟩ := hr
    exact labelLast_fixed label (Stmt.lower_fixed inAsync body b n k hb)

theorem lowerStmts_fixed (inAsync : Bool) : (body ss : List Stmt) → (n m : SlotNumber) →
    (lowerStmts inAsync body).run n = .ok (ss, m) → ∀ t ∈ ss, t.IsFixed inAsync
  | [], ss, n, m, hr => by
    obtain ⟨rfl, -⟩ := (run_pure_ok ..).1 hr
    simp
  | s :: body, ss, n, m, hr => by
    simp only [lowerStmts, run_bind_ok, run_pure_ok] at hr
    obtain ⟨first, k, hf, rest, k₁, hrest, rfl, -⟩ := hr
    exact fixed_append (Stmt.lower_fixed inAsync s first n k hf)
      (lowerStmts_fixed inAsync body rest k k₁ hrest)

theorem lowerCases_fixed (inAsync : Bool) : (cases cs : List Case) → (n m : SlotNumber) →
    (lowerCases inAsync cases).run n = .ok (cs, m) → CasesAreFixed inAsync cs
  | [], cs, n, m, hr => by
    obtain ⟨rfl, -⟩ := (run_pure_ok ..).1 hr
    exact fun _ => rfl
  | .mk test body :: cases, cs, n, m, hr => by
    simp only [lowerCases, run_guard_ok, run_bind_ok, run_pure_ok] at hr
    obtain ⟨ht, b, k, hb, rest, k₁, hrest, rfl, -⟩ := hr
    have hb := lowerStmts_of_fixed (lowerStmts_fixed inAsync body b n k hb)
    have hrest := lowerCases_fixed inAsync cases rest k k₁ hrest
    intro k
    simp only [lowerCases, run_guard_ok, run_bind_ok, run_pure_ok]
    exact ⟨ht, _, _, hb k, _, _, hrest k, rfl, rfl⟩

end

/-- A lowered body is its own lowering, and has the same slots. -/
theorem lowerBody_idempotent {inAsync : Bool} {body : List Stmt} {lowered : LoweredBody}
    (h : lowerBody inAsync body = .ok lowered) : lowerBody inAsync lowered.body = .ok lowered := by
  rw [lowerBody] at h
  split at h
  · rename_i ss m hr
    cases h
    have hfixed := lowerStmts_fixed inAsync body ss _ m hr
    rw [lowerBody, lowerStmts_of_fixed hfixed]
  · cases h

/-- A labeled loop whose test has to be taken apart, and a `return` of a call with spilled
arguments. -/
theorem lowerBody_idempotent_loop : ∃ lowered,
    lowerBody false [
      .labeled "outer" (.whileDo (.binary .lt (.ident "x") (.yield (some (.ident "y")))) .empty),
      .ret (some (.call (.dot (.ident "o") "f") [.ident "a", .yield none]))] = .ok lowered ∧
    lowered.slots = ["%resume0", "%resume1", "%resume2", "%resume3", "%resume4"] ∧
    lowerBody false lowered.body = .ok lowered := by
  refine ⟨?lowered, ?first, ?slots, lowerBody_idempotent ?first⟩
  case first => rfl
  case slots => rfl

end Resumable
