import Resumable.Proofs.Lowering.Lowered
import Resumable.Proofs.Plan.Valid

/-!
Which bodies have plans. The builder takes every lowered body whose jumps lead somewhere and whose
`yield*` all have operands, and refuses no other for any other reason. Main statements:
`buildPlan_eq_error_iff`.
-/

set_option autoImplicit false

namespace Resumable

def Refusal.isJump : Refusal → Bool
  | .continueNonLoop _ | .undefinedLabel _ | .continueOutside | .breakOutside => true
  | _ => false

/-- The refusals that building can end with: a jump that leads nowhere, or a `yield*` without
operand. -/
def Fault (jumps : List JumpSite) (forms : List SuspendForm) (r : Refusal) : Prop :=
  (r.isJump = true ∧ ∃ j ∈ jumps, j.leads = false) ∨
    (r = .unloweredExpression ∧ SuspendForm.delegate true ∈ forms)

theorem fault_nil (r : Refusal) : ¬ Fault [] [] r := by simp [Fault]

theorem fault_append (js ks : List JumpSite) (fs gs : List SuspendForm) (r : Refusal) :
    Fault (js ++ ks) (fs ++ gs) r ↔ Fault js fs r ∨ Fault ks gs r := by
  simp only [Fault, List.mem_append, or_and_right, exists_or, and_or_left]
  grind

/-- Building succeeds where there is no fault, and ends with a fault where there is one. -/
def Verdict {α : Type} (x : Except Refusal α) (fault : Refusal → Prop) : Prop :=
  match x with
  | .ok _ => ∀ r, ¬ fault r
  | .error r => fault r

namespace Verdict

variable {α β : Type} {F G H : Refusal → Prop}

theorem congr {x : Except Refusal α} (hx : Verdict x F) (h : ∀ r, G r ↔ F r) : Verdict x G := by
  have : G = F := funext fun r => propext (h r)
  rwa [this]

theorem bind {x : Except Refusal α} {f : α → Except Refusal β} (hx : Verdict x F)
    (hf : ∀ a, x = .ok a → Verdict (f a) G) (h : ∀ r, H r ↔ F r ∨ G r) : Verdict (x >>= f) H := by
  cases x with
  | error r => exact (h r).2 (.inl hx)
  | ok a =>
    refine (hf a rfl).congr fun r => ?_
    rw [h r]
    exact or_iff_right (hx r)

theorem pure {a : α} (h : ∀ r, ¬ F r) : Verdict (pure a : Except Refusal α) F := h

theorem run_bind {x : Build α} {f : α → Build β} {n : Nat} (hx : Verdict (x.run n) F)
    (hf : ∀ a m, x.run n = .ok (a, m) → Verdict ((f a).run m) G) (h : ∀ r, H r ↔ F r ∨ G r) :
    Verdict ((x >>= f).run n) H := by
  rw [StateT.run_bind]
  exact hx.bind (fun p hp => hf p.1 p.2 hp) h

theorem run_ofExcept {x : Except Refusal α} {n : Nat} (hx : Verdict x F) :
    Verdict ((Build.ofExcept x).run n) F := by
  cases x with
  | error r => exact hx
  | ok a => exact hx

theorem finish {x : Except Refusal α} {g : α → β} (hx : Verdict x F) :
    Verdict (do return g (← x) : Except Refusal β) F :=
  hx.bind (G := fun _ => False) (fun _ _ _ => id) fun _ => by simp

theorem run_finish {x : Build α} {g : α → β} {n : Nat} (hx : Verdict (x.run n) F) :
    Verdict ((do return g (← x) : Build β).run n) F :=
  hx.run_bind (G := fun _ => False) (fun _ _ _ _ => id) fun _ => by simp

end Verdict

section Pieces

variable (inAsync : Bool)

theorem buildSuspend_verdict (e : Expr) (slot : Option String) (base next : Nat)
    (h : e.isSimpleSuspend inAsync = true) :
    Verdict (e.buildSuspend inAsync slot base next) (Fault [] (e.forms inAsync)) := by
  match e with
  | .yield none => exact Verdict.pure (by simp [Fault, Expr.forms, Expr.suspends, Expr.form])
  | .yieldStar none => exact .inr ⟨rfl, by simp [Expr.forms, Expr.suspends, Expr.form]⟩
  | .yield (some e) =>
    have he : e.hasSuspend inAsync = false := by simpa [Expr.isSimpleSuspend] using h
    have hf := (forms_eq_nil_iff inAsync e).2 he
    simp only [Expr.buildSuspend, he]
    exact Verdict.pure (by simp [Fault, Suspends.yield.forms, hf, Expr.form])
  | .yieldStar (some e) =>
    have he : e.hasSuspend inAsync = false := by simpa [Expr.isSimpleSuspend] using h
    have hf := (forms_eq_nil_iff inAsync e).2 he
    simp only [Expr.buildSuspend, he]
    exact Verdict.pure (by simp [Fault, Suspends.yieldStar.forms, hf, Expr.form])
  | .await e =>
    simp only [Expr.isSimpleSuspend, Bool.and_eq_true, Bool.not_eq_true'] at h
    obtain ⟨ha, he⟩ := h
    subst ha
    have hf := (forms_eq_nil_iff true e).2 he
    simp only [Expr.buildSuspend, he]
    exact Verdict.pure (by simp [Fault, (Suspends.await rfl).forms, hf, Expr.form])

theorem buildEffect_plain_verdict (e : Expr) (base next : Nat) (h : e.hasSuspend inAsync = false) :
    Verdict (e.buildEffect inAsync base next) (Fault [] (e.forms inAsync)) := by
  rw [Expr.buildEffect.eq_def, (forms_eq_nil_iff inAsync e).2 h]
  simp only [h, Bool.not_false, ↓reduceIte]
  exact Verdict.pure (fault_nil)

theorem buildEffect_verdict (e : Expr) (base next : Nat) (h : e.isEffect inAsync = true) :
    Verdict (e.buildEffect inAsync base next) (Fault [] (e.forms inAsync)) := by
  cases hs : e.hasSuspend inAsync with
  | false => exact buildEffect_plain_verdict inAsync e base next hs
  | true =>
    replace h : e.isSimpleEffect inAsync = true := by simpa [Expr.isEffect, hs] using h
    rw [Expr.isSimpleEffect.eq_def] at h
    split at h
    · rename_i name value
      rw [Expr.buildEffect]
      simp only [hs, Bool.not_true, Bool.false_eq_true, ↓reduceIte]
      simpa using buildSuspend_verdict inAsync value (some name) base next h
    · have hb : e.buildEffect inAsync base next = e.buildSuspend inAsync none base next := by
        rw [Expr.buildEffect.eq_def]
        cases e <;> simp_all [Expr.isSimpleSuspend]
      rw [hb]
      exact buildSuspend_verdict inAsync e none base next h

theorem buildEffects_verdict (es : List Expr) (base next : Nat) (h : AreEffects inAsync es) :
    Verdict (buildEffects inAsync base next es) (Fault [] (listForms inAsync es)) := by
  induction es with
  | nil => exact Verdict.pure fault_nil
  | cons e es ih =>
    rw [buildEffects]
    refine (ih fun d hd => h d (by simp [hd])).bind (fun rest _ => ?_) (G := Fault [] (e.forms inAsync))
      fun r => ?_
    · refine (buildEffect_verdict inAsync e _ _ (h e (by simp))).finish
    · rw [← fault_append]
      simp [Fault, or_comm]

theorem sequenceIsLowered_parts {es : List Expr} (h : sequenceIsLowered inAsync es = true) :
    AreEffects inAsync es ∧ ∀ e, es.getLast? = some e → e.hasSuspend inAsync = false := by
  induction es with
  | nil => simp [AreEffects]
  | cons d es ih =>
    cases es with
    | nil =>
      simp only [sequenceIsLowered, Bool.not_eq_true'] at h
      simp [AreEffects, Expr.isEffect, h]
    | cons c es =>
      simp only [sequenceIsLowered, Bool.and_eq_true] at h
      obtain ⟨hes, hlast⟩ := ih h.2
      refine ⟨fun x hx => ?_, by simpa using hlast⟩
      rcases List.mem_cons.1 hx with rfl | hx
      · exact h.1
      · exact hes x hx

theorem buildUpdate_verdict (e : Option Expr) (base next : Nat)
    (h : e.all (·.isLoweredCondition inAsync) = true) :
    Verdict (buildUpdate inAsync base next e) (Fault [] (optionForms inAsync e)) := by
  match e with
  | none => exact Verdict.pure fault_nil
  | some e =>
    replace h : e.isLoweredCondition inAsync = true := h
    cases hs : e.hasSuspend inAsync with
    | false => exact buildEffect_plain_verdict inAsync e base next hs
    | true =>
      rw [Expr.isLoweredCondition.eq_def] at h
      split at h
      · rename_i items
        have hes := (sequenceIsLowered_parts inAsync h).1
        rw [buildUpdate, Expr.buildEffect]
        simp only [hs, Bool.not_true, Bool.false_eq_true, ↓reduceIte]
        simpa [optionForms] using buildEffects_verdict inAsync items base next hes
      · simp [hs] at h

theorem buildCondition_verdict (e : Expr) (base onTrue onFalse : Nat)
    (h : e.isLoweredCondition inAsync = true) :
    Verdict (e.buildCondition inAsync base onTrue onFalse) (Fault [] (e.forms inAsync)) := by
  cases hs : e.hasSuspend inAsync with
  | false =>
    rw [Expr.buildCondition.eq_def, (forms_eq_nil_iff inAsync e).2 hs]
    simp only [hs, Bool.not_false, ↓reduceIte]
    exact Verdict.pure fault_nil
  | true =>
    rw [Expr.isLoweredCondition.eq_def] at h
    split at h
    · rename_i items
      obtain ⟨hes, hlast⟩ := sequenceIsLowered_parts inAsync h
      have hne : items ≠ [] := by
        rintro rfl
        simp [Expr.hasSuspend, Expr.suspends, listSuspends] at hs
      have hget : items.getLast? = some (items.getLast hne) := List.getLast?_eq_some_getLast hne
      have hforms : (Expr.seq items).forms inAsync = listForms inAsync items.dropLast := by
        have hl := (forms_eq_nil_iff inAsync _).2 (hlast _ hget)
        rw [forms_seq, ← List.append_nil (listForms inAsync items.dropLast), ← hl]
        have := listForms_append inAsync items.dropLast [items.getLast hne]
        rwa [List.dropLast_concat_getLast, listForms_cons, listForms_nil, List.append_nil] at this
      rw [Expr.buildCondition, hforms]
      simp only [hs, Bool.not_true, Bool.false_eq_true, ↓reduceIte, hget]
      exact (buildEffects_verdict inAsync items.dropLast _ _
        fun d hd => hes d (items.dropLast_sublist.subset hd)).finish
    · simp [hs] at h

theorem buildTest_verdict (e : Option Expr) (base onTrue onFalse : Nat)
    (h : e.all (·.isLoweredCondition inAsync) = true) :
    Verdict (buildTest inAsync base onTrue onFalse e) (Fault [] (optionForms inAsync e)) := by
  match e with
  | none => exact Verdict.pure fault_nil
  | some e => exact buildCondition_verdict inAsync e base onTrue onFalse h

theorem buildInit_verdict (init : ForInit) (base next : Nat) (h : init.hasSuspend inAsync = false) :
    Verdict (init.build inAsync base next) (Fault [] (init.forms inAsync)) := by
  rw [forInit_forms inAsync init h]
  cases init with
  | absent => exact Verdict.pure fault_nil
  | expr e =>
    have he := buildEffect_plain_verdict inAsync e base next h
    rwa [(forms_eq_nil_iff inAsync e).2 h] at he
  | declare kind ds =>
    have h : (Stmt.declare kind ds).hasSuspend inAsync = false := h
    simp only [ForInit.build, h]
    exact Verdict.pure fault_nil

end Pieces

theorem checkJump_eq (around : Surroundings) (label : Option String) (isContinue : Bool) :
    around.checkJump label isContinue =
      match JumpSite.target? ⟨label, isContinue, around.breakables⟩, label with
      | some b, some l =>
        if isContinue && b.kind ≠ .loop then throw (.continueNonLoop l) else return ()
      | some _, none => return ()
      | none, some l => throw (.undefinedLabel l)
      | none, none => throw (if isContinue then .continueOutside else .breakOutside) := by
  cases label <;> rfl

theorem checkJump_verdict (around : Surroundings) (label : Option String) (isContinue : Bool) :
    Verdict (around.checkJump label isContinue) (Fault [⟨label, isContinue, around.breakables⟩] []) := by
  rw [checkJump_eq]
  have hfault : Fault [⟨label, isContinue, around.breakables⟩] [] = fun r => r.isJump = true ∧
      JumpSite.leads ⟨label, isContinue, around.breakables⟩ = false := by
    funext r
    simp [Fault]
  rw [hfault]
  simp only [JumpSite.leads]
  cases ht : JumpSite.target? ⟨label, isContinue, around.breakables⟩ with
  | none =>
    cases label with
    | none => cases isContinue <;> exact ⟨rfl, rfl⟩
    | some l => exact ⟨rfl, rfl⟩
  | some b =>
    cases label with
    | none =>
      -- an unlabeled `continue` means nothing but loops
      have hm := List.find?_some ht
      refine Verdict.pure fun r => ?_
      cases isContinue <;> simp_all [Breakable.isMeant]
    | some l =>
      cases isContinue with
      | false => exact Verdict.pure fun r => by simp
      | true =>
        by_cases hk : b.kind = .loop
        · simp [hk, Verdict, pure, Except.pure]
        · simp [hk, Verdict, throw, throwThe, MonadExceptOf.throw, Refusal.isJump]

theorem buildLeaf_verdict (around : Surroundings) (labels : List String) (base next : Nat) (s : Stmt)
    (h : s.hasSuspend around.inAsync = false) :
    Verdict (s.buildLeaf around base next)
      (Fault (s.jumps around.inAsync around.breakables labels) (s.forms around.inAsync)) := by
  cases hj : s.isJump with
  | true =>
    match s with
    | .brk label | .cont label =>
      exact (checkJump_verdict around label _).finish
  | false =>
    rw [jumps_of_plain around.inAsync around.breakables labels s h hj,
      stmtForms_of_plain around.inAsync s h]
    rw [Stmt.buildLeaf.eq_def]
    split
    · simp [Stmt.isJump] at hj
    · simp [Stmt.isJump] at hj
    all_goals exact Verdict.pure fault_nil

theorem runsWhole_of_isLowered (inAsync : Bool) (s : Stmt) (hl : s.isLowered inAsync = true)
    (hs : s.hasSuspend inAsync = true) : s.runsWhole inAsync = false := by
  rw [Stmt.runsWhole.eq_def]
  split <;> grind [Stmt.hasSuspend, Stmt.isLowered]

theorem enclose_verdict {around : Surroundings} {labels : List String} {base next n : Nat}
    {build : Surroundings → Nat → Nat → Build Fragment} {F : Refusal → Prop}
    (h : ∀ base next, Verdict
      ((build ⟨around.inAsync, enclosed around.breakables labels⟩ base next).run n) F) :
    Verdict ((enclose around labels base next build).run n) F := by
  rw [enclose]
  simp only [enclosed] at h
  cases hl : labels.isEmpty with
  | true => simpa [hl] using h base next
  | false =>
    simp only [hl, Bool.false_eq_true, ↓reduceIte] at h ⊢
    exact (h (base + 1) base).run_finish

theorem fault_perm {js ks : List JumpSite} {fs gs : List SuspendForm}
    (hj : ∀ j, j ∈ js ↔ j ∈ ks) (hf : ∀ f, f ∈ fs ↔ f ∈ gs) (r : Refusal) :
    Fault js fs r ↔ Fault ks gs r := by
  simp [Fault, hj, hf]

mutual

theorem Stmt.build_verdict : (s : Stmt) → (around : Surroundings) → (labels : List String) →
    (base next n : Nat) → s.isLowered around.inAsync = true →
    Verdict ((s.build around labels base next).run n)
      (Fault (s.jumps around.inAsync around.breakables labels) (s.forms around.inAsync))
  | s, around, labels, base, next, n, hl => by
    cases hs : s.hasSuspend around.inAsync with
    | false =>
      rw [Stmt.build.eq_def]
      simp only [hs, Bool.not_false, ↓reduceIte]
      exact (buildLeaf_verdict around labels base next s hs).run_ofExcept
    | true =>
      have hw := runsWhole_of_isLowered around.inAsync s hl hs
      match s with
      | .empty | .brk _ | .cont _ | .function _ _ => simp [Stmt.hasSuspend] at hs
      | .ret _ | .throw _ | .declare _ _ =>
        simp only [Stmt.hasSuspend, Stmt.isLowered] at hl hs
        simp [hs] at hl
      | .labeled label s =>
        have hj : s.isJump = false := by
          cases s <;> first | rfl | simp [Stmt.hasSuspend] at hs
        rw [Stmt.build]
        simp only [hs, Bool.not_true, Bool.false_eq_true, ↓reduceIte, Stmt.jumps, hj, Stmt.forms]
        exact s.build_verdict around (labels ++ [label]) base next n hl
      | .expr e =>
        rw [Stmt.build]
        simp only [hs, Bool.not_true, Bool.false_eq_true, ↓reduceIte, Stmt.jumps, Stmt.forms]
        exact enclose_verdict fun base next =>
          (buildEffect_verdict around.inAsync e base next hl).run_ofExcept
      | .block body =>
        rw [Stmt.build]
        simp only [hs, Bool.not_true, Bool.false_eq_true, ↓reduceIte, Stmt.jumps, hw, Stmt.forms]
        refine enclose_verdict fun base next => ?_
        exact (buildStmts_verdict body ⟨_, enclosed around.breakables labels⟩ _ _ n hl).run_finish
      | .ifElse test yes none =>
        simp only [Stmt.isLowered, Bool.and_eq_true, Bool.not_eq_true'] at hl
        rw [Stmt.build]
        simp only [hs, Bool.not_true, Bool.false_eq_true, ↓reduceIte, Stmt.jumps, hw, Stmt.forms]
        refine enclose_verdict fun base next => ?_
        refine (yes.build_verdict ⟨_, enclosed around.breakables labels⟩ [] _ _ n hl.2).run_bind
          (G := Fault [] (test.forms around.inAsync)) (fun y m _ => ?_) fun r => ?_
        · exact (buildCondition_verdict around.inAsync test _ _ _
            (isLoweredCondition_of_plain around.inAsync test hl.1)).run_ofExcept.run_finish
        · rw [← fault_append]
          exact fault_perm (by simp) (by simp [or_comm]) r
      | .ifElse test yes (some no) =>
        simp only [Stmt.isLowered, Bool.and_eq_true, Bool.not_eq_true'] at hl
        rw [Stmt.build]
        simp only [hs, Bool.not_true, Bool.false_eq_true, ↓reduceIte, Stmt.jumps, hw, Stmt.forms]
        refine enclose_verdict fun base next => ?_
        refine (no.build_verdict ⟨_, enclosed around.breakables labels⟩ [] _ _ n hl.2).run_bind
          (G := Fault (yes.jumps around.inAsync (enclosed around.breakables labels) [])
            (yes.forms around.inAsync ++ test.forms around.inAsync)) (fun o m _ => ?_) fun r => ?_
        · refine (yes.build_verdict ⟨_, enclosed around.breakables labels⟩ [] _ _ m hl.1.2).run_bind
            (G := Fault [] (test.forms around.inAsync)) (fun y m _ => ?_) fun r => ?_
          · exact (buildCondition_verdict around.inAsync test _ _ _
              (isLoweredCondition_of_plain around.inAsync test hl.1.1)).run_ofExcept.run_finish
          · rw [← fault_append, List.append_nil]
        · rw [← fault_append]
          exact fault_perm (by simp [or_comm]) (by simp [or_comm, or_assoc]) r
      | .whileDo test body | .doWhile body test =>
        simp only [Stmt.isLowered, Bool.and_eq_true] at hl
        rw [Stmt.build]
        simp only [hs, Bool.not_true, Bool.false_eq_true, ↓reduceIte, Stmt.jumps, hw, Stmt.forms]
        have hb := body.build_verdict (around.enter labels .loop) [] (base + 2) (base + 1) n hl.2
        refine hb.run_bind (G := Fault [] (test.forms around.inAsync)) (fun b m _ => ?_) fun r => ?_
        · exact (buildCondition_verdict around.inAsync test _ _ _ hl.1).run_ofExcept.run_finish
        · rw [← fault_append]
          exact fault_perm (by simp [Surroundings.enter]) (by simp [or_comm]) r
      | .forLoop init test update body =>
        simp only [Stmt.isLowered, Bool.and_eq_true, Bool.not_eq_true'] at hl
        obtain ⟨⟨⟨hi, ht⟩, hu⟩, hb⟩ := hl
        rw [Stmt.build]
        simp only [hs, Bool.not_true, Bool.false_eq_true, ↓reduceIte, Stmt.jumps, hw, Stmt.forms]
        refine (buildUpdate_verdict around.inAsync update _ _ hu).run_ofExcept.run_bind
          (G := Fault (body.jumps around.inAsync (⟨labels, .loop⟩ :: around.breakables) [])
            (body.forms around.inAsync ++ (optionForms around.inAsync test ++
              init.forms around.inAsync))) (fun u m _ => ?_) fun r => ?_
        · refine (body.build_verdict (around.enter labels .loop) [] _ _ m hb).run_bind
            (G := Fault [] (optionForms around.inAsync test ++ init.forms around.inAsync))
            (fun b m _ => ?_) fun r => ?_
          · refine (buildTest_verdict around.inAsync test _ _ _ ht).run_ofExcept.run_bind
              (G := Fault [] (init.forms around.inAsync)) (fun t m _ => ?_) fun r => ?_
            · exact (buildInit_verdict around.inAsync init _ _ hi).run_ofExcept.run_finish
            · rw [← fault_append, List.append_nil]
          · rw [← fault_append, List.append_nil]
            rfl
        · rw [← fault_append, List.nil_append]
          refine fault_perm (by simp) (fun f => ?_) r
          simp only [List.mem_append]
          grind
      | .forIn target subject body =>
        simp only [Stmt.isLowered, Bool.and_eq_true, Bool.not_eq_true'] at hl
        have he := (forms_eq_nil_iff around.inAsync subject).2 hl.1.2
        rw [Stmt.build]
        simp only [hs, Bool.not_true, Bool.false_eq_true, ↓reduceIte, Stmt.jumps, hw, Stmt.forms, he]
        exact (body.build_verdict (around.enter labels .loop) [] _ _ n hl.2).run_finish
      | .forOf target subject body isAwait =>
        simp only [Stmt.isLowered, Bool.and_eq_true, Bool.not_eq_true'] at hl
        have he := (forms_eq_nil_iff around.inAsync subject).2 hl.1.2
        rw [Stmt.build]
        simp only [hs, Bool.not_true, Bool.false_eq_true, ↓reduceIte, Stmt.jumps, hw, Stmt.forms, he]
        exact (body.build_verdict (around.enter labels .loop) [] _ _ n hl.2).run_finish
      | .tryCatch block none none =>
        rw [Stmt.build]
        simp only [hs, Bool.not_true, Bool.false_eq_true, ↓reduceIte, Stmt.jumps, hw, Stmt.forms]
        refine enclose_verdict fun base next => ?_
        exact (buildStmts_verdict block ⟨_, enclosed around.breakables labels⟩ _ _ n hl).run_finish
      | .tryCatch block none (some finalizer) =>
        simp only [Stmt.isLowered, Bool.and_eq_true] at hl
        rw [Stmt.build]
        simp only [hs, Bool.not_true, Bool.false_eq_true, ↓reduceIte, Stmt.jumps, hw, Stmt.forms]
        refine enclose_verdict fun base next => ?_
        refine (buildStmts_verdict finalizer ⟨_, enclosed around.breakables labels⟩ _ _ n hl.2).run_bind (fun f m _ => ?_)
          fun r => by rw [fault_append, or_comm]
        exact (buildStmts_verdict block ⟨_, enclosed around.breakables labels⟩ _ _ m hl.1).run_finish
      | .tryCatch block (some (.mk param handler)) none =>
        simp only [Stmt.isLowered, Bool.and_eq_true] at hl
        rw [Stmt.build]
        simp only [hs, Bool.not_true, Bool.false_eq_true, ↓reduceIte, Stmt.jumps, hw, Stmt.forms]
        refine enclose_verdict fun base next => ?_
        refine (buildStmts_verdict handler ⟨_, enclosed around.breakables labels⟩ _ _ n hl.2).run_bind (fun h m _ => ?_)
          fun r => by rw [fault_append, or_comm]
        exact (buildStmts_verdict block ⟨_, enclosed around.breakables labels⟩ _ _ m hl.1.1).run_finish
      | .tryCatch block (some (.mk param handler)) (some finalizer) =>
        simp only [Stmt.isLowered, Bool.and_eq_true] at hl
        rw [Stmt.build]
        simp only [hs, Bool.not_true, Bool.false_eq_true, ↓reduceIte, Stmt.jumps, hw, Stmt.forms]
        refine enclose_verdict fun base next => ?_
        refine (buildStmts_verdict finalizer ⟨_, enclosed around.breakables labels⟩ _ _ n hl.2).run_bind (fun f m _ => ?_)
          fun r => by rw [fault_append, or_comm]
        refine (buildStmts_verdict handler ⟨_, enclosed around.breakables labels⟩ _ _ m hl.1.2).run_bind (fun h m _ => ?_)
          fun r => by rw [fault_append, or_comm]
        exact (buildStmts_verdict block ⟨_, enclosed around.breakables labels⟩ _ _ m hl.1.1.1).run_finish
      | .switch subject cases =>
        simp only [Stmt.isLowered, Bool.and_eq_true, Bool.not_eq_true'] at hl
        have he := (forms_eq_nil_iff around.inAsync subject).2 hl.1
        rw [Stmt.build]
        simp only [hs, Bool.not_true, Bool.false_eq_true, ↓reduceIte, Stmt.jumps, hw, Stmt.forms, he]
        exact (buildCases_verdict cases (around.enter labels .switch) _ _ n hl.2).run_bind
          (G := fun _ => False) (fun _ _ _ _ => id) fun r => by simp [Surroundings.enter]
termination_by s => sizeOf s
decreasing_by all_goals simp +arith

theorem buildStmts_verdict : (ss : List Stmt) → (around : Surroundings) → (base next n : Nat) →
    areLowered around.inAsync ss = true →
    Verdict ((buildStmts around base next ss).run n)
      (Fault (bodyJumps around.inAsync around.breakables ss) (bodyForms around.inAsync ss))
  | [], around, base, next, n, hl => Verdict.pure fault_nil
  | s :: ss, around, base, next, n, hl => by
    simp only [areLowered, Bool.and_eq_true] at hl
    rw [buildStmts, bodyJumps, bodyForms]
    refine (buildStmts_verdict ss around base next n hl.2).run_bind
      (G := Fault (s.jumps around.inAsync around.breakables []) (s.forms around.inAsync))
      (fun rest m _ => ?_) fun r => ?_
    · exact (s.build_verdict around [] _ _ m hl.1).run_finish
    · rw [fault_append, or_comm]
termination_by ss => sizeOf ss
decreasing_by all_goals simp +arith

theorem buildCases_verdict : (cs : List Case) → (around : Surroundings) → (base exit n : Nat) →
    casesAreLowered around.inAsync cs = true →
    Verdict ((buildCases around base exit cs).run n)
      (Fault (caseJumps around.inAsync around.breakables cs) (caseForms around.inAsync cs))
  | [], around, base, exit, n, hl => Verdict.pure fault_nil
  | .mk test body :: cs, around, base, exit, n, hl => by
    simp only [casesAreLowered, Bool.and_eq_true, Bool.not_eq_true'] at hl
    rw [buildCases, caseJumps, caseForms, (optionForms_eq_nil_iff around.inAsync test).2 hl.1.1]
    refine (buildCases_verdict cs around base exit n hl.2).run_bind
      (G := Fault (bodyJumps around.inAsync around.breakables body) (bodyForms around.inAsync body))
      (fun rest m _ => ?_) fun r => ?_
    · exact (buildStmts_verdict body around _ _ m hl.1.2).run_finish
    · rw [List.nil_append, fault_append, or_comm]
termination_by cs => sizeOf cs
decreasing_by all_goals simp +arith

end

/-- Whether an expression, statement or pattern of the instruction holds a suspend point. -/
@[simp] def Instr.holdsSuspend (inAsync : Bool) : Instr → Bool
  | .evaluate s _ => s.hasSuspend inAsync
  | .yield e _ | .ret e => e.any (·.hasSuspend inAsync)
  | .yieldStar e _ | .await e _ | .branch e _ _ | .throw e | .openIterator e _ _ _ =>
    e.hasSuspend inAsync
  | .bindCatch p _ => p.any (·.hasSuspend inAsync)
  | .moveNext _ p _ _ _ => p.hasSuspend inAsync
  | .store _ _ | .jump _ | .enterTry _ _ _ | .exitTry _ _ | .endFinally _ | .pushScope _ _
  | .popScope _ | .copyScope _ | .enterLoop _ _ _ _ _ | .exitLoop _ | .brk _ | .cont _ => false

def HoldsNone (inAsync : Bool) (code : List Instr) : Prop :=
  ∀ i ∈ code, i.holdsSuspend inAsync = false

@[simp] theorem holdsNone_nil (inAsync : Bool) : HoldsNone inAsync [] := by simp [HoldsNone]

@[simp] theorem holdsNone_cons (inAsync : Bool) (i : Instr) (code : List Instr) :
    HoldsNone inAsync (i :: code) ↔ i.holdsSuspend inAsync = false ∧ HoldsNone inAsync code := by
  simp [HoldsNone]

@[simp] theorem holdsNone_append (inAsync : Bool) (c d : List Instr) :
    HoldsNone inAsync (c ++ d) ↔ HoldsNone inAsync c ∧ HoldsNone inAsync d := by
  simp [HoldsNone, or_imp, forall_and]

section Pieces

variable {inAsync : Bool}

theorem suspendInstr_holdsSuspend {e : Expr} {store : Nat} {i : Instr}
    (h : e.suspendInstr? store = some i) (he : e.isSimpleSuspend inAsync = true) :
    i.holdsSuspend inAsync = false := by
  rw [Expr.suspendInstr?.eq_def] at h
  split at h
  · rename_i operand
    cases h
    cases operand <;> simp_all [Instr.holdsSuspend, Expr.isSimpleSuspend]
  · cases h
    simpa [Expr.isSimpleSuspend] using he
  · cases h
    simp only [Expr.isSimpleSuspend, Bool.and_eq_true, Bool.not_eq_true'] at he
    exact he.2
  · cases h

theorem EffectsLaid.holdsNone {base next : Nat} {es : List Expr} {f : Fragment}
    (h : EffectsLaid inAsync base next es f) : HoldsNone inAsync f.code := by
  induction h with
  | nil => exact holdsNone_nil _
  | plain _ he ih => simpa [Stmt.hasSuspend, ih] using he
  | suspend _ _ _ hd hi ih =>
    have hi := suspendInstr_holdsSuspend hi hd
    simp only [holdsNone_append, holdsNone_cons, hi]
    simp [ih]
  | seq _ _ _ ih ih' => simp [ih, ih']

theorem ConditionLaid.holdsNone {base onTrue onFalse : Nat} {e : Expr} {f : Fragment}
    (h : ConditionLaid inAsync base onTrue onFalse e f) (he : e.isLoweredCondition inAsync = true) :
    HoldsNone inAsync f.code := by
  cases h with
  | plain he => simpa [Fragment.one] using he
  | seq _ hlast hfirst =>
    have hl := (sequenceIsLowered_parts inAsync he).2 _ hlast
    simp [hl, hfirst.holdsNone]

theorem TestLaid.holdsNone {base onTrue onFalse : Nat} {e : Option Expr} {f : Fragment}
    (h : TestLaid inAsync base onTrue onFalse e f)
    (he : e.all (·.isLoweredCondition inAsync) = true) : HoldsNone inAsync f.code := by
  cases h with
  | none => exact holdsNone_nil _
  | some h => exact h.holdsNone he

theorem UpdateLaid.holdsNone {base next : Nat} {e : Option Expr} {f : Fragment}
    (h : UpdateLaid inAsync base next e f) : HoldsNone inAsync f.code := by
  cases h with
  | none => exact holdsNone_nil _
  | some h => exact h.holdsNone

theorem InitLaid.holdsNone {base next : Nat} {init : ForInit} {f : Fragment}
    (h : InitLaid inAsync base next init f) : HoldsNone inAsync f.code := by
  cases h with
  | absent => exact holdsNone_nil _
  | expr h => exact h.holdsNone
  | declare h => simpa [Fragment.one] using h

theorem buildTests_holdsNone (subject : String) (base otherwise : Nat) (cases : List Case)
    (entries : List Nat) (h : casesAreLowered inAsync cases = true) :
    HoldsNone inAsync (buildTests subject base otherwise (cases.zip entries)).code := by
  induction cases generalizing entries with
  | nil => simp [buildTests, Fragment.one]
  | cons c cases ih =>
    obtain ⟨test, body⟩ := c
    simp only [casesAreLowered, Bool.and_eq_true, Bool.not_eq_true'] at h
    cases entries with
    | nil => simp [buildTests, Fragment.one]
    | cons entry entries =>
      have ih := ih entries h.2
      simp only [List.zip_cons_cons, buildTests, Case.test]
      cases test with
      | none => exact ih
      | some e =>
        have he : e.suspends inAsync = [] := by simpa [Expr.hasSuspend] using h.1.1
        simp [Fragment.close, ih, Expr.hasSuspend, Expr.suspends, he]

end Pieces

theorem step_holdsNone {inAsync : Bool} {u : Fragment} (ownScope : Bool) (base : Nat)
    (h : HoldsNone inAsync u.code) : HoldsNone inAsync (u.step ownScope base).code := by
  rw [Fragment.step]
  split
  · simpa [Fragment.close] using h
  · exact h

def Part.Lowered (inAsync : Bool) : Part → Prop
  | .stmt _ s => s.isLowered inAsync = true
  | .stmts ss | .block ss => areLowered inAsync ss = true
  | .alternative none | .handler none _ | .finalizer none _ => True
  | .alternative (some no) => no.isLowered inAsync = true
  | .headLoop _ _ init test update body => init.hasSuspend inAsync = false ∧
      test.all (·.isLoweredCondition inAsync) = true ∧
      update.all (·.isLoweredCondition inAsync) = true ∧ body.isLowered inAsync = true
  | .iteration _ target subject body _ _ => target.pattern.hasSuspend inAsync = false ∧
      subject.hasSuspend inAsync = false ∧ body.isLowered inAsync = true
  | .handler (some (.mk p body)) _ =>
      p.any (·.hasSuspend inAsync) = false ∧ areLowered inAsync body = true
  | .finalizer (some body) _ => areLowered inAsync body = true
  | .cases cs _ => casesAreLowered inAsync cs = true

theorem leaf_holdsSuspend (inAsync : Bool) (next : Nat) (s : Stmt)
    (h : s.hasSuspend inAsync = false) : (s.leafInstr next).holdsSuspend inAsync = false := by
  cases s <;> simp_all [Stmt.leafInstr, Instr.holdsSuspend, Stmt.hasSuspend]

theorem tryCatch_isLowered (inAsync : Bool) (block : List Stmt) (handler : Option Catch)
    (finalizer : Option (List Stmt)) (onThrow onExit : Option Nat)
    (h : (Stmt.tryCatch block handler finalizer).isLowered inAsync = true) :
    areLowered inAsync block = true ∧ (Part.handler handler onThrow).Lowered inAsync ∧
      (Part.finalizer finalizer onExit).Lowered inAsync := by
  match handler, finalizer with
  | none, none => exact ⟨h, trivial, trivial⟩
  | none, some f =>
    simp only [Stmt.isLowered, Bool.and_eq_true] at h
    exact ⟨h.1, trivial, h.2⟩
  | some (.mk p c), none =>
    simp only [Stmt.isLowered, Bool.and_eq_true, Bool.not_eq_true'] at h
    exact ⟨h.1.1, ⟨h.1.2, h.2⟩, trivial⟩
  | some (.mk p c), some f =>
    simp only [Stmt.isLowered, Bool.and_eq_true, Bool.not_eq_true'] at h
    exact ⟨h.1.1.1, ⟨h.1.1.2, h.1.2⟩, h.2⟩

theorem Laid.holdsNone {around : Surroundings} {base next : Nat} {part : Part} {f : Fragment}
    (h : Laid around base next part f) (hl : part.Lowered around.inAsync) :
    HoldsNone around.inAsync f.code := by
  induction h with
  | leaf hs _ => simpa [Fragment.one] using leaf_holdsSuspend _ _ _ hs
  | labeled _ _ ih | blockStmt _ _ ih | alternative _ ih => exact ih hl
  | enclosed _ _ _ _ ih => simpa [Fragment.enclose] using ih hl
  | expr _ he => exact he.holdsNone
  | @ifElse _ _ _ test yes no _ _ _ _ _ _ ht ihn ihy =>
    cases no with
    | none =>
      simp only [Part.Lowered, Stmt.isLowered, Bool.and_eq_true, Bool.not_eq_true'] at hl
      have ht := ht.holdsNone (isLoweredCondition_of_plain _ test hl.1)
      simp [ihn trivial, ihy hl.2, ht]
    | some no =>
      simp only [Part.Lowered, Stmt.isLowered, Bool.and_eq_true, Bool.not_eq_true'] at hl
      have ht := ht.holdsNone (isLoweredCondition_of_plain _ test hl.1.1)
      simp [ihn hl.2, ihy hl.1.2, ht]
  | whileDo _ _ ht ih | doWhile _ _ ht ih =>
    simp only [Part.Lowered, Stmt.isLowered, Bool.and_eq_true] at hl
    have hb := ih hl.2
    simp only [Surroundings.enter_inAsync] at hb
    simp [Fragment.testLoop, hb, ht.holdsNone hl.1]
  | forPlain _ _ _ ih =>
    simp only [Part.Lowered, Stmt.isLowered, Bool.and_eq_true, Bool.not_eq_true'] at hl
    exact ih ⟨hl.1.1.1, hl.1.1.2, hl.1.2, hl.2⟩
  | forScoped _ _ _ ih =>
    simp only [Part.Lowered, Stmt.isLowered, Bool.and_eq_true, Bool.not_eq_true'] at hl
    simpa [Fragment.inScope] using ih ⟨hl.1.1.1, hl.1.1.2, hl.1.2, hl.2⟩
  | headLoop hu hc _ ht hi ih =>
    obtain ⟨-, hlt, -, hlb⟩ := hl
    have hb := ih hlb
    simp only [Surroundings.enter_inAsync] at hb
    have hc : HoldsNone _ _ := hc ▸ step_holdsNone _ _ hu.holdsNone
    simp [Fragment.headLoop, hc, hb, ht.holdsNone hlt, hi.holdsNone]
  | forIn _ _ ih | forOf _ _ ih =>
    simp only [Part.Lowered, Stmt.isLowered, Bool.and_eq_true, Bool.not_eq_true'] at hl
    exact ih ⟨hl.1.1, hl.1.2, hl.2⟩
  | iteration _ ih =>
    obtain ⟨hp, he, hlb⟩ := hl
    have hb := ih hlb
    simp only [Surroundings.enter_inAsync] at hb
    simp [Fragment.iteration, hp, he, hb]
  | @tryCatch _ _ _ _ _ _ onThrow onExit _ _ _ _ _ _ _ ihf ihh ihb =>
    obtain ⟨hb, hh, hf⟩ := tryCatch_isLowered _ _ _ _ onThrow onExit hl
    simp [Fragment.protect, ihf hf, ihh hh, ihb hb]
  | @switch around _ _ _ subject cases entries name c _ _ ih =>
    simp only [Part.Lowered, Stmt.isLowered, Bool.and_eq_true, Bool.not_eq_true'] at hl
    have hc := ih hl.2
    have he : subject.suspends around.inAsync = [] := by simpa [Expr.hasSuspend] using hl.1
    simp only [Surroundings.enter_inAsync] at hc
    simp [Fragment.switch, hc, buildTests_holdsNone _ _ _ _ _ hl.2,
      Stmt.hasSuspend, Expr.hasSuspend, Expr.suspends, he]
  | block _ ih => simpa [Fragment.inScope] using ih hl
  | noAlternative | noFinalizer | noHandler | nil | noCase => exact holdsNone_nil _
  | finalizer _ ih => simpa using ih hl
  | handler _ ih => simpa [hl.1] using ih hl.2
  | cons _ _ ih ih' =>
    simp only [Part.Lowered, areLowered, Bool.and_eq_true] at hl
    simp [ih hl.2, ih' hl.1]
  | case _ _ ih ih' =>
    simp only [Part.Lowered, casesAreLowered, Bool.and_eq_true] at hl
    simp [ih hl.2, ih' hl.1.2]

theorem lowerBody_sound {inAsync : Bool} {body : List Stmt} {lowered : LoweredBody}
    (h : lowerBody inAsync body = .ok lowered) : BodyLowersTo inAsync body lowered.body := by
  unfold lowerBody at h
  split at h
  · rename_i hr
    cases h
    exact lowerStmts_sound inAsync body _ _ _ hr
  · cases h

theorem lowerBody_error {inAsync : Bool} {body : List Stmt} {r : Refusal}
    (h : lowerBody inAsync body = .error r) : ∃ o, r = .obstacle o := by
  unfold lowerBody at h
  split at h
  · cases h
  · cases h
    exact ⟨_, rfl⟩

/-- The plan of a lowered body, or the refusal of its layout: the final check finds nothing. -/
theorem buildPlan_of_lowered {inAsync : Bool} {params : List Pattern} {body : List Stmt}
    {lowered : LoweredBody} (hp : params.any (·.hasSuspend inAsync) = false)
    (hl : lowerBody inAsync body = .ok lowered) :
    buildPlan inAsync params body =
      match (buildStmts ⟨inAsync, []⟩ 1 0 lowered.body).run 0 with
      | .ok (f, temps) => .ok ⟨.ret none :: f.code, f.entry,
          lowered.slots ++ (List.range temps).map tempName⟩
      | .error r => .error r := by
  unfold buildPlan
  rw [hp, hl]
  cases hb : (buildStmts ⟨inAsync, []⟩ 1 0 lowered.body).run 0 with
  | error r => simp [bind, Except.bind, hb]
  | ok p =>
    obtain ⟨f, temps⟩ := p
    have hv := validate_laid (lowered.slots ++ (List.range temps).map tempName)
      (buildStmts_laid _ _ _ _ _ _ _ hb)
    simp [bind, Except.bind, hb, hv, pure, Except.pure]

/-- Layout fails on a lowered body exactly for a fault of the body itself. -/
theorem buildPlan_verdict {inAsync : Bool} {params : List Pattern} {body : List Stmt}
    {lowered : LoweredBody} (hp : params.any (·.hasSuspend inAsync) = false)
    (hl : lowerBody inAsync body = .ok lowered) :
    Verdict (buildPlan inAsync params body)
      (Fault (bodyJumps inAsync [] body) (bodyForms inAsync body)) := by
  have hs := lowerBody_sound hl
  have hv := buildStmts_verdict lowered.body ⟨inAsync, []⟩ 1 0 0 hs.lowered
  rw [hs.jumps, hs.forms] at hv
  rw [buildPlan_of_lowered hp hl]
  cases hb : (buildStmts ⟨inAsync, []⟩ 1 0 lowered.body).run 0 with
  | error r => rwa [hb] at hv
  | ok p => rwa [hb] at hv

theorem buildPlan_laid {inAsync : Bool} {params : List Pattern} {body : List Stmt} {plan : Plan}
    (h : buildPlan inAsync params body = .ok plan) :
    ∃ lowered f, lowerBody inAsync body = .ok lowered ∧
      Laid ⟨inAsync, []⟩ 1 0 (.stmts lowered.body) f ∧ plan.code = .ret none :: f.code ∧
      plan.entry = f.entry := by
  cases hp : params.any (·.hasSuspend inAsync) with
  | true =>
    rw [buildPlan, hp] at h
    cases h
  | false =>
    cases hl : lowerBody inAsync body with
    | error r =>
      rw [buildPlan, hp, hl] at h
      cases h
    | ok lowered =>
      rw [buildPlan_of_lowered hp hl] at h
      cases hb : (buildStmts ⟨inAsync, []⟩ 1 0 lowered.body).run 0 with
      | error r =>
        rw [hb] at h
        cases h
      | ok p =>
        rw [hb] at h
        cases h
        exact ⟨lowered, p.1, rfl, buildStmts_laid _ _ _ _ _ _ _ hb, rfl, rfl⟩

theorem buildPlan_holdsNone {inAsync : Bool} {params : List Pattern} {body : List Stmt}
    {plan : Plan} (h : buildPlan inAsync params body = .ok plan) : HoldsNone inAsync plan.code := by
  obtain ⟨lowered, f, hl, hlaid, hcode, -⟩ := buildPlan_laid h
  have hn := hlaid.holdsNone (lowerBody_sound hl).lowered
  simpa [hcode] using hn

theorem buildPlan_closed {inAsync : Bool} {params : List Pattern} {body : List Stmt} {plan : Plan}
    (h : buildPlan inAsync params body = .ok plan) : plan.Closed := by
  obtain ⟨lowered, f, -, hlaid, hcode, hentry⟩ := buildPlan_laid h
  obtain ⟨code, entry, slots⟩ := plan
  cases hcode
  cases hentry
  exact validate_iff_closed.1 (validate_laid slots hlaid)

/-- A body has a plan unless a parameter suspends, lowering meets an obstacle, a jump that is not
inside a statement that runs whole leads nowhere, or a `yield*` has no operand. No other refusal is
ever given, and nothing that a plan holds suspends. -/
theorem buildPlan_eq_error_iff (inAsync : Bool) (params : List Pattern) (body : List Stmt) :
    ((∃ r, buildPlan inAsync params body = .error r) ↔
      params.any (·.hasSuspend inAsync) = true ∨ (∃ r, lowerBody inAsync body = .error r) ∨
      (∃ j ∈ bodyJumps inAsync [] body, j.leads = false) ∨
      SuspendForm.delegate true ∈ bodyForms inAsync body) ∧
    (∀ r, buildPlan inAsync params body = .error r →
      r = .parameterList ∨ (∃ o, r = .obstacle o) ∨ r.isJump = true ∨
      (r = .unloweredExpression ∧ SuspendForm.delegate true ∈ bodyForms inAsync body)) ∧
    (∀ plan, buildPlan inAsync params body = .ok plan → HoldsNone inAsync plan.code) := by
  cases hp : params.any (·.hasSuspend inAsync) with
  | true =>
    have h : buildPlan inAsync params body = .error .parameterList := by
      rw [buildPlan, hp]
      rfl
    rw [h]
    exact ⟨⟨fun _ => .inl rfl, fun _ => ⟨_, rfl⟩⟩, fun r hr => .inl (by cases hr; rfl), nofun⟩
  | false =>
    cases hl : lowerBody inAsync body with
    | error r =>
      have h : buildPlan inAsync params body = .error r := by
        rw [buildPlan, hp, hl]
        rfl
      obtain ⟨o, rfl⟩ := lowerBody_error hl
      rw [h]
      refine ⟨⟨fun _ => .inr (.inl ⟨_, rfl⟩), fun _ => ⟨_, rfl⟩⟩, fun r hr => ?_, nofun⟩
      cases hr
      exact .inr (.inl ⟨o, rfl⟩)
    | ok lowered =>
      have hv := buildPlan_verdict hp hl
      refine ⟨?_, ?_, fun plan => buildPlan_holdsNone⟩
      · cases hb : buildPlan inAsync params body with
        | error r =>
          rw [hb] at hv
          refine ⟨fun _ => ?_, fun _ => ⟨_, rfl⟩⟩
          obtain ⟨-, hj⟩ | ⟨-, hd⟩ := hv
          · exact .inr (.inr (.inl hj))
          · exact .inr (.inr (.inr hd))
        | ok plan =>
          rw [hb] at hv
          refine ⟨nofun, fun h => ?_⟩
          obtain h | ⟨r, hr⟩ | hj | hd := h
          · cases h
          · cases hr
          · exact (hv .breakOutside (.inl ⟨rfl, hj⟩)).elim
          · exact (hv .unloweredExpression (.inr ⟨rfl, hd⟩)).elim
      · intro r hr
        rw [hr] at hv
        obtain ⟨hj, -⟩ | hd := hv
        · exact .inr (.inr (.inl hj))
        · exact .inr (.inr (.inr hd))

/-- A jump to nowhere is let through where only the test of the `if` around it suspends. -/
theorem buildPlan_jump_under_suspending_test :
    (Stmt.ifElse (.yield none) (.brk none) none).hasSuspend false = true ∧
    (JumpSite.mk none false []).leads = false ∧
    ∃ plan, buildPlan false [] [.ifElse (.yield none) (.brk none) none] = .ok plan :=
  ⟨by decide, by decide, _, rfl⟩

end Resumable
