import Resumable.Proofs.Lowering.Slots
import Resumable.Proofs.Plan.Layout

/-!
The names that a plan accesses. The code of a statement accesses the names of the statement and the
temporaries that the builder counts for it. Main statement: `Stmt.build_touches`.
-/

set_option autoImplicit false

namespace Resumable

/-- Whether an access is a known one, or one to a temporary with a number from `n` up to `m`. -/
def Accounted (n m : Nat) (known : List Access) (a : Access) : Prop :=
  a ∈ known ∨ ∃ k, n ≤ k ∧ k < m ∧ a.name = tempName k

def Touches (n m : Nat) (known : List Access) (code : List Instr) : Prop :=
  ∀ i ∈ code, ∀ a ∈ i.accesses, Accounted n m known a

section Touches

variable {n m n' m' : Nat} {known others : List Access} {c d : List Instr} {i : Instr}

@[simp] theorem touches_nil : Touches n m known [] := nofun

@[simp] theorem touches_append :
    Touches n m known (c ++ d) ↔ Touches n m known c ∧ Touches n m known d := by
  simp [Touches, or_imp, forall_and]

@[simp] theorem touches_cons :
    Touches n m known (i :: c) ↔
      (∀ a ∈ i.accesses, Accounted n m known a) ∧ Touches n m known c := by
  simp [Touches]

theorem Touches.widen (h : Touches n m known c) (hn : n' ≤ n) (hm : m ≤ m')
    (hsub : known ⊆ others) : Touches n' m' others c := by
  intro i hi a ha
  obtain hknown | ⟨k, hk, hlt, heq⟩ := h i hi a ha
  · exact .inl (hsub hknown)
  · exact .inr ⟨k, Nat.le_trans hn hk, Nat.lt_of_lt_of_le hlt hm, heq⟩

theorem accounted_of_subset {as : List Access} (h : as ⊆ known) :
    ∀ a ∈ as, Accounted n m known a := fun _ ha => .inl (h ha)

end Touches

section Pieces

variable {inAsync : Bool} {n m : Nat}

theorem suspendInstr_accesses {e : Expr} {store : Nat} {i : Instr}
    (h : e.suspendInstr? store = some i) : i.accesses = e.accesses := by
  unfold Expr.suspendInstr? at h
  split at h
  · cases h
    rename_i operand
    cases operand <;> rfl
  · cases h
    rfl
  · cases h
    rfl
  · cases h

theorem effectParts_accesses {e d : Expr} {slot : Option String} (h : e.effectParts = (slot, d)) :
    e.accesses = slot.toList.map Access.write ++ d.accesses := by
  unfold Expr.effectParts at h
  split at h <;> cases h <;> rfl

theorem EffectsLaid.touches {base next : Nat} {es : List Expr} {f : Fragment}
    (h : EffectsLaid inAsync base next es f) : Touches n m (listAccesses es) f.code := by
  induction h with
  | nil => exact touches_nil
  | @plain base next e es rest hrest hs ih =>
    refine touches_append.2
      ⟨ih.widen (Nat.le_refl n) (Nat.le_refl m) (List.subset_append_right _ _), ?_⟩
    exact touches_cons.2 ⟨accounted_of_subset (List.subset_append_left _ _), touches_nil⟩
  | @suspend base next e d slot es rest i hrest hs hp hd hi ih =>
    refine touches_append.2
      ⟨ih.widen (Nat.le_refl n) (Nat.le_refl m) (List.subset_append_right _ _), ?_⟩
    rw [listAccesses, effectParts_accesses hp, ← suspendInstr_accesses hi]
    refine touches_cons.2
      ⟨accounted_of_subset ?_, touches_cons.2 ⟨accounted_of_subset ?_, touches_nil⟩⟩
    · simp [Instr.accesses]
    · simp
  | @seq base next items es rest first hrest hs hfirst ih ih' =>
    exact touches_append.2 ⟨ih.widen (Nat.le_refl n) (Nat.le_refl m) (List.subset_append_right _ _),
      ih'.widen (Nat.le_refl n) (Nat.le_refl m) (List.subset_append_left _ _)⟩

theorem ConditionLaid.touches {base onTrue onFalse : Nat} {e : Expr} {f : Fragment}
    (h : ConditionLaid inAsync base onTrue onFalse e f) : Touches n m e.accesses f.code := by
  cases h with
  | plain => exact touches_cons.2 ⟨accounted_of_subset (List.Subset.refl _), touches_nil⟩
  | @seq items last first hs hlast hfirst =>
    obtain ⟨init, rfl⟩ := List.getLast?_eq_some_iff.1 hlast
    rw [List.dropLast_concat] at hfirst
    rw [Expr.accesses, listAccesses_append]
    refine touches_cons.2 ⟨accounted_of_subset ?_, ?_⟩
    · simp [Instr.accesses, listAccesses]
    · exact hfirst.touches.widen (Nat.le_refl n) (Nat.le_refl m) (List.subset_append_left _ _)

theorem TestLaid.touches {base onTrue onFalse : Nat} {e : Option Expr} {f : Fragment}
    (h : TestLaid inAsync base onTrue onFalse e f) : Touches n m (optionAccesses e) f.code := by
  cases h with
  | none => exact touches_nil
  | some h => exact h.touches

theorem UpdateLaid.touches {base next : Nat} {e : Option Expr} {f : Fragment}
    (h : UpdateLaid inAsync base next e f) : Touches n m (optionAccesses e) f.code := by
  cases h with
  | none => exact touches_nil
  | @some e f h =>
    rw [optionAccesses, ← List.append_nil e.accesses]
    exact h.touches

theorem InitLaid.touches {base next : Nat} {i : ForInit} {f : Fragment}
    (h : InitLaid inAsync base next i f) : Touches n m i.accesses f.code := by
  cases h with
  | absent => exact touches_nil
  | @expr e f h =>
    rw [ForInit.accesses, ← List.append_nil e.accesses]
    exact h.touches
  | declare => exact touches_cons.2 ⟨accounted_of_subset (List.Subset.refl _), touches_nil⟩

theorem declaredFunctions_accesses (body : List Stmt) :
    (declaredFunctions body).map (fun d => Access.write d.name) ⊆ bodyAccesses body := by
  induction body with
  | nil => exact List.Subset.refl _
  | cons s body ih =>
    have hsub : bodyAccesses body ⊆ bodyAccesses (s :: body) := List.subset_append_right _ _
    cases s with
    | function name f =>
      exact List.cons_subset.2
        ⟨List.mem_append_left _ (List.mem_singleton_self _), fun a ha => hsub (ih ha)⟩
    | _ => exact fun a ha => hsub (ih ha)

theorem caseFunctions_accesses (cases : List Case) :
    (cases.flatMap fun c => declaredFunctions c.body).map (fun d => Access.write d.name) ⊆
      caseAccesses cases := by
  induction cases with
  | nil => exact List.Subset.refl _
  | cons c cases ih =>
    obtain ⟨test, body⟩ := c
    rw [List.flatMap_cons, List.map_append, List.append_subset]
    constructor
    · intro a ha
      exact List.mem_append_left _ (List.mem_append_right _ (declaredFunctions_accesses body ha))
    · exact fun a ha => List.mem_append_right _ (ih ha)

theorem Touches.inScope {body : List Stmt} {known : List Access} {f : Fragment}
    (h : Touches n m known f.code) (hsub : bodyAccesses body ⊆ known) (base next : Nat) :
    Touches n m known (f.inScope base next (declaredFunctions body)).code := by
  refine touches_append.2 ⟨touches_cons.2 ⟨nofun, h⟩, touches_cons.2 ⟨?_, touches_nil⟩⟩
  exact accounted_of_subset fun a ha => hsub (declaredFunctions_accesses body ha)

theorem Touches.iteration {base next : Nat} {labels : List String} {target : ForTarget}
    {subject : Expr} {isAsync overKeys : Bool} {known : List Access} {f : Fragment}
    (h : Touches n m known f.code) :
    Touches n m (target.accesses ++ subject.accesses ++ known)
      (f.iteration base next labels target subject isAsync overKeys).code := by
  have h : Touches n m (target.accesses ++ subject.accesses ++ known) f.code :=
    h.widen (Nat.le_refl n) (Nat.le_refl m) (List.subset_append_right _ _)
  have htarget : ∀ a ∈ target.pattern.accesses,
      Accounted n m (target.accesses ++ subject.accesses ++ known) a :=
    accounted_of_subset (List.subset_append_of_subset_left _ (List.subset_append_left _ _))
  have hsubject : ∀ a ∈ subject.accesses,
      Accounted n m (target.accesses ++ subject.accesses ++ known) a :=
    accounted_of_subset (List.subset_append_of_subset_left _ (List.subset_append_right _ _))
  simp only [Fragment.iteration, touches_append, touches_cons, touches_nil, and_true]
  exact ⟨⟨nofun, nofun, htarget, nofun, h⟩, nofun, nofun, hsubject⟩

/-- The tests of a `switch` compare its subject, which the builder keeps in a temporary. -/
theorem buildTests_touches {k : Nat} (hk : n ≤ k ∧ k < m) (base otherwise : Nat)
    (cs : List (Case × Nat)) : Touches n m (caseAccesses (cs.map Prod.fst))
      (buildTests (tempName k) base otherwise cs).code := by
  induction cs with
  | nil => exact touches_cons.2 ⟨nofun, touches_nil⟩
  | cons c cs ih =>
    obtain ⟨⟨test, body⟩, entry⟩ := c
    have ih : Touches n m (caseAccesses (.mk test body :: cs.map Prod.fst))
        (buildTests (tempName k) base otherwise cs).code :=
      ih.widen (Nat.le_refl n) (Nat.le_refl m) (List.subset_append_right _ _)
    cases test with
    | none => exact ih
    | some test =>
      refine touches_append.2 ⟨ih, touches_cons.2 ⟨fun a ha => ?_, touches_nil⟩⟩
      obtain rfl | ha := List.mem_cons.1 ha
      · exact .inr ⟨k, hk.1, hk.2, rfl⟩
      · exact .inl (List.mem_append_left _ (List.mem_append_left _ ha))

theorem caseAccesses_zip (cs : List Case) (entries : List Nat) :
    caseAccesses ((cs.zip entries).map Prod.fst) ⊆ caseAccesses cs := by
  induction cs generalizing entries with
  | nil => exact List.Subset.refl _
  | cons c cs ih =>
    obtain ⟨test, body⟩ := c
    cases entries with
    | nil => exact List.nil_subset _
    | cons entry entries =>
      exact fun a ha => List.mem_append.2 ((List.mem_append.1 ha).imp_right (ih entries ·))

theorem run_freshTemp_ok (name : String) (k l : Nat) :
    freshTemp.run k = .ok (name, l) ↔ tempName k = name ∧ k + 1 = l := by
  have hrun : freshTemp.run k = .ok (tempName k, k + 1) := rfl
  rw [hrun, Except.ok.injEq, Prod.mk.injEq]

end Pieces

/-- What it means for a part that is built: temporaries are counted upward, and the code accesses
those that were counted and what the part accesses. -/
structure Built (n m : Nat) (accesses : List Access) (code : List Instr) : Prop where
  le : n ≤ m
  touches : Touches n m accesses code

namespace Built

variable {n m : Nat} {around : Surroundings} {labels : List String} {base next : Nat} {s : Stmt}
  {f : Fragment}

theorem ofRun (h : (s.build around labels base next).run n = .ok (f, m))
    (hh : s.hasSuspend around.inAsync = true → Built n m s.accesses f.code) :
    Built n m s.accesses f.code := by
  cases hs : s.hasSuspend around.inAsync with
  | true => exact hh hs
  | false =>
    rw [Stmt.build.eq_def] at h
    simp only [hs, Bool.not_false, ↓reduceIte, run_ofExcept_ok] at h
    obtain ⟨hleaf, rfl⟩ := h
    have hlaid : Laid around base next (.stmt [] s) f := .ofLeaf hs hleaf
    cases hlaid with
    | leaf =>
      refine ⟨Nat.le_refl n, touches_cons.2 ⟨accounted_of_subset ?_, touches_nil⟩⟩
      cases s <;> exact List.Subset.refl _
    | labeled hs' | enclosed hs' | expr hs' | blockStmt hs' | ifElse hs' | whileDo hs' | doWhile hs'
    | forPlain hs' | forScoped hs' | forIn hs' | forOf hs' | tryCatch hs' | switch hs' =>
      exact Bool.noConfusion (hs.symm.trans hs')

theorem ofEnclose {known : List Access} {build : Surroundings → Nat → Nat → Build Fragment}
    (inner : ∀ around' base next f, (build around' base next).run n = .ok (f, m) →
      Built n m known f.code)
    (h : (enclose around labels base next build).run n = .ok (f, m)) : Built n m known f.code := by
  rw [enclose] at h
  split at h
  · exact inner around base next f h
  · simp only [run_bind_ok, run_pure_ok] at h
    obtain ⟨b, k, hb, rfl, rfl⟩ := h
    obtain ⟨hle, hb⟩ := inner _ _ _ b hb
    exact ⟨hle, by simp [Instr.accesses, hb]⟩

end Built

mutual

/-- The code of a statement accesses what the statement does, and temporaries of its own. -/
theorem Stmt.build_touches : (s : Stmt) → (around : Surroundings) → (labels : List String) →
    (base next n m : Nat) → (f : Fragment) →
    (s.build around labels base next).run n = .ok (f, m) → Built n m s.accesses f.code
  | .empty, around, labels, base, next, n, m, f, h | .brk _, around, labels, base, next, n, m, f, h
  | .cont _, around, labels, base, next, n, m, f, h
  | .function _ _, around, labels, base, next, n, m, f, h => .ofRun h fun hs => by
    simp [Stmt.hasSuspend] at hs
  | .ret _, around, labels, base, next, n, m, f, h
  | .throw _, around, labels, base, next, n, m, f, h
  | .declare _ _, around, labels, base, next, n, m, f, h => .ofRun h fun hs => by
    rw [Stmt.build] at h
    simp only [run_unless_ok hs, run_ofExcept_ok, throw_ok, false_and] at h
  | .labeled label s, around, labels, base, next, n, m, f, h => .ofRun h fun hs => by
    rw [Stmt.build] at h
    simp only [run_unless_ok hs] at h
    exact s.build_touches around _ base next n m f h
  | .expr e, around, labels, base, next, n, m, f, h => .ofRun h fun hs => by
    rw [Stmt.build] at h
    simp only [run_unless_ok hs] at h
    refine .ofEnclose ?_ h
    intro around base next f h
    obtain ⟨he, rfl⟩ := (run_ofExcept_ok ..).1 h
    have htouches := (buildEffect_laid _ e base next f he).touches (n := n) (m := n)
    exact ⟨Nat.le_refl n, by simpa [listAccesses, Stmt.accesses] using htouches⟩
  | .block body, around, labels, base, next, n, m, f, h => .ofRun h fun hs => by
    rw [Stmt.build] at h
    simp only [run_unless_ok hs] at h
    refine .ofEnclose ?_ h
    intro around base next f h
    simp only [run_bind_ok, run_pure_ok] at h
    obtain ⟨b, k, hb, rfl, rfl⟩ := h
    obtain ⟨hle, hb⟩ := buildStmts_touches body around _ _ n k b hb
    exact ⟨hle, hb.inScope (List.Subset.refl _) _ _⟩
  | .ifElse test yes none, around, labels, base, next, n, m, f, h => .ofRun h fun hs => by
    rw [Stmt.build] at h
    simp only [run_unless_ok hs] at h
    refine .ofEnclose ?_ h
    intro around base next f h
    simp only [run_bind_ok, run_ofExcept_ok, run_pure_ok] at h
    obtain ⟨y, k, hy, t, k', ⟨ht, rfl⟩, rfl, rfl⟩ := h
    obtain ⟨hle, hy⟩ := yes.build_touches around [] base next n k y hy
    have ht := (buildCondition_laid _ _ _ _ test t ht).touches (n := n) (m := k)
    exact ⟨hle, touches_append.2
      ⟨hy.widen (Nat.le_refl n) (Nat.le_refl k) (List.subset_append_right _ _),
        ht.widen (Nat.le_refl n) (Nat.le_refl k) (List.subset_append_left _ _)⟩⟩
  | .ifElse test yes (some no), around, labels, base, next, n, m, f, h => .ofRun h fun hs => by
    rw [Stmt.build] at h
    simp only [run_unless_ok hs] at h
    refine .ofEnclose ?_ h
    intro around base next f h
    simp only [run_bind_ok, run_ofExcept_ok, run_pure_ok] at h
    obtain ⟨o, k, ho, y, k', hy, t, k'', ⟨ht, rfl⟩, rfl, rfl⟩ := h
    obtain ⟨hle, ho⟩ := no.build_touches around [] base next n k o ho
    obtain ⟨hle', hy⟩ := yes.build_touches around [] _ next k k' y hy
    have ht := (buildCondition_laid _ _ _ _ test t ht).touches (n := n) (m := k')
    exact ⟨Nat.le_trans hle hle', touches_append.2 ⟨touches_append.2
      ⟨ho.widen (Nat.le_refl n) hle' (by simp [Stmt.accesses]),
        hy.widen hle (Nat.le_refl k') (by simp [Stmt.accesses])⟩,
      ht.widen (Nat.le_refl n) (Nat.le_refl k') (by simp [Stmt.accesses])⟩⟩
  | .whileDo test body, around, labels, base, next, n, m, f, h => .ofRun h fun hs => by
    rw [Stmt.build] at h
    simp only [run_unless_ok hs, run_bind_ok, run_ofExcept_ok, run_pure_ok] at h
    obtain ⟨b, k, hb, t, k', ⟨ht, rfl⟩, rfl, rfl⟩ := h
    obtain ⟨hle, hb⟩ := body.build_touches _ [] _ _ n k b hb
    have ht := (buildCondition_laid _ _ _ _ test t ht).touches (n := n) (m := k)
    have hb : Touches n k (Stmt.whileDo test body).accesses b.code :=
      hb.widen (Nat.le_refl n) (Nat.le_refl k) (List.subset_append_right _ _)
    have ht : Touches n k (Stmt.whileDo test body).accesses t.code :=
      ht.widen (Nat.le_refl n) (Nat.le_refl k) (List.subset_append_left _ _)
    exact ⟨hle, by simp [Fragment.testLoop, Instr.accesses, hb, ht]⟩
  | .doWhile body test, around, labels, base, next, n, m, f, h => .ofRun h fun hs => by
    rw [Stmt.build] at h
    simp only [run_unless_ok hs, run_bind_ok, run_ofExcept_ok, run_pure_ok] at h
    obtain ⟨b, k, hb, t, k', ⟨ht, rfl⟩, rfl, rfl⟩ := h
    obtain ⟨hle, hb⟩ := body.build_touches _ [] _ _ n k b hb
    have ht := (buildCondition_laid _ _ _ _ test t ht).touches (n := n) (m := k)
    have hb : Touches n k (Stmt.doWhile body test).accesses b.code :=
      hb.widen (Nat.le_refl n) (Nat.le_refl k) (List.subset_append_left _ _)
    have ht : Touches n k (Stmt.doWhile body test).accesses t.code :=
      ht.widen (Nat.le_refl n) (Nat.le_refl k) (List.subset_append_right _ _)
    exact ⟨hle, by simp [Fragment.testLoop, Instr.accesses, hb, ht]⟩
  | .forLoop init test update body, around, labels, base, next, n, m, f, h => .ofRun h fun hs => by
    rw [Stmt.build] at h
    simp only [run_unless_ok hs, run_bind_ok, run_ofExcept_ok, run_pure_ok] at h
    obtain ⟨u, k, ⟨hu, rfl⟩, b, k', hb, t, k'', ⟨ht, rfl⟩, i, k₁, ⟨hi, rfl⟩, rfl, rfl⟩ := h
    obtain ⟨hle, hb⟩ := body.build_touches _ [] _ _ n k' b hb
    have hu := (buildUpdate_laid _ _ _ update u hu).touches (n := n) (m := k')
    have ht := (buildTest_laid _ _ _ _ test t ht).touches (n := n) (m := k')
    have hi := (buildInit_laid _ _ _ init i hi).touches (n := n) (m := k')
    have hb : Touches n k' (Stmt.forLoop init test update body).accesses b.code :=
      hb.widen (Nat.le_refl n) (Nat.le_refl k') (fun a ha => by simp [Stmt.accesses, ha])
    have hu : Touches n k' (Stmt.forLoop init test update body).accesses u.code :=
      hu.widen (Nat.le_refl n) (Nat.le_refl k') (fun a ha => by simp [Stmt.accesses, ha])
    have ht : Touches n k' (Stmt.forLoop init test update body).accesses t.code :=
      ht.widen (Nat.le_refl n) (Nat.le_refl k') (fun a ha => by simp [Stmt.accesses, ha])
    have hi : Touches n k' (Stmt.forLoop init test update body).accesses i.code :=
      hi.widen (Nat.le_refl n) (Nat.le_refl k') (fun a ha => by simp [Stmt.accesses, ha])
    refine ⟨hle, ?_⟩
    cases init.isScoped with
    | false => simp [Fragment.step, Fragment.headLoop, Instr.accesses, hb, hu, ht, hi]
    | true =>
      simp [Fragment.step, Fragment.close, Fragment.headLoop, Fragment.inScope, Instr.accesses, hb, hu,
        ht, hi]
  | .forIn target subject body, around, labels, base, next, n, m, f, h => .ofRun h fun hs => by
    rw [Stmt.build] at h
    simp only [run_unless_ok hs, run_bind_ok, run_pure_ok] at h
    obtain ⟨b, k, hb, rfl, rfl⟩ := h
    obtain ⟨hle, hb⟩ := body.build_touches _ [] _ _ n k b hb
    exact ⟨hle, hb.iteration⟩
  | .forOf target subject body isAwait, around, labels, base, next, n, m, f, h =>
    .ofRun h fun hs => by
    rw [Stmt.build] at h
    simp only [run_unless_ok hs, run_bind_ok, run_pure_ok] at h
    obtain ⟨b, k, hb, rfl, rfl⟩ := h
    obtain ⟨hle, hb⟩ := body.build_touches _ [] _ _ n k b hb
    exact ⟨hle, hb.iteration⟩
  | .tryCatch block none none, around, labels, base, next, n, m, f, h => .ofRun h fun hs => by
    rw [Stmt.build] at h
    simp only [run_unless_ok hs] at h
    refine .ofEnclose ?_ h
    intro around base next f h
    simp only [run_bind_ok, run_pure_ok] at h
    obtain ⟨b, k, hb, rfl, rfl⟩ := h
    obtain ⟨hle, hb⟩ := buildStmts_touches block around _ _ n k b hb
    have hb := hb.inScope (List.Subset.refl _)
    exact ⟨hle, by simp [Instr.accesses, Stmt.accesses, hb]⟩
  | .tryCatch block none (some finalizer), around, labels, base, next, n, m, f, h =>
    .ofRun h fun hs => by
    rw [Stmt.build] at h
    simp only [run_unless_ok hs] at h
    refine .ofEnclose ?_ h
    intro around base next f h
    simp only [run_bind_ok, run_pure_ok] at h
    obtain ⟨c, k, hc, b, k', hb, rfl, rfl⟩ := h
    obtain ⟨hle, hc⟩ := buildStmts_touches finalizer around _ _ n k c hc
    obtain ⟨hle', hb⟩ := buildStmts_touches block around _ _ k k' b hb
    have hblock : bodyAccesses block ⊆ (Stmt.tryCatch block none (some finalizer)).accesses :=
      List.subset_append_left _ _
    have hfinalizer : bodyAccesses finalizer ⊆ (Stmt.tryCatch block none (some finalizer)).accesses :=
      List.subset_append_right _ _
    have hc := (hc.widen (Nat.le_refl n) hle' hfinalizer).inScope hfinalizer
    have hb := (hb.widen hle (Nat.le_refl k') hblock).inScope hblock
    exact ⟨Nat.le_trans hle hle', by simp [Instr.accesses, hc, hb]⟩
  | .tryCatch block (some (.mk param handler)) none, around, labels, base, next, n, m, f, h =>
    .ofRun h fun hs => by
    rw [Stmt.build] at h
    simp only [run_unless_ok hs] at h
    refine .ofEnclose ?_ h
    intro around base next f h
    simp only [run_bind_ok, run_pure_ok] at h
    obtain ⟨c, k, hc, b, k', hb, rfl, rfl⟩ := h
    obtain ⟨hle, hc⟩ := buildStmts_touches handler around _ _ n k c hc
    obtain ⟨hle', hb⟩ := buildStmts_touches block around _ _ k k' b hb
    have hblock : bodyAccesses block ⊆
        (Stmt.tryCatch block (some (.mk param handler)) none).accesses :=
      fun a ha => by simp [Stmt.accesses, ha]
    have hparam : ∀ a ∈ param.toList.flatMap Pattern.accesses, Accounted n k'
        (Stmt.tryCatch block (some (.mk param handler)) none).accesses a :=
      accounted_of_subset fun a ha => by
        simp only [Stmt.accesses, List.mem_append, ha, or_true, true_or]
    have hhandler : bodyAccesses handler ⊆
        (Stmt.tryCatch block (some (.mk param handler)) none).accesses :=
      fun a ha => by simp [Stmt.accesses, ha]
    have hc := (hc.widen (Nat.le_refl n) hle' hhandler).inScope hhandler
    have hb := (hb.widen hle (Nat.le_refl k') hblock).inScope hblock
    refine ⟨Nat.le_trans hle hle', ?_⟩
    simp only [touches_append, touches_cons, touches_nil, and_true]
    exact ⟨⟨⟨nofun, nofun, hc _ _⟩, hparam, nofun, hb _ _⟩, nofun⟩
  | .tryCatch block (some (.mk param handler)) (some finalizer), around, labels, base, next, n, m, f,
    h => .ofRun h fun hs => by
    rw [Stmt.build] at h
    simp only [run_unless_ok hs] at h
    refine .ofEnclose ?_ h
    intro around base next f h
    simp only [run_bind_ok, run_pure_ok] at h
    obtain ⟨d, k, hd, c, k', hc, b, k'', hb, rfl, rfl⟩ := h
    obtain ⟨hle, hd⟩ := buildStmts_touches finalizer around _ _ n k d hd
    obtain ⟨hle', hc⟩ := buildStmts_touches handler around _ _ k k' c hc
    obtain ⟨hle'', hb⟩ := buildStmts_touches block around _ _ k' k'' b hb
    have hblock : bodyAccesses block ⊆
        (Stmt.tryCatch block (some (.mk param handler)) (some finalizer)).accesses :=
      fun a ha => by simp [Stmt.accesses, ha]
    have hparam : ∀ a ∈ param.toList.flatMap Pattern.accesses, Accounted n k''
        (Stmt.tryCatch block (some (.mk param handler)) (some finalizer)).accesses a :=
      accounted_of_subset fun a ha => by
        simp only [Stmt.accesses, List.mem_append, ha, or_true, true_or]
    have hhandler : bodyAccesses handler ⊆
        (Stmt.tryCatch block (some (.mk param handler)) (some finalizer)).accesses :=
      fun a ha => by simp [Stmt.accesses, ha]
    have hfinalizer : bodyAccesses finalizer ⊆
        (Stmt.tryCatch block (some (.mk param handler)) (some finalizer)).accesses :=
      fun a ha => by simp [Stmt.accesses, ha]
    have hd := (hd.widen (Nat.le_refl n) (Nat.le_trans hle' hle'') hfinalizer).inScope hfinalizer
    have hc := (hc.widen hle hle'' hhandler).inScope hhandler
    have hb := (hb.widen (Nat.le_trans hle hle') (Nat.le_refl k'') hblock).inScope hblock
    refine ⟨Nat.le_trans hle (Nat.le_trans hle' hle''), ?_⟩
    simp only [touches_append, touches_cons, touches_nil, and_true]
    exact ⟨⟨⟨⟨nofun, hd _ _⟩, nofun, nofun, hc _ _⟩, hparam, nofun, hb _ _⟩, nofun⟩
  | .switch subject cases, around, labels, base, next, n, m, f, h => .ofRun h fun hs => by
    rw [Stmt.build] at h
    simp only [run_unless_ok hs, run_bind_ok, run_freshTemp_ok, run_pure_ok] at h
    obtain ⟨⟨code, entries⟩, k, hc, name, k', ⟨rfl, rfl⟩, rfl, rfl⟩ := h
    obtain ⟨hle, hc⟩ := buildCases_touches cases _ _ _ n k code entries hc
    have hcases : caseAccesses cases ⊆ (Stmt.switch subject cases).accesses :=
      List.subset_append_right _ _
    have hc := hc.widen (Nat.le_refl n) (Nat.le_succ k) hcases
    have htests (base otherwise : Nat) := (buildTests_touches (n := n) ⟨hle, Nat.lt_succ_self k⟩ base
      otherwise (cases.zip entries)).widen (Nat.le_refl n) (Nat.le_refl (k + 1))
      (List.Subset.trans (caseAccesses_zip cases entries) hcases)
    have hfunctions : ∀ a ∈ (cases.flatMap fun c => declaredFunctions c.body).map
        fun d => Access.write d.name, Accounted n (k + 1) (Stmt.switch subject cases).accesses a :=
      accounted_of_subset (List.Subset.trans (caseFunctions_accesses cases) hcases)
    have hsubject : ∀ a ∈ (Stmt.expr (.assign .set (.ident (tempName k)) subject)).accesses,
        Accounted n (k + 1) (Stmt.switch subject cases).accesses a := by
      intro a ha
      obtain rfl | ha := List.mem_cons.1 ha
      · exact .inr ⟨k, hle, Nat.lt_succ_self k, rfl⟩
      · exact .inl (List.mem_append_left _ ha)
    refine ⟨Nat.le_succ_of_le hle, ?_⟩
    simp only [touches_append, touches_cons, touches_nil, and_true]
    exact ⟨⟨⟨nofun, nofun, hc⟩, htests _ _⟩, hsubject, nofun, hfunctions⟩

theorem buildStmts_touches : (ss : List Stmt) → (around : Surroundings) → (base next n m : Nat) →
    (f : Fragment) → (buildStmts around base next ss).run n = .ok (f, m) →
    Built n m (bodyAccesses ss) f.code
  | [], around, base, next, n, m, f, h => by
    rw [buildStmts, run_pure_ok] at h
    obtain ⟨rfl, rfl⟩ := h
    exact ⟨Nat.le_refl n, touches_nil⟩
  | s :: ss, around, base, next, n, m, f, h => by
    simp only [buildStmts, run_bind_ok, run_pure_ok] at h
    obtain ⟨rest, k, hrest, first, k', hfirst, rfl, rfl⟩ := h
    obtain ⟨hle, hrest⟩ := buildStmts_touches ss around base next n k rest hrest
    obtain ⟨hle', hfirst⟩ := s.build_touches around [] _ _ k k' first hfirst
    exact ⟨Nat.le_trans hle hle', touches_append.2
      ⟨hrest.widen (Nat.le_refl n) hle' (List.subset_append_right _ _),
        hfirst.widen hle (Nat.le_refl k') (List.subset_append_left _ _)⟩⟩

theorem buildCases_touches : (cs : List Case) → (around : Surroundings) → (base exit n m : Nat) →
    (code : List Instr) → (entries : List Nat) →
    (buildCases around base exit cs).run n = .ok ((code, entries), m) →
    Built n m (caseAccesses cs) code
  | [], around, base, exit, n, m, code, entries, h => by
    simp only [buildCases, run_pure_ok, Prod.mk.injEq] at h
    obtain ⟨⟨rfl, rfl⟩, rfl⟩ := h
    exact ⟨Nat.le_refl n, touches_nil⟩
  | .mk test body :: cs, around, base, exit, n, m, code, entries, h => by
    simp only [buildCases, run_bind_ok, run_pure_ok, Prod.mk.injEq] at h
    obtain ⟨⟨c, es⟩, k, hc, b, k', hb, ⟨rfl, rfl⟩, rfl⟩ := h
    obtain ⟨hle, hc⟩ := buildCases_touches cs around base exit n k c es hc
    obtain ⟨hle', hb⟩ := buildStmts_touches body around _ _ k k' b hb
    exact ⟨Nat.le_trans hle hle', touches_append.2
      ⟨hc.widen (Nat.le_refl n) hle' (List.subset_append_right _ _),
        hb.widen hle (Nat.le_refl k') (by simp [caseAccesses])⟩⟩

end

end Resumable
