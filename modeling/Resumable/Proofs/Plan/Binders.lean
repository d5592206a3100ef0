import Resumable.Proofs.Lowering.VarNames
import Resumable.Proofs.Plan.Completeness

/-!
Where a plan binds what its body declares for the whole function. It does so in the statements that it
evaluates whole, and in the heads of the loops over iterators that it runs itself. Main statement:
`buildPlan_binds`.
-/

set_option autoImplicit false

namespace Resumable

mutual

/-- The heads of the loops over iterators in a statement, outside of nested functions. -/
def Stmt.targets : Stmt → List ForTarget
  | .empty | .expr _ | .ret _ | .brk _ | .cont _ | .throw _ | .function _ _ | .declare _ _ => []
  | .block body => listTargets body
  | .ifElse _ y none => y.targets
  | .ifElse _ y (some n) => y.targets ++ n.targets
  | .whileDo _ b | .doWhile b _ | .labeled _ b | .forLoop _ _ _ b => b.targets
  | .forIn target _ b | .forOf target _ b _ => target :: b.targets
  | .tryCatch b none none => listTargets b
  | .tryCatch b none (some f) => listTargets b ++ listTargets f
  | .tryCatch b (some (.mk _ h)) none => listTargets b ++ listTargets h
  | .tryCatch b (some (.mk _ h)) (some f) => listTargets b ++ listTargets h ++ listTargets f
  | .switch _ cases => caseTargets cases

def listTargets : List Stmt → List ForTarget
  | [] => []
  | s :: ss => s.targets ++ listTargets ss

def caseTargets : List Case → List ForTarget
  | [] => []
  | .mk _ body :: cases => listTargets body ++ caseTargets cases

end

mutual

theorem Stmt.target_varNames {target : ForTarget} : (s : Stmt) → target ∈ s.targets →
    target.varNames ⊆ s.varNames
  | .empty, h | .expr _, h | .ret _, h | .brk _, h | .cont _, h | .throw _, h | .function _ _, h
  | .declare _ _, h => absurd h List.not_mem_nil
  | .block body, h => list_target_varNames body h
  | .ifElse _ y none, h => y.target_varNames h
  | .ifElse _ y (some n), h => by
    rcases List.mem_append.1 h with h | h
    · exact List.subset_append_of_subset_left _ (y.target_varNames h)
    · exact List.subset_append_of_subset_right _ (n.target_varNames h)
  | .whileDo _ b, h | .doWhile b _, h | .labeled _ b, h => b.target_varNames h
  | .forLoop i _ _ b, h => List.subset_append_of_subset_right _ (b.target_varNames h)
  | .forIn t _ b, h | .forOf t _ b _, h => by
    rcases List.mem_cons.1 h with rfl | h
    · exact List.subset_append_left ..
    · exact List.subset_append_of_subset_right _ (b.target_varNames h)
  | .tryCatch b none none, h => list_target_varNames b h
  | .tryCatch b none (some f), h => by
    rcases List.mem_append.1 h with h | h
    · exact List.subset_append_of_subset_left _ (list_target_varNames b h)
    · exact List.subset_append_of_subset_right _ (list_target_varNames f h)
  | .tryCatch b (some (.mk _ c)) none, h => by
    rcases List.mem_append.1 h with h | h
    · exact List.subset_append_of_subset_left _ (list_target_varNames b h)
    · exact List.subset_append_of_subset_right _ (list_target_varNames c h)
  | .tryCatch b (some (.mk _ c)) (some f), h => by
    rcases List.mem_append.1 h with h | h
    · refine List.subset_append_of_subset_left _ ?_
      rcases List.mem_append.1 h with h | h
      · exact List.subset_append_of_subset_left _ (list_target_varNames b h)
      · exact List.subset_append_of_subset_right _ (list_target_varNames c h)
    · exact List.subset_append_of_subset_right _ (list_target_varNames f h)
  | .switch _ cases, h => case_target_varNames cases h

theorem list_target_varNames {target : ForTarget} : (ss : List Stmt) → target ∈ listTargets ss →
    target.varNames ⊆ listVarNames ss
  | [], h => absurd h List.not_mem_nil
  | s :: ss, h => by
    rcases List.mem_append.1 h with h | h
    · exact List.subset_append_of_subset_left _ (s.target_varNames h)
    · exact List.subset_append_of_subset_right _ (list_target_varNames ss h)

theorem case_target_varNames {target : ForTarget} : (cases : List Case) →
    target ∈ caseTargets cases → target.varNames ⊆ caseVarNames cases
  | [], h => absurd h List.not_mem_nil
  | .mk _ body :: cases, h => by
    rcases List.mem_append.1 h with h | h
    · exact List.subset_append_of_subset_left _ (list_target_varNames body h)
    · exact List.subset_append_of_subset_right _ (case_target_varNames cases h)

end

/-- Whether an instruction declares no names but these, and binds elements of loops with no heads but
these. -/
def Instr.BindsIn (names : List String) (targets : List ForTarget) : Instr → Prop
  | .evaluate s _ => s.varNames ⊆ names
  | .moveNext kind p _ _ _ => ∃ target ∈ targets, kind = target.kind? ∧ p = target.pattern
  | _ => True

def BindsIn (names : List String) (targets : List ForTarget) (code : List Instr) : Prop :=
  ∀ i ∈ code, i.BindsIn names targets

section Flat

variable {names : List String} {targets : List ForTarget} {inAsync : Bool} {base next : Nat}

@[simp] theorem bindsIn_nil : BindsIn names targets [] := List.forall_mem_nil _

@[simp] theorem bindsIn_cons {i : Instr} {code : List Instr} :
    BindsIn names targets (i :: code) ↔ i.BindsIn names targets ∧ BindsIn names targets code :=
  List.forall_mem_cons

@[simp] theorem bindsIn_append {c d : List Instr} :
    BindsIn names targets (c ++ d) ↔ BindsIn names targets c ∧ BindsIn names targets d :=
  List.forall_mem_append

theorem BindsIn.mono {names' : List String} {code : List Instr} (h : BindsIn names targets code)
    (hn : names ⊆ names') : BindsIn names' targets code := by
  intro i hi
  have hi := h i hi
  cases i with
  | evaluate s next => exact List.Subset.trans hi hn
  | _ => exact hi

theorem bindsIn_expr (e : Expr) : (Instr.evaluate (.expr e) next).BindsIn names targets :=
  List.nil_subset _

theorem suspendInstr_bindsIn {e : Expr} {store : Nat} {i : Instr} (h : e.suspendInstr? store = some i) :
    i.BindsIn names targets := by
  rw [Expr.suspendInstr?.eq_def] at h
  split at h <;> cases h <;> trivial

theorem EffectsLaid.bindsIn {es : List Expr} {f : Fragment} (h : EffectsLaid inAsync base next es f) :
    BindsIn names targets f.code := by
  induction h with
  | nil => exact bindsIn_nil
  | plain _ _ ih => simp [ih, bindsIn_expr]
  | suspend _ _ _ _ hi ih =>
    rw [bindsIn_append, bindsIn_cons, bindsIn_cons]
    exact ⟨ih, trivial, suspendInstr_bindsIn hi, bindsIn_nil⟩
  | seq _ _ _ ih ih' => simp [ih, ih']

theorem ConditionLaid.bindsIn {onTrue onFalse : Nat} {e : Expr} {f : Fragment}
    (h : ConditionLaid inAsync base onTrue onFalse e f) : BindsIn names targets f.code := by
  cases h with
  | plain => simp [Fragment.one, Instr.BindsIn]
  | seq _ _ hfirst => simp [hfirst.bindsIn, Instr.BindsIn]

theorem TestLaid.bindsIn {onTrue onFalse : Nat} {e : Option Expr} {f : Fragment}
    (h : TestLaid inAsync base onTrue onFalse e f) : BindsIn names targets f.code := by
  cases h with
  | none => exact bindsIn_nil
  | some h => exact h.bindsIn

theorem UpdateLaid.bindsIn {e : Option Expr} {f : Fragment} (h : UpdateLaid inAsync base next e f) :
    BindsIn names targets f.code := by
  cases h with
  | none => exact bindsIn_nil
  | some h => exact h.bindsIn

theorem InitLaid.bindsIn {init : ForInit} {f : Fragment} (h : InitLaid inAsync base next init f)
    (hv : init.varNames ⊆ names) : BindsIn names targets f.code := by
  cases h with
  | absent => exact bindsIn_nil
  | expr h => exact h.bindsIn
  | declare => exact bindsIn_cons.2 ⟨hv, bindsIn_nil⟩

theorem buildTests_bindsIn (subject : String) (otherwise : Nat) (cases : List (Case × Nat)) :
    BindsIn names targets (buildTests subject base otherwise cases).code := by
  induction cases with
  | nil => simp [buildTests, Fragment.one, Instr.BindsIn]
  | cons c cases ih =>
    simp only [buildTests]
    split
    · exact ih
    · simp [Fragment.close, ih, Instr.BindsIn]

theorem step_bindsIn {u : Fragment} (ownScope : Bool) (h : BindsIn names targets u.code) :
    BindsIn names targets (u.step ownScope base).code := by
  rw [Fragment.step]
  split
  · simpa [Fragment.close, Instr.BindsIn] using h
  · exact h

theorem leaf_bindsIn (s : Stmt) (h : s.varNames ⊆ names) :
    BindsIn names targets [s.leafInstr next] := by
  cases s <;> simp_all [Stmt.leafInstr, Instr.BindsIn]

end Flat

namespace Part

def varNames : Part → List String
  | .stmt _ s => s.varNames
  | .stmts ss | .block ss => listVarNames ss
  | .alternative none | .handler none _ | .finalizer none _ => []
  | .alternative (some no) => no.varNames
  | .headLoop _ _ init _ _ body => init.varNames ++ body.varNames
  | .iteration _ target _ body _ _ => target.varNames ++ body.varNames
  | .handler (some (.mk _ body)) _ | .finalizer (some body) _ => listVarNames body
  | .cases cs _ => caseVarNames cs

def targets : Part → List ForTarget
  | .stmt _ s => s.targets
  | .stmts ss | .block ss => listTargets ss
  | .alternative none | .handler none _ | .finalizer none _ => []
  | .alternative (some no) => no.targets
  | .headLoop _ _ _ _ _ body => body.targets
  | .iteration _ target _ body _ _ => target :: body.targets
  | .handler (some (.mk _ body)) _ | .finalizer (some body) _ => listTargets body
  | .cases cs _ => caseTargets cs

/-- Whether a part declares no names but these, and has no heads but these. -/
def Within (names : List String) (targets : List ForTarget) (part : Part) : Prop :=
  part.varNames ⊆ names ∧ part.targets ⊆ targets

end Part

section Code

variable {names : List String} {targets : List ForTarget} {around : Surroundings} {base next : Nat}
  {part : Part} {f : Fragment}

theorem tryCatch_within {labels : List String} {block : List Stmt} {handler : Option Catch}
    {finalizer : Option (List Stmt)} (onThrow onExit : Option Nat)
    (h : (Part.stmt labels (.tryCatch block handler finalizer)).Within names targets) :
    (Part.block block).Within names targets ∧ (Part.handler handler onThrow).Within names targets ∧
      (Part.finalizer finalizer onExit).Within names targets := by
  match handler, finalizer with
  | none, none | none, some _ | some (.mk _ _), none | some (.mk _ _), some _ =>
    simp_all [Part.Within, Part.varNames, Part.targets, Stmt.varNames, Stmt.targets]

/-- Code binds nothing that is not bound in what it is made for. -/
theorem Laid.bindsIn (h : Laid around base next part f) (hp : part.Within names targets) :
    BindsIn names targets f.code := by
  induction h with
  | leaf => exact leaf_bindsIn _ hp.1
  | labeled _ _ ih | blockStmt _ _ ih | alternative _ ih | forPlain _ _ _ ih | forIn _ _ ih
  | forOf _ _ ih => exact ih hp
  | enclosed _ _ _ _ ih => simpa [Fragment.enclose, Instr.BindsIn] using ih hp
  | expr _ he => exact he.bindsIn
  | @ifElse _ _ _ _ _ no _ _ _ _ _ _ ht ihn ihy =>
    cases no <;> simp_all [Part.Within, Part.varNames, Part.targets, Stmt.varNames, Stmt.targets,
      ht.bindsIn]
  | whileDo _ _ ht ih | doWhile _ _ ht ih =>
    simpa [Fragment.testLoop, Instr.BindsIn, ht.bindsIn] using ih hp
  | forScoped _ _ _ ih | block _ ih => simpa [Fragment.inScope, Instr.BindsIn] using ih hp
  | headLoop hu hc _ ht hi ih =>
    have hc : BindsIn names targets _ := hc ▸ step_bindsIn _ hu.bindsIn
    have hnames := List.append_subset.1 hp.1
    simp [Fragment.headLoop, Instr.BindsIn, hc, ih ⟨hnames.2, hp.2⟩, ht.bindsIn, hi.bindsIn hnames.1]
  | @iteration _ _ _ _ target _ _ _ _ _ _ ih =>
    have hnames := List.append_subset.1 hp.1
    have htargets := List.cons_subset.1 hp.2
    have hmove : ∃ t ∈ targets, target.kind? = t.kind? ∧ target.pattern = t.pattern :=
      ⟨target, htargets.1, rfl, rfl⟩
    simpa [Fragment.iteration, Instr.BindsIn, hmove] using ih ⟨hnames.2, htargets.2⟩
  | @tryCatch _ _ _ _ _ _ onThrow onExit _ _ _ _ _ _ _ ihf ihh ihb =>
    obtain ⟨hb, hh, hf⟩ := tryCatch_within onThrow onExit hp
    simp [Fragment.protect, Instr.BindsIn, ihf hf, ihh hh, ihb hb]
  | switch _ _ ih => simp [Fragment.switch, Instr.BindsIn, ih hp, buildTests_bindsIn, Stmt.varNames]
  | noAlternative | noFinalizer | noHandler | nil | noCase => exact bindsIn_nil
  | finalizer _ ih | handler _ ih => simpa [Instr.BindsIn] using ih hp
  | cons _ _ ih ih' =>
    have hnames := List.append_subset.1 hp.1
    have htargets := List.append_subset.1 hp.2
    simp [ih ⟨hnames.2, htargets.2⟩, ih' ⟨hnames.1, htargets.1⟩]
  | case _ _ ih ih' =>
    have hnames := List.append_subset.1 hp.1
    have htargets := List.append_subset.1 hp.2
    simp [ih ⟨hnames.2, htargets.2⟩, ih' ⟨hnames.1, htargets.1⟩]

/-- A plan declares no names but those of its lowered body, and has no heads but those. -/
theorem buildPlan_binds {inAsync : Bool} {params : List Pattern} {body : List Stmt} {plan : Plan}
    {lowered : LoweredBody} (hl : lowerBody inAsync body = .ok lowered)
    (h : buildPlan inAsync params body = .ok plan) :
    BindsIn (listVarNames lowered.body) (listTargets lowered.body) plan.code := by
  obtain ⟨lowered', f, hl', hlaid, hcode, -⟩ := buildPlan_laid h
  obtain rfl : lowered' = lowered := Except.ok.inj (hl'.symm.trans hl)
  rw [hcode, bindsIn_cons]
  exact ⟨trivial, hlaid.bindsIn ⟨List.Subset.refl _, List.Subset.refl _⟩⟩

end Code

end Resumable
