import Resumable.Proofs.Lowering.Groups
import Resumable.Proofs.Lowering.Normal
import Resumable.Script.Names

/-!
What a body declares for the whole function, and lowering. What is hoisted out of a statement declares
nothing, and what is left of it keeps its declarators and the patterns of its heads, so that the names
found in the written body are those of the lowered one. Main statements: `lowerBody_varNames`,
`lowerBody_declaredFunctions`.
-/

set_option autoImplicit false

namespace Resumable

theorem listVarNames_cons (s : Stmt) (ss : List Stmt) :
    listVarNames (s :: ss) = s.varNames ++ listVarNames ss := rfl

theorem listVarNames_singleton (s : Stmt) : listVarNames [s] = s.varNames := List.append_nil _

theorem listVarNames_append (ss ts : List Stmt) :
    listVarNames (ss ++ ts) = listVarNames ss ++ listVarNames ts := by
  induction ss with
  | nil => rfl
  | cons s ss ih => simp [listVarNames_cons, ih, List.append_assoc]

theorem declaredFunctions_append (ss ts : List Stmt) :
    declaredFunctions (ss ++ ts) = declaredFunctions ss ++ declaredFunctions ts :=
  List.filterMap_append

theorem declaredFunctions_cons_eq_nil {s : Stmt} {ss : List Stmt} :
    declaredFunctions (s :: ss) = [] ↔ declaredFunctions [s] = [] ∧ declaredFunctions ss = [] := by
  rw [← List.singleton_append, declaredFunctions_append, List.append_eq_nil_iff]

theorem declaredVars_cons (kind : VarKind) (p : Pattern) (init init' : Option Expr)
    (ds : List Declarator) :
    declaredVars kind (.mk p init :: ds) =
      (Stmt.declare kind [.mk p init']).varNames ++ declaredVars kind ds := by
  show declaredVars kind _ = declaredVars kind _ ++ declaredVars kind ds
  simp only [declaredVars]
  split
  · simp [Declarator.names]
  · rfl

@[simp] theorem listVarNames_effectStmts (es : List Expr) : listVarNames (effectStmts es) = [] := by
  induction es with
  | nil => rfl
  | cons e es ih => exact ih

@[simp] theorem declaredFunctions_effectStmts (es : List Expr) :
    declaredFunctions (effectStmts es) = [] := by
  induction es with
  | nil => rfl
  | cons e es ih => exact ih

@[simp] theorem varNames_ofList (ss : List Stmt) : (Stmt.ofList ss).varNames = listVarNames ss := by
  rcases ofList_cases ss with ⟨s, rfl, h⟩ | h
  · rw [h, listVarNames_singleton]
  · exact congrArg Stmt.varNames h

theorem listVarNames_labelLast (label : String) (ss : List Stmt) :
    listVarNames (labelLast label ss) = listVarNames ss := by
  rcases ss.eq_nil_or_concat with rfl | ⟨init, t, rfl⟩
  · rfl
  · rw [List.concat_eq_append, labelLast_append, listVarNames_append, listVarNames_append]
    rfl

theorem declaredVars_withInitials (kind : VarKind) {ds : List Declarator} {es : List Expr}
    (h : es.length = (initials ds).length) :
    declaredVars kind (withInitials ds es) = declaredVars kind ds := by
  have names : (withInitials ds es).flatMap Declarator.names = ds.flatMap Declarator.names := by
    induction ds generalizing es with
    | nil => rfl
    | cons d ds ih =>
      obtain ⟨p, init⟩ := d
      cases init with
      | none => simp [withInitials, Declarator.names, ih h]
      | some e =>
        cases es with
        | nil => simp [initials] at h
        | cons e' es => simp [withInitials, Declarator.names, ih (Nat.succ.inj h)]
  simp [declaredVars, names]

/-- Nothing is declared that was not before, and nothing is lost. A statement that is not kept declares
no function, and neither does what takes its place. -/
def Grouping.SameNames : Grouping → Prop
  | .stmt s ss => listVarNames ss = s.varNames ∧ (ss = [s] ∨ declaredFunctions (s :: ss) = [])
  | .body ts ss => listVarNames ss = listVarNames ts ∧ declaredFunctions ss = declaredFunctions ts
  | .cases ds cs => caseVarNames cs = caseVarNames ds
  | .declarators kind ds ss => listVarNames ss = declaredVars kind ds ∧ declaredFunctions ss = []
  | .condition _ _ => True
  | .init i _ j => j.varNames = i.varNames

namespace Grouping.SameNames

variable {s t : Stmt} {ss : List Stmt} {es : List Expr}

/-- One statement takes the place of another, after what was hoisted out of that. -/
theorem after (hv : t.varNames = s.varNames) (hf : declaredFunctions [s, t] = []) :
    SameNames (.stmt s (effectStmts es ++ [t])) := by
  refine ⟨by simp [listVarNames_append, listVarNames_singleton, hv], .inr ?_⟩
  rw [declaredFunctions_cons_eq_nil] at hf ⊢
  rw [declaredFunctions_append, declaredFunctions_effectStmts]
  exact hf

theorem alone (hv : t.varNames = s.varNames) (hf : declaredFunctions [s, t] = []) :
    SameNames (.stmt s (effectStmts [] ++ [t])) :=
  after hv hf

theorem functions (h : SameNames (.stmt s ss)) : declaredFunctions ss = declaredFunctions [s] := by
  rcases h.2 with rfl | hf
  · rfl
  · rw [declaredFunctions_cons_eq_nil] at hf
    rw [hf.1, hf.2]

/-- The label goes to the last of the statements, where a function declaration could only be the one
that was labeled. -/
theorem labeled (label : String) (h : SameNames (.stmt s ss)) :
    SameNames (.stmt (.labeled label s) (labelLast label ss)) := by
  refine ⟨(listVarNames_labelLast label ss).trans h.1, ?_⟩
  rcases h.2 with rfl | hf
  · exact .inl rfl
  · refine .inr ?_
    rw [declaredFunctions_cons_eq_nil] at hf ⊢
    refine ⟨rfl, ?_⟩
    rcases ss.eq_nil_or_concat with rfl | ⟨init, t, rfl⟩
    · rfl
    · have hf := hf.2
      rw [List.concat_eq_append, declaredFunctions_append, List.append_eq_nil_iff] at hf
      rw [List.concat_eq_append, labelLast_append, declaredFunctions_append, hf.1]
      rfl

end Grouping.SameNames

theorem Groups.sameNames {inAsync : Bool} {n m : SlotNumber} {g : Grouping}
    (h : Groups inAsync (Hoists inAsync) n g m) : g.SameNames := by
  induction h with
  | plain => exact ⟨listVarNames_singleton _, .inl rfl⟩
  | expr => exact ⟨listVarNames_effectStmts _, .inr (declaredFunctions_effectStmts _)⟩
  | declare _ ih => exact ⟨ih.1, .inr ih.2⟩
  | ret | throw => exact .after rfl rfl
  | block _ ih => exact .alone ih.1 rfl
  | ifThen _ _ ih => exact .after (by simp [Stmt.varNames, ih.1]) rfl
  | ifElse _ _ _ ih ih' => exact .after (by simp [Stmt.varNames, ih.1, ih'.1]) rfl
  | whileDo _ _ _ ih | doWhile _ _ _ ih => exact .alone (by simp [Stmt.varNames, ih.1]) rfl
  | forLoop _ _ _ _ hi _ _ ih =>
    exact .after (by rw [Stmt.varNames, Stmt.varNames, hi, varNames_ofList, ih.1]) rfl
  | forIn _ _ ih | forOf _ _ ih => exact .after (by simp [Stmt.varNames, ih.1]) rfl
  | tryOnly _ ih => exact .alone ih.1 rfl
  | tryFinally _ _ hf hb => exact .alone (by simp [Stmt.varNames, hf.1, hb.1]) rfl
  | tryCatch _ _ hh hb => exact .alone (by simp [Stmt.varNames, hh.1, hb.1]) rfl
  | tryCatchFinally _ _ _ hh hf hb => exact .alone (by simp [Stmt.varNames, hh.1, hf.1, hb.1]) rfl
  | switch _ _ ih => exact .after ih rfl
  | labeled _ ih => exact ih.labeled _
  | nil => exact ⟨rfl, rfl⟩
  | cons _ _ hs ih =>
    constructor
    · rw [listVarNames_append, listVarNames_cons, hs.1, ih.1]
    · rw [declaredFunctions_append, hs.functions, ih.2, ← declaredFunctions_append]
      rfl
  | noCase => exact rfl
  | case _ _ hb ih =>
    change listVarNames _ ++ caseVarNames _ = listVarNames _ ++ caseVarNames _
    rw [hb.1, ih]
  | noDeclarator => exact ⟨(ite_self []).symm, rfl⟩
  | uninitialized _ ih => exact ⟨by rw [declaredVars_cons, listVarNames_cons, ih.1], ih.2⟩
  | @initialized _ _ _ kind p e h ds ss _ _ ih =>
    constructor
    · rw [declaredVars_cons kind p (some e) (some h.rest), listVarNames_append, listVarNames_append,
        listVarNames_effectStmts, listVarNames_singleton, ih.1]
      rfl
    · rw [declaredFunctions_append, declaredFunctions_append, declaredFunctions_effectStmts, ih.2]
      rfl
  | keptCondition | condition => exact trivial
  | keptInit => exact rfl
  | initDeclare hh => exact declaredVars_withInitials _ hh.sound.1
  | initExpr => exact rfl

theorem lowerBody_groups {inAsync : Bool} {body : List Stmt} {lowered : LoweredBody}
    (h : lowerBody inAsync body = .ok lowered) :
    ∃ m, Groups inAsync (Hoists inAsync) (firstFreeSlot body) (.body body lowered.body) m := by
  rw [lowerBody] at h
  split at h
  · rename_i ss m hr
    cases h
    exact ⟨m, lowerStmts_groups inAsync body ss _ m hr⟩
  · cases h

/-- The names to be hoisted are the same ones, in the same order. -/
theorem lowerBody_varNames {inAsync : Bool} {body : List Stmt} {lowered : LoweredBody}
    (h : lowerBody inAsync body = .ok lowered) :
    listVarNames lowered.body = listVarNames body := by
  obtain ⟨m, hg⟩ := lowerBody_groups h
  exact hg.sameNames.1

theorem lowerBody_declaredFunctions {inAsync : Bool} {body : List Stmt} {lowered : LoweredBody}
    (h : lowerBody inAsync body = .ok lowered) :
    declaredFunctions lowered.body = declaredFunctions body := by
  obtain ⟨m, hg⟩ := lowerBody_groups h
  exact hg.sameNames.2

end Resumable
