import Resumable.Proofs.Lowering.VarNames

/-!
`for await` loops that a plan runs whole: those of a synchronous body that do not suspend in a body of
their own. Main statement: `lowerBody_wholeLoops`: lowering makes none and takes none away.
-/

set_option autoImplicit false

namespace Resumable

mutual

/-- How many `for await` loops of the statement run whole, outside of nested functions. -/
def Stmt.wholeLoops (inAsync : Bool) : Stmt → Nat
  | .empty | .brk _ | .cont _ | .function _ _ | .expr _ | .throw _ | .ret _ | .declare _ _ => 0
  | .block body => bodyWholeLoops inAsync body
  | .ifElse _ y none => y.wholeLoops inAsync
  | .ifElse _ y (some n) => y.wholeLoops inAsync + n.wholeLoops inAsync
  | .whileDo _ b | .doWhile b _ | .forLoop _ _ _ b | .forIn _ _ b | .labeled _ b => b.wholeLoops inAsync
  | .forOf p e b isAwait =>
    (isAwait && (Stmt.forOf p e b isAwait).runsWhole inAsync).toNat + b.wholeLoops inAsync
  | .tryCatch b none none => bodyWholeLoops inAsync b
  | .tryCatch b none (some f) => bodyWholeLoops inAsync b + bodyWholeLoops inAsync f
  | .tryCatch b (some (.mk _ h)) none => bodyWholeLoops inAsync b + bodyWholeLoops inAsync h
  | .tryCatch b (some (.mk _ h)) (some f) =>
    bodyWholeLoops inAsync b + bodyWholeLoops inAsync h + bodyWholeLoops inAsync f
  | .switch _ cases => caseWholeLoops inAsync cases

def bodyWholeLoops (inAsync : Bool) : List Stmt → Nat
  | [] => 0
  | s :: ss => s.wholeLoops inAsync + bodyWholeLoops inAsync ss

def caseWholeLoops (inAsync : Bool) : List Case → Nat
  | [] => 0
  | .mk _ body :: cases => bodyWholeLoops inAsync body + caseWholeLoops inAsync cases

end

variable {inAsync : Bool}

theorem bodyWholeLoops_cons (s : Stmt) (ss : List Stmt) :
    bodyWholeLoops inAsync (s :: ss) = s.wholeLoops inAsync + bodyWholeLoops inAsync ss := rfl

theorem bodyWholeLoops_singleton (s : Stmt) :
    bodyWholeLoops inAsync [s] = s.wholeLoops inAsync := rfl

theorem bodyWholeLoops_append (ss ts : List Stmt) :
    bodyWholeLoops inAsync (ss ++ ts) = bodyWholeLoops inAsync ss + bodyWholeLoops inAsync ts := by
  induction ss with
  | nil => exact (Nat.zero_add _).symm
  | cons s ss ih => simp [bodyWholeLoops_cons, ih, Nat.add_assoc]

@[simp] theorem bodyWholeLoops_effectStmts (es : List Expr) :
    bodyWholeLoops inAsync (effectStmts es) = 0 := by
  induction es with
  | nil => rfl
  | cons e es ih =>
    rw [← ih]
    exact Nat.zero_add _

@[simp] theorem wholeLoops_ofList (ss : List Stmt) :
    (Stmt.ofList ss).wholeLoops inAsync = bodyWholeLoops inAsync ss := by
  rcases ofList_cases ss with ⟨s, rfl, h⟩ | h
  · rw [h, bodyWholeLoops_singleton]
  · exact congrArg (·.wholeLoops inAsync) h

theorem bodyWholeLoops_labelLast (label : String) (ss : List Stmt) :
    bodyWholeLoops inAsync (labelLast label ss) = bodyWholeLoops inAsync ss := by
  rcases ss.eq_nil_or_concat with rfl | ⟨init, t, rfl⟩
  · rfl
  · rw [List.concat_eq_append, labelLast_append, bodyWholeLoops_append, bodyWholeLoops_append]
    rfl

theorem anySuspend_labelLast (label : String) (ss : List Stmt) :
    anySuspend inAsync (labelLast label ss) = anySuspend inAsync ss := by
  rcases ss.eq_nil_or_concat with rfl | ⟨init, t, rfl⟩
  · rfl
  · simp [labelLast_append, anySuspend_append, anySuspend, Stmt.hasSuspend]

theorem Hoists.suspends_expr {n m : SlotNumber} {e : Expr} {h : Hoisted}
    (hh : Hoists inAsync n (.expr e h) m) :
    listHasSuspend inAsync h.before = e.hasSuspend inAsync ∧ h.rest.hasSuspend inAsync = false := by
  obtain ⟨hrest, -, hbefore⟩ := hh.sound
  exact ⟨hasSuspend_of_forms inAsync hbefore, (forms_eq_nil_iff inAsync h.rest).1 hrest⟩

theorem Hoists.suspends_effects {n m : SlotNumber} {es before : List Expr}
    (hh : Hoists inAsync n (.effects es before) m) :
    listHasSuspend inAsync before = listHasSuspend inAsync es := by
  apply eq_of_false_iff
  rw [← listForms_eq_nil_iff, hh.sound.2, listForms_eq_nil_iff]

/-- Whether nothing but the initializers that suspend is gone from the head of a loop. -/
theorem withInitials_hasSuspend {ds : List Declarator} {es : List Expr}
    (hl : es.length = (initials ds).length) (hes : listHasSuspend inAsync es = false) :
    (listHasSuspend inAsync (initials ds) || (withInitials ds es).any (·.hasSuspend inAsync)) =
      ds.any (·.hasSuspend inAsync) := by
  induction ds generalizing es with
  | nil => rfl
  | cons d ds ih =>
    obtain ⟨p, init⟩ := d
    cases init with
    | none =>
      have ih := ih hl hes
      simp only [initials, withInitials, List.any_cons, Declarator.hasSuspend] at ih ⊢
      rw [← ih]
      exact Bool.or_left_comm ..
    | some e =>
      cases es with
      | nil => simp [initials] at hl
      | cons d es =>
        rw [listHasSuspend_cons, Bool.or_eq_false_iff] at hes
        have ih := ih (Nat.succ.inj hl) hes.2
        simp only [initials, withInitials, List.any_cons, Declarator.hasSuspend, Option.any_some,
          listHasSuspend_cons, hes.1, Bool.false_or] at ih ⊢
        rw [← ih, Bool.or_assoc, Bool.or_assoc, Bool.or_left_comm (listHasSuspend _ _)]

/-- What lowering keeps: whether there is a suspend point, and the loops that run whole. -/
def Grouping.SameLoops (inAsync : Bool) : Grouping → Prop
  | .stmt s ss => anySuspend inAsync ss = s.hasSuspend inAsync ∧
      bodyWholeLoops inAsync ss = s.wholeLoops inAsync
  | .body ts ss => anySuspend inAsync ss = anySuspend inAsync ts ∧
      bodyWholeLoops inAsync ss = bodyWholeLoops inAsync ts
  | .cases ds cs => casesHaveSuspend inAsync cs = casesHaveSuspend inAsync ds ∧
      caseWholeLoops inAsync cs = caseWholeLoops inAsync ds
  | .declarators _ ds ss => anySuspend inAsync ss = ds.any (·.hasSuspend inAsync) ∧
      bodyWholeLoops inAsync ss = 0
  | .condition e d => d.any (·.hasSuspend inAsync) = e.any (·.hasSuspend inAsync)
  | .init i before j => (listHasSuspend inAsync before || j.hasSuspend inAsync) = i.hasSuspend inAsync

namespace Grouping.SameLoops

variable {s t : Stmt} {es : List Expr}

theorem after (hs : (listHasSuspend inAsync es || t.hasSuspend inAsync) = s.hasSuspend inAsync)
    (hl : t.wholeLoops inAsync = s.wholeLoops inAsync) :
    SameLoops inAsync (.stmt s (effectStmts es ++ [t])) := by
  refine ⟨?_, by simp [bodyWholeLoops_append, bodyWholeLoops_singleton, hl]⟩
  rw [anySuspend_append, anySuspend_effectStmts, ← hs]
  simp [anySuspend]

theorem alone (hs : t.hasSuspend inAsync = s.hasSuspend inAsync)
    (hl : t.wholeLoops inAsync = s.wholeLoops inAsync) :
    SameLoops inAsync (.stmt s (effectStmts [] ++ [t])) :=
  after hs hl

end Grouping.SameLoops

theorem Groups.sameLoops {n m : SlotNumber} {g : Grouping}
    (h : Groups inAsync (Hoists inAsync) n g m) : g.SameLoops inAsync := by
  induction h with
  | plain => exact ⟨by simp [anySuspend], bodyWholeLoops_singleton _⟩
  | expr hh =>
    refine ⟨?_, bodyWholeLoops_effectStmts _⟩
    rw [anySuspend_effectStmts, hh.suspends_effects]
    simp [listHasSuspend_cons, Stmt.hasSuspend]
  | declare _ ih => exact ih
  | ret hh | throw hh =>
    obtain ⟨hb, hr⟩ := hh.suspends_expr
    exact .after (by simp [Stmt.hasSuspend, hb, hr]) rfl
  | block _ ih => exact .alone ih.1 ih.2
  | ifThen hh _ ih =>
    obtain ⟨hb, hr⟩ := hh.suspends_expr
    exact .after (by simp [Stmt.hasSuspend, hb, hr, hasSuspend_ofList, ih.1])
      (by simp [Stmt.wholeLoops, ih.2])
  | ifElse hh _ _ ih ih' =>
    obtain ⟨hb, hr⟩ := hh.suspends_expr
    exact .after (by simp [Stmt.hasSuspend, hb, hr, hasSuspend_ofList, ih.1, ih'.1, Bool.or_assoc])
      (by simp [Stmt.wholeLoops, ih.2, ih'.2])
  | whileDo _ _ ht ih | doWhile _ _ ht ih =>
    simp only [Grouping.SameLoops, Option.any_some] at ht
    exact .alone (by simp [Stmt.hasSuspend, ht, hasSuspend_ofList, ih.1])
      (by simp [Stmt.wholeLoops, ih.2])
  | forLoop _ _ _ _ hi ht hu ih =>
    simp only [Grouping.SameLoops] at hi ht hu
    refine .after ?_ (by simp [Stmt.wholeLoops, ih.2])
    simp only [Stmt.hasSuspend, ht, hu, hasSuspend_ofList, ih.1, ← hi, Bool.or_assoc]
  | forIn hh _ ih =>
    obtain ⟨hb, hr⟩ := hh.suspends_expr
    exact .after (by simp [Stmt.hasSuspend, hb, hr, hasSuspend_ofList, ih.1, Bool.or_assoc])
      (by simp [Stmt.wholeLoops, ih.2])
  | @forOf _ _ _ target subject h body b isAwait hh _ ih =>
    obtain ⟨hb, hr⟩ := hh.suspends_expr
    refine .after ?_ (by simp [Stmt.wholeLoops, Stmt.runsWhole, hasSuspend_ofList, ih.1, ih.2])
    simp only [Stmt.hasSuspend, hb, hr, hasSuspend_ofList, ih.1, Bool.or_false]
    rw [← Bool.or_assoc, ← Bool.or_assoc, Bool.or_comm (subject.hasSuspend inAsync)]
  | tryOnly _ ih => exact .alone ih.1 ih.2
  | tryFinally _ _ hf hb =>
    exact .alone (by simp [Stmt.hasSuspend, hf.1, hb.1]) (by simp [Stmt.wholeLoops, hf.2, hb.2])
  | tryCatch _ _ hh hb =>
    exact .alone (by simp [Stmt.hasSuspend, hh.1, hb.1]) (by simp [Stmt.wholeLoops, hh.2, hb.2])
  | tryCatchFinally _ _ _ hh hf hb =>
    exact .alone (by simp [Stmt.hasSuspend, hh.1, hf.1, hb.1])
      (by simp [Stmt.wholeLoops, hh.2, hf.2, hb.2])
  | switch hh _ ih =>
    obtain ⟨hb, hr⟩ := hh.suspends_expr
    exact .after (by simp [Stmt.hasSuspend, hb, hr, ih.1]) ih.2
  | labeled _ ih =>
    exact ⟨by rw [anySuspend_labelLast, ih.1, Stmt.hasSuspend],
      (bodyWholeLoops_labelLast ..).trans ih.2⟩
  | nil | noCase => exact ⟨rfl, rfl⟩
  | cons _ _ hs ih =>
    exact ⟨by simp [anySuspend_append, anySuspend, hs.1, ih.1],
      by rw [bodyWholeLoops_append, bodyWholeLoops_cons, hs.2, ih.2]⟩
  | case _ _ hb ih =>
    exact ⟨by simp [casesHaveSuspend, hb.1, ih.1], by simp [caseWholeLoops, hb.2, ih.2]⟩
  | noDeclarator => exact ⟨rfl, rfl⟩
  | uninitialized _ ih =>
    exact ⟨by simp [anySuspend, Stmt.hasSuspend, ih.1],
      by simp [bodyWholeLoops, Stmt.wholeLoops, ih.2]⟩
  | initialized hh _ ih =>
    obtain ⟨hb, hr⟩ := hh.suspends_expr
    refine ⟨?_, by simp [bodyWholeLoops_append, bodyWholeLoops, Stmt.wholeLoops, ih.2]⟩
    simp [anySuspend_append, anySuspend_effectStmts, anySuspend, Stmt.hasSuspend,
      Declarator.hasSuspend, hb, hr, ih.1, Bool.or_assoc]
  | keptCondition => rfl
  | condition hh =>
    obtain ⟨hb, hr⟩ := hh.suspends_expr
    have hseq : ∀ es : List Expr, (Expr.seq es).hasSuspend inAsync = listHasSuspend inAsync es :=
      fun _ => rfl
    simp [Grouping.SameLoops, hseq, listHasSuspend_append, hb, listHasSuspend_cons, hr]
  | keptInit => simp [Grouping.SameLoops]
  | @initDeclare _ _ _ ds before _ hh =>
    obtain ⟨hl, hrest, -, hforms⟩ := hh.sound
    have hb : listHasSuspend inAsync before = listHasSuspend inAsync (initials ds) :=
      eq_of_false_iff (by rw [← listForms_eq_nil_iff, hforms, listForms_eq_nil_iff])
    rw [Grouping.SameLoops, hb]
    exact withInitials_hasSuspend hl ((listForms_eq_nil_iff inAsync _).1 hrest)
  | initExpr hh => simp [Grouping.SameLoops, hh.suspends_effects, listHasSuspend_cons, ForInit.hasSuspend]

/-- The loops that run whole are those that did before. -/
theorem lowerBody_wholeLoops {body : List Stmt} {lowered : LoweredBody}
    (h : lowerBody inAsync body = .ok lowered) :
    bodyWholeLoops inAsync lowered.body = bodyWholeLoops inAsync body := by
  obtain ⟨m, hg⟩ := lowerBody_groups h
  exact hg.sameLoops.2

end Resumable
