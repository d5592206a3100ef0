import Resumable.Plan.Fragment
import Resumable.Proofs.Lowering.Normal

/-!
The grammar of lowered bodies: what a statement is like that can stand there, the forms of its suspend
points in source order, and the jumps that it does not keep to itself. A statement that does not suspend
is lowered already. Main definitions: `Stmt.isLowered`, `Stmt.forms`, `Stmt.jumps`, `LowersTo`.
-/

set_option autoImplicit false

namespace Resumable

mutual

def Stmt.isLowered (inAsync : Bool) : Stmt → Bool
  | .empty | .brk _ | .cont _ | .function _ _ => true
  | .expr e => e.isEffect inAsync
  | .throw e => !e.hasSuspend inAsync
  | .ret e => !e.any (·.hasSuspend inAsync)
  | .declare _ ds => !ds.any (·.hasSuspend inAsync)
  | .block body => areLowered inAsync body
  | .ifElse t y none => !t.hasSuspend inAsync && y.isLowered inAsync
  | .ifElse t y (some n) => !t.hasSuspend inAsync && y.isLowered inAsync && n.isLowered inAsync
  | .whileDo t b | .doWhile b t => t.isLoweredCondition inAsync && b.isLowered inAsync
  | .forLoop i t u b =>
    !i.hasSuspend inAsync && t.all (·.isLoweredCondition inAsync) &&
      u.all (·.isLoweredCondition inAsync) && b.isLowered inAsync
  | .forIn p e b | .forOf p e b _ =>
    !p.pattern.hasSuspend inAsync && !e.hasSuspend inAsync && b.isLowered inAsync
  | .tryCatch b none none => areLowered inAsync b
  | .tryCatch b none (some f) => areLowered inAsync b && areLowered inAsync f
  | .tryCatch b (some (.mk p h)) none =>
    areLowered inAsync b && !p.any (·.hasSuspend inAsync) && areLowered inAsync h
  | .tryCatch b (some (.mk p h)) (some f) =>
    areLowered inAsync b && !p.any (·.hasSuspend inAsync) && areLowered inAsync h &&
      areLowered inAsync f
  | .switch e cases => !e.hasSuspend inAsync && casesAreLowered inAsync cases
  | .labeled _ s => s.isLowered inAsync

def areLowered (inAsync : Bool) : List Stmt → Bool
  | [] => true
  | s :: ss => s.isLowered inAsync && areLowered inAsync ss

def casesAreLowered (inAsync : Bool) : List Case → Bool
  | [] => true
  | .mk t body :: cases =>
    !t.any (·.hasSuspend inAsync) && areLowered inAsync body && casesAreLowered inAsync cases

end

def optionForms (inAsync : Bool) : Option Expr → List SuspendForm
  | some e => e.forms inAsync
  | none => []

def Declarator.forms (inAsync : Bool) : Declarator → List SuspendForm
  | .mk _ init => optionForms inAsync init

def ForInit.forms (inAsync : Bool) : ForInit → List SuspendForm
  | .absent => []
  | .declare _ ds => ds.flatMap (Declarator.forms inAsync)
  | .expr e => e.forms inAsync

mutual

/-- The forms of the suspend points of a statement, in source order. Those of patterns are left out:
no plan has any. -/
def Stmt.forms (inAsync : Bool) : Stmt → List SuspendForm
  | .empty | .brk _ | .cont _ | .function _ _ => []
  | .expr e | .throw e => e.forms inAsync
  | .ret e => optionForms inAsync e
  | .declare _ ds => ds.flatMap (Declarator.forms inAsync)
  | .block body => bodyForms inAsync body
  | .ifElse t y none => t.forms inAsync ++ y.forms inAsync
  | .ifElse t y (some n) => t.forms inAsync ++ y.forms inAsync ++ n.forms inAsync
  | .whileDo t b => t.forms inAsync ++ b.forms inAsync
  | .doWhile b t => b.forms inAsync ++ t.forms inAsync
  | .forLoop i t u b =>
    i.forms inAsync ++ optionForms inAsync t ++ optionForms inAsync u ++ b.forms inAsync
  | .forIn _ e b | .forOf _ e b _ => e.forms inAsync ++ b.forms inAsync
  | .tryCatch b none none => bodyForms inAsync b
  | .tryCatch b none (some f) => bodyForms inAsync b ++ bodyForms inAsync f
  | .tryCatch b (some (.mk _ h)) none => bodyForms inAsync b ++ bodyForms inAsync h
  | .tryCatch b (some (.mk _ h)) (some f) =>
    bodyForms inAsync b ++ bodyForms inAsync h ++ bodyForms inAsync f
  | .switch e cases => e.forms inAsync ++ caseForms inAsync cases
  | .labeled _ s => s.forms inAsync

def bodyForms (inAsync : Bool) : List Stmt → List SuspendForm
  | [] => []
  | s :: ss => s.forms inAsync ++ bodyForms inAsync ss

def caseForms (inAsync : Bool) : List Case → List SuspendForm
  | [] => []
  | .mk t body :: cases =>
    optionForms inAsync t ++ bodyForms inAsync body ++ caseForms inAsync cases

end

/-- A jump and the constructs around it, innermost first. -/
structure JumpSite where
  label : Option String
  isContinue : Bool
  around : List Breakable

/-- Whether a jump to a label, or without one, means this construct. -/
def Breakable.isMeant (label : Option String) (isContinue : Bool) (b : Breakable) : Bool :=
  match label with
  | some l => b.labels.contains l
  | none => if isContinue then b.kind = .loop else b.kind ≠ .block

namespace JumpSite

def target? (j : JumpSite) : Option Breakable :=
  j.around.find? (Breakable.isMeant j.label j.isContinue)

/-- Whether there is a construct to go to, and a loop if it is to be continued. -/
def leads (j : JumpSite) : Bool := j.target?.any fun b => !j.isContinue || b.kind = .loop

end JumpSite

def Stmt.isJump : Stmt → Bool
  | .brk _ | .cont _ => true
  | _ => false

/-- Whether the statement suspends at most in an expression that it evaluates once, before all
else: the test of an `if`, the subject of a loop or a `switch`, the initializer of a loop. -/
def Stmt.runsWhole (inAsync : Bool) : Stmt → Bool
  | .ifElse _ y none => !y.hasSuspend inAsync
  | .ifElse _ y (some n) => !y.hasSuspend inAsync && !n.hasSuspend inAsync
  | .forLoop _ t u b =>
    !t.any (·.hasSuspend inAsync) && !u.any (·.hasSuspend inAsync) && !b.hasSuspend inAsync
  | .forIn _ _ b => !b.hasSuspend inAsync
  | .forOf _ _ b isAwait => !(isAwait && inAsync) && !b.hasSuspend inAsync
  | .switch _ cases => !casesHaveSuspend inAsync cases
  | s => !s.hasSuspend inAsync

/-- The constructs around the body of a labeled statement that is no loop or `switch`. -/
def enclosed (around : List Breakable) (labels : List String) : List Breakable :=
  if labels.isEmpty then around else ⟨labels, .block⟩ :: around

mutual

/-- The jumps of a statement but for those inside a compound statement that runs whole. The labels
are those directly before the statement. -/
def Stmt.jumps (inAsync : Bool) (around : List Breakable) (labels : List String) :
    Stmt → List JumpSite
  | .brk label => [⟨label, false, around⟩]
  | .cont label => [⟨label, true, around⟩]
  | .empty | .expr _ | .throw _ | .ret _ | .declare _ _ | .function _ _ => []
  | .labeled label s => if s.isJump then [] else s.jumps inAsync around (labels ++ [label])
  | .block body =>
    if (Stmt.block body).runsWhole inAsync then []
    else bodyJumps inAsync (enclosed around labels) body
  | .ifElse t y none =>
    if (Stmt.ifElse t y none).runsWhole inAsync then []
    else y.jumps inAsync (enclosed around labels) []
  | .ifElse t y (some n) =>
    if (Stmt.ifElse t y (some n)).runsWhole inAsync then []
    else y.jumps inAsync (enclosed around labels) [] ++ n.jumps inAsync (enclosed around labels) []
  | .whileDo t b =>
    if (Stmt.whileDo t b).runsWhole inAsync then []
    else b.jumps inAsync (⟨labels, .loop⟩ :: around) []
  | .doWhile b t =>
    if (Stmt.doWhile b t).runsWhole inAsync then []
    else b.jumps inAsync (⟨labels, .loop⟩ :: around) []
  | .forLoop i t u b =>
    if (Stmt.forLoop i t u b).runsWhole inAsync then []
    else b.jumps inAsync (⟨labels, .loop⟩ :: around) []
  | .forIn p e b =>
    if (Stmt.forIn p e b).runsWhole inAsync then []
    else b.jumps inAsync (⟨labels, .loop⟩ :: around) []
  | .forOf p e b isAwait =>
    if (Stmt.forOf p e b isAwait).runsWhole inAsync then []
    else b.jumps inAsync (⟨labels, .loop⟩ :: around) []
  | .tryCatch b none none =>
    if (Stmt.tryCatch b none none).runsWhole inAsync then []
    else bodyJumps inAsync (enclosed around labels) b
  | .tryCatch b none (some f) =>
    if (Stmt.tryCatch b none (some f)).runsWhole inAsync then []
    else bodyJumps inAsync (enclosed around labels) b ++ bodyJumps inAsync (enclosed around labels) f
  | .tryCatch b (some (.mk p h)) none =>
    if (Stmt.tryCatch b (some (.mk p h)) none).runsWhole inAsync then []
    else bodyJumps inAsync (enclosed around labels) b ++ bodyJumps inAsync (enclosed around labels) h
  | .tryCatch b (some (.mk p h)) (some f) =>
    if (Stmt.tryCatch b (some (.mk p h)) (some f)).runsWhole inAsync then []
    else bodyJumps inAsync (enclosed around labels) b ++
      bodyJumps inAsync (enclosed around labels) h ++ bodyJumps inAsync (enclosed around labels) f
  | .switch e cases =>
    if (Stmt.switch e cases).runsWhole inAsync then []
    else caseJumps inAsync (⟨labels, .switch⟩ :: around) cases

def bodyJumps (inAsync : Bool) (around : List Breakable) : List Stmt → List JumpSite
  | [] => []
  | s :: ss => s.jumps inAsync around [] ++ bodyJumps inAsync around ss

def caseJumps (inAsync : Bool) (around : List Breakable) : List Case → List JumpSite
  | [] => []
  | .mk _ body :: cases => bodyJumps inAsync around body ++ caseJumps inAsync around cases

end

section Lists

variable (inAsync : Bool)

theorem anySuspend_cons (s : Stmt) (ss : List Stmt) :
    anySuspend inAsync (s :: ss) = (s.hasSuspend inAsync || anySuspend inAsync ss) := rfl

theorem areLowered_cons (s : Stmt) (ss : List Stmt) :
    areLowered inAsync (s :: ss) = (s.isLowered inAsync && areLowered inAsync ss) := rfl

theorem bodyForms_cons (s : Stmt) (ss : List Stmt) :
    bodyForms inAsync (s :: ss) = s.forms inAsync ++ bodyForms inAsync ss := rfl

theorem bodyJumps_cons (around : List Breakable) (s : Stmt) (ss : List Stmt) :
    bodyJumps inAsync around (s :: ss) =
      s.jumps inAsync around [] ++ bodyJumps inAsync around ss := rfl

theorem anySuspend_append (ss ts : List Stmt) :
    anySuspend inAsync (ss ++ ts) = (anySuspend inAsync ss || anySuspend inAsync ts) := by
  induction ss with
  | nil => rfl
  | cons s ss ih => simp [anySuspend_cons, ih, Bool.or_assoc]

theorem areLowered_append (ss ts : List Stmt) :
    areLowered inAsync (ss ++ ts) = (areLowered inAsync ss && areLowered inAsync ts) := by
  induction ss with
  | nil => rfl
  | cons s ss ih => simp [areLowered_cons, ih, Bool.and_assoc]

theorem bodyForms_append (ss ts : List Stmt) :
    bodyForms inAsync (ss ++ ts) = bodyForms inAsync ss ++ bodyForms inAsync ts := by
  induction ss with
  | nil => rfl
  | cons s ss ih => simp [bodyForms_cons, ih]

theorem bodyJumps_append (around : List Breakable) (ss ts : List Stmt) :
    bodyJumps inAsync around (ss ++ ts) =
      bodyJumps inAsync around ss ++ bodyJumps inAsync around ts := by
  induction ss with
  | nil => rfl
  | cons s ss ih => simp [bodyJumps_cons, ih]

theorem anySuspend_effectStmts (es : List Expr) :
    anySuspend inAsync (effectStmts es) = listHasSuspend inAsync es := by
  induction es with
  | nil => rfl
  | cons e es ih =>
    rw [listHasSuspend_cons, ← ih]
    rfl

theorem areLowered_effectStmts {es : List Expr} (h : AreEffects inAsync es) :
    areLowered inAsync (effectStmts es) = true := by
  induction es with
  | nil => rfl
  | cons e es ih =>
    exact Bool.and_eq_true_iff.2 ⟨h e (by simp), ih fun d hd => h d (by simp [hd])⟩

theorem bodyForms_effectStmts (es : List Expr) :
    bodyForms inAsync (effectStmts es) = listForms inAsync es := by
  induction es with
  | nil => rfl
  | cons e es ih => exact congrArg (e.forms inAsync ++ ·) ih

theorem bodyJumps_effectStmts (around : List Breakable) (es : List Expr) :
    bodyJumps inAsync around (effectStmts es) = [] := by
  induction es with
  | nil => rfl
  | cons e es ih => exact ih

theorem ofList_cases (ss : List Stmt) :
    (∃ s, ss = [s] ∧ Stmt.ofList ss = s) ∨ Stmt.ofList ss = .block ss := by
  rw [Stmt.ofList.eq_def]
  split
  · rename_i s
    exact .inl ⟨s, rfl, rfl⟩
  · exact .inr rfl

theorem hasSuspend_ofList (ss : List Stmt) :
    (Stmt.ofList ss).hasSuspend inAsync = anySuspend inAsync ss := by
  rcases ofList_cases ss with ⟨s, rfl, h⟩ | h
  · rw [h, anySuspend_cons]
    exact (Bool.or_false _).symm
  · exact congrArg (·.hasSuspend inAsync) h

theorem isLowered_ofList (ss : List Stmt) :
    (Stmt.ofList ss).isLowered inAsync = areLowered inAsync ss := by
  rcases ofList_cases ss with ⟨s, rfl, h⟩ | h
  · rw [h, areLowered_cons]
    exact (Bool.and_true _).symm
  · exact congrArg (·.isLowered inAsync) h

theorem forms_ofList (ss : List Stmt) :
    (Stmt.ofList ss).forms inAsync = bodyForms inAsync ss := by
  rcases ofList_cases ss with ⟨s, rfl, h⟩ | h
  · rw [h, bodyForms_cons]
    exact (List.append_nil _).symm
  · exact congrArg (·.forms inAsync) h

end Lists

/-- What lowering makes of a statement: the last of the statements stands for the one before, and
those before it hold no jumps. -/
structure LowersTo (inAsync : Bool) (s : Stmt) (ss : List Stmt) : Prop where
  lowered : areLowered inAsync ss = true
  forms : bodyForms inAsync ss = s.forms inAsync
  suspends : anySuspend inAsync ss = s.hasSuspend inAsync
  same : s.hasSuspend inAsync = false → ss = [s]
  last : ∃ init t, ss = init ++ [t] ∧ (∀ around, bodyJumps inAsync around init = []) ∧
    t.isJump = s.isJump ∧
    ∀ around labels, t.jumps inAsync around labels = s.jumps inAsync around labels

namespace LowersTo

variable {inAsync : Bool} {s : Stmt} {ss : List Stmt}

theorem bodyJumps_eq (h : LowersTo inAsync s ss) (around : List Breakable) :
    bodyJumps inAsync around ss = s.jumps inAsync around [] := by
  obtain ⟨init, t, rfl, hi, -, ht⟩ := h.last
  rw [bodyJumps_append, hi, List.nil_append, bodyJumps_cons, ht]
  exact List.append_nil _

/-- Several statements are put into a block only if they suspend. -/
theorem jumps_ofList (h : LowersTo inAsync s ss) (around : List Breakable) :
    (Stmt.ofList ss).jumps inAsync around [] = s.jumps inAsync around [] := by
  cases hs : s.hasSuspend inAsync with
  | false => rw [h.same hs, Stmt.ofList]
  | true =>
    rw [← h.bodyJumps_eq]
    rcases ofList_cases ss with ⟨s, rfl, h'⟩ | h'
    · rw [h', bodyJumps_cons]
      exact (List.append_nil _).symm
    · have := h.suspends
      simp [h', Stmt.jumps, Stmt.runsWhole, Stmt.hasSuspend, this, hs, enclosed]

end LowersTo

theorem sequenceIsLowered_of_plain (inAsync : Bool) (es : List Expr)
    (h : listHasSuspend inAsync es = false) : sequenceIsLowered inAsync es = true := by
  induction es with
  | nil => rfl
  | cons e es ih =>
    rw [listHasSuspend_cons, Bool.or_eq_false_iff] at h
    cases es with
    | nil => simp [sequenceIsLowered, h.1]
    | cons d es => simp [sequenceIsLowered, h.1, ih h.2]

theorem isLoweredCondition_of_plain (inAsync : Bool) (e : Expr) (h : e.hasSuspend inAsync = false) :
    e.isLoweredCondition inAsync = true := by
  rw [Expr.isLoweredCondition.eq_def]
  split
  · exact sequenceIsLowered_of_plain inAsync _ h
  · simp [h]

theorem isLoweredConditions_of_plain (inAsync : Bool) (e : Option Expr)
    (h : e.any (·.hasSuspend inAsync) = false) : e.all (·.isLoweredCondition inAsync) = true := by
  cases e with
  | none => rfl
  | some e => exact isLoweredCondition_of_plain inAsync e h

mutual

theorem isLowered_of_plain (inAsync : Bool) : (s : Stmt) → s.hasSuspend inAsync = false →
    s.isLowered inAsync = true
  | .empty, _ | .brk _, _ | .cont _, _ | .function _ _, _ => rfl
  | .expr e, h => by simp [Stmt.isLowered, Expr.isEffect, show e.hasSuspend inAsync = false from h]
  | .throw e, h | .ret e, h | .declare _ e, h => by
    simpa [Stmt.isLowered, Stmt.hasSuspend] using h
  | .block b, h => areLowered_of_plain inAsync b h
  | .ifElse t y none, h => by
    simp only [Stmt.hasSuspend, Bool.or_eq_false_iff] at h
    simp [Stmt.isLowered, h, isLowered_of_plain inAsync y h.2]
  | .ifElse t y (some n), h => by
    simp only [Stmt.hasSuspend, Bool.or_eq_false_iff] at h
    simp [Stmt.isLowered, h, isLowered_of_plain inAsync y h.1.2, isLowered_of_plain inAsync n h.2]
  | .whileDo t b, h | .doWhile b t, h => by
    simp only [Stmt.hasSuspend, Bool.or_eq_false_iff] at h
    simp [Stmt.isLowered, isLoweredCondition_of_plain inAsync t h.1,
      isLowered_of_plain inAsync b h.2]
  | .forLoop i t u b, h => by
    simp only [Stmt.hasSuspend, Bool.or_eq_false_iff] at h
    simp only [Stmt.isLowered, h.1.1.1, isLoweredConditions_of_plain inAsync t h.1.1.2,
      isLoweredConditions_of_plain inAsync u h.1.2, isLowered_of_plain inAsync b h.2]
    rfl
  | .forIn p e b, h => by
    simp only [Stmt.hasSuspend, Bool.or_eq_false_iff] at h
    simp [Stmt.isLowered, h, isLowered_of_plain inAsync b h.1.2]
  | .forOf p e b a, h => by
    simp only [Stmt.hasSuspend, Bool.or_eq_false_iff] at h
    simp [Stmt.isLowered, h, isLowered_of_plain inAsync b h.1.2]
  | .tryCatch b none none, h => areLowered_of_plain inAsync b h
  | .tryCatch b none (some f), h => by
    simp only [Stmt.hasSuspend, Bool.or_eq_false_iff] at h
    simp [Stmt.isLowered, areLowered_of_plain inAsync b h.1, areLowered_of_plain inAsync f h.2]
  | .tryCatch b (some (.mk p c)) none, h => by
    simp only [Stmt.hasSuspend, Bool.or_eq_false_iff] at h
    simp only [Stmt.isLowered, h.2, areLowered_of_plain inAsync b h.1.1,
      areLowered_of_plain inAsync c h.1.2]
    rfl
  | .tryCatch b (some (.mk p c)) (some f), h => by
    simp only [Stmt.hasSuspend, Bool.or_eq_false_iff] at h
    simp only [Stmt.isLowered, h.1.2, areLowered_of_plain inAsync b h.1.1.1,
      areLowered_of_plain inAsync c h.1.1.2, areLowered_of_plain inAsync f h.2]
    rfl
  | .switch e cases, h => by
    simp only [Stmt.hasSuspend, Bool.or_eq_false_iff] at h
    simp [Stmt.isLowered, h, casesAreLowered_of_plain inAsync cases h.2]
  | .labeled _ s, h => isLowered_of_plain inAsync s h

theorem areLowered_of_plain (inAsync : Bool) : (ss : List Stmt) → anySuspend inAsync ss = false →
    areLowered inAsync ss = true
  | [], _ => rfl
  | s :: ss, h => by
    simp only [anySuspend, Bool.or_eq_false_iff] at h
    simp [areLowered, isLowered_of_plain inAsync s h.1, areLowered_of_plain inAsync ss h.2]

theorem casesAreLowered_of_plain (inAsync : Bool) : (cases : List Case) →
    casesHaveSuspend inAsync cases = false → casesAreLowered inAsync cases = true
  | [], _ => rfl
  | .mk t body :: cases, h => by
    simp only [casesHaveSuspend, Bool.or_eq_false_iff] at h
    simp only [casesAreLowered, h.1.1, areLowered_of_plain inAsync body h.1.2,
      casesAreLowered_of_plain inAsync cases h.2]
    rfl

end

theorem run_checkYields_ok (e : Expr) (u : Unit) (n m : SlotNumber) :
    e.checkYields.run n = .ok (u, m) ↔ e.yields.length ≤ 1 ∧ n = m := by
  rw [Expr.checkYields]
  by_cases h : 1 < e.yields.length
  · rw [if_pos h]
    have : ¬ e.yields.length ≤ 1 := by omega
    split <;> simp [run_refuse_ok, this]
  · rw [if_neg h]
    have : e.yields.length ≤ 1 := by omega
    rw [run_pure_ok]
    simp [this]

theorem eq_of_false_iff {a b : Bool} (h : a = false ↔ b = false) : a = b := by
  cases a <;> cases b <;> simp_all

end Resumable
