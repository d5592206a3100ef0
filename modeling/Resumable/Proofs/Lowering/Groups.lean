import Resumable.Proofs.Lowering.Lowered

/-!
Lowering of statements as a relation, with what becomes of each controlling expression left open. Each
of these, and each declaration, gives one group: the statements, or the sequence in the head of a loop,
that take its place. What is true of all hoisting is then true of every group of a lowered body. Main
statement: `lowerStmts_groups`.
-/

set_option autoImplicit false

namespace Resumable

def initials : List Declarator → List Expr
  | [] => []
  | .mk _ none :: ds => initials ds
  | .mk _ (some e) :: ds => e :: initials ds

def withInitials : List Declarator → List Expr → List Declarator
  | [], _ => []
  | .mk p none :: ds, es => .mk p none :: withInitials ds es
  | .mk p (some _) :: ds, e :: es => .mk p (some e) :: withInitials ds es
  | .mk _ (some _) :: _, [] => []

/-- What is lowered, with what it is lowered to. -/
inductive Grouping where
  | stmt (s : Stmt) (ss : List Stmt)
  | body (body ss : List Stmt)
  | cases (cases cs : List Case)
  | declarators (kind : VarKind) (ds : List Declarator) (ss : List Stmt)
  | condition (e d : Option Expr)
  | init (i : ForInit) (before : List Expr) (j : ForInit)

/-- Lowering draws the slots up to the second number, and `P` holds of all that it hoists. -/
inductive Groups (inAsync : Bool) (P : SlotNumber → Hoisting → SlotNumber → Prop) :
    SlotNumber → Grouping → SlotNumber → Prop where
  | plain {n : SlotNumber} {s : Stmt} : s.hasSuspend inAsync = false →
    Groups inAsync P n (.stmt s [s]) n
  | expr {n m : SlotNumber} {e : Expr} {es : List Expr} : P n (.effects [e] es) m →
    Groups inAsync P n (.stmt (.expr e) (effectStmts es)) m
  | declare {n m : SlotNumber} {kind : VarKind} {ds : List Declarator} {ss : List Stmt} :
    Groups inAsync P n (.declarators kind ds ss) m → Groups inAsync P n (.stmt (.declare kind ds) ss) m
  | ret {n m : SlotNumber} {e : Expr} {h : Hoisted} : P n (.expr e h) m →
    Groups inAsync P n (.stmt (.ret (some e)) (effectStmts h.before ++ [.ret (some h.rest)])) m
  | throw {n m : SlotNumber} {e : Expr} {h : Hoisted} : P n (.expr e h) m →
    Groups inAsync P n (.stmt (.throw e) (effectStmts h.before ++ [.throw h.rest])) m
  | block {n m : SlotNumber} {body ss : List Stmt} : Groups inAsync P n (.body body ss) m →
    Groups inAsync P n (.stmt (.block body) [.block ss]) m
  | ifThen {n k m : SlotNumber} {test : Expr} {h : Hoisted} {yes : Stmt} {y : List Stmt} :
    P n (.expr test h) k → Groups inAsync P k (.stmt yes y) m →
    Groups inAsync P n (.stmt (.ifElse test yes none)
      (effectStmts h.before ++ [.ifElse h.rest (.ofList y) none])) m
  | ifElse {n k k' m : SlotNumber} {test : Expr} {h : Hoisted} {yes no : Stmt} {y o : List Stmt} :
    P n (.expr test h) k → Groups inAsync P k (.stmt yes y) k' → Groups inAsync P k' (.stmt no o) m →
    Groups inAsync P n (.stmt (.ifElse test yes (some no))
      (effectStmts h.before ++ [.ifElse h.rest (.ofList y) (some (.ofList o))])) m
  | whileDo {n k m : SlotNumber} {test t : Expr} {body : Stmt} {b : List Stmt} :
    Groups inAsync P n (.condition (some test) (some t)) k → Groups inAsync P k (.stmt body b) m →
    Groups inAsync P n (.stmt (.whileDo test body) [.whileDo t (.ofList b)]) m
  | doWhile {n k m : SlotNumber} {test t : Expr} {body : Stmt} {b : List Stmt} :
    Groups inAsync P n (.condition (some test) (some t)) k → Groups inAsync P k (.stmt body b) m →
    Groups inAsync P n (.stmt (.doWhile body test) [.doWhile (.ofList b) t]) m
  | forLoop {n k k' l m : SlotNumber} {i j : ForInit} {before : List Expr}
    {test t update u : Option Expr} {body : Stmt} {b : List Stmt} :
    Groups inAsync P n (.init i before j) k → Groups inAsync P k (.condition test t) k' →
    Groups inAsync P k' (.condition update u) l → Groups inAsync P l (.stmt body b) m →
    Groups inAsync P n (.stmt (.forLoop i test update body)
      (effectStmts before ++ [.forLoop j t u (.ofList b)])) m
  | forIn {n k m : SlotNumber} {target : ForTarget} {subject : Expr} {h : Hoisted} {body : Stmt}
    {b : List Stmt} : P n (.expr subject h) k → Groups inAsync P k (.stmt body b) m →
    Groups inAsync P n (.stmt (.forIn target subject body)
      (effectStmts h.before ++ [.forIn target h.rest (.ofList b)])) m
  | forOf {n k m : SlotNumber} {target : ForTarget} {subject : Expr} {h : Hoisted} {body : Stmt}
    {b : List Stmt} {isAwait : Bool} :
    P n (.expr subject h) k → Groups inAsync P k (.stmt body b) m →
    Groups inAsync P n (.stmt (.forOf target subject body isAwait)
      (effectStmts h.before ++ [.forOf target h.rest (.ofList b) isAwait])) m
  | tryOnly {n m : SlotNumber} {block b : List Stmt} : Groups inAsync P n (.body block b) m →
    Groups inAsync P n (.stmt (.tryCatch block none none) [.tryCatch b none none]) m
  | tryFinally {n k m : SlotNumber} {block b finalizer f : List Stmt} :
    Groups inAsync P n (.body finalizer f) k → Groups inAsync P k (.body block b) m →
    Groups inAsync P n (.stmt (.tryCatch block none (some finalizer))
      [.tryCatch b none (some f)]) m
  | tryCatch {n k m : SlotNumber} {block b handler h : List Stmt} {param : Option Pattern} :
    Groups inAsync P n (.body handler h) k → Groups inAsync P k (.body block b) m →
    Groups inAsync P n (.stmt (.tryCatch block (some (.mk param handler)) none)
      [.tryCatch b (some (.mk param h)) none]) m
  | tryCatchFinally {n k k' m : SlotNumber} {block b handler h finalizer f : List Stmt}
    {param : Option Pattern} :
    Groups inAsync P n (.body handler h) k → Groups inAsync P k (.body finalizer f) k' →
    Groups inAsync P k' (.body block b) m →
    Groups inAsync P n (.stmt (.tryCatch block (some (.mk param handler)) (some finalizer))
      [.tryCatch b (some (.mk param h)) (some f)]) m
  | switch {n k m : SlotNumber} {subject : Expr} {h : Hoisted} {cases cs : List Case} :
    P n (.expr subject h) k → Groups inAsync P k (.cases cases cs) m →
    Groups inAsync P n (.stmt (.switch subject cases)
      (effectStmts h.before ++ [.switch h.rest cs])) m
  | labeled {n m : SlotNumber} {label : String} {s : Stmt} {ss : List Stmt} :
    Groups inAsync P n (.stmt s ss) m →
    Groups inAsync P n (.stmt (.labeled label s) (labelLast label ss)) m
  | nil {n : SlotNumber} : Groups inAsync P n (.body [] []) n
  | cons {n k m : SlotNumber} {s : Stmt} {ss first rest : List Stmt} :
    Groups inAsync P n (.stmt s first) k → Groups inAsync P k (.body ss rest) m →
    Groups inAsync P n (.body (s :: ss) (first ++ rest)) m
  | noCase {n : SlotNumber} : Groups inAsync P n (.cases [] []) n
  | case {n k m : SlotNumber} {test : Option Expr} {body b : List Stmt} {cases cs : List Case} :
    Groups inAsync P n (.body body b) k → Groups inAsync P k (.cases cases cs) m →
    Groups inAsync P n (.cases (.mk test body :: cases) (.mk test b :: cs)) m
  | noDeclarator {n : SlotNumber} {kind : VarKind} : Groups inAsync P n (.declarators kind [] []) n
  | uninitialized {n m : SlotNumber} {kind : VarKind} {p : Pattern} {ds : List Declarator}
    {ss : List Stmt} : Groups inAsync P n (.declarators kind ds ss) m →
    Groups inAsync P n (.declarators kind (.mk p none :: ds) (.declare kind [.mk p none] :: ss)) m
  | initialized {n k m : SlotNumber} {kind : VarKind} {p : Pattern} {e : Expr} {h : Hoisted}
    {ds : List Declarator} {ss : List Stmt} :
    P n (.expr e h) k → Groups inAsync P k (.declarators kind ds ss) m →
    Groups inAsync P n (.declarators kind (.mk p (some e) :: ds)
      (effectStmts h.before ++ [.declare kind [.mk p (some h.rest)]] ++ ss)) m
  | keptCondition {n : SlotNumber} {e : Option Expr} : Groups inAsync P n (.condition e e) n
  | condition {n m : SlotNumber} {e : Expr} {h : Hoisted} : P n (.expr e h) m →
    Groups inAsync P n (.condition (some e) (some (.seq (h.before ++ [h.rest])))) m
  | keptInit {n : SlotNumber} {i : ForInit} : Groups inAsync P n (.init i [] i) n
  | initDeclare {n m : SlotNumber} {kind : VarKind} {ds : List Declarator} {before rest : List Expr} :
    P n (.operands (initials ds) before rest) m →
    Groups inAsync P n (.init (.declare kind ds) before (.declare kind (withInitials ds rest))) m
  | initExpr {n m : SlotNumber} {e : Expr} {es : List Expr} : P n (.effects [e] es) m →
    Groups inAsync P n (.init (.expr e) es .absent) m

theorem lowerValue_hoists {inAsync : Bool} {e : Expr} {h : Hoisted} {n m : SlotNumber}
    (hr : (e.lowerValue inAsync).run n = .ok (h, m)) : Hoists inAsync n (.expr e h) m := by
  simp only [Expr.lowerValue, run_bind_ok, run_checkYields_ok] at hr
  obtain ⟨-, k, ⟨-, rfl⟩, hr⟩ := hr
  exact e.hoists inAsync n m h hr

theorem any_initHasSuspend (inAsync : Bool) (ds : List Declarator) :
    ds.any (·.initHasSuspend inAsync) = listHasSuspend inAsync (initials ds) := by
  induction ds with
  | nil => rfl
  | cons d ds ih =>
    obtain ⟨p, init⟩ := d
    cases init with
    | none => exact ih
    | some e =>
      rw [List.any_cons, ih, initials, listHasSuspend_cons]
      rfl

/-- The initializers in a loop head are the operands of the loop. -/
theorem lowerHead_hoists {inAsync : Bool} {ds es : List Declarator} {before : List Expr}
    {n m : SlotNumber} (hr : (lowerHead inAsync ds).run n = .ok ((before, es), m)) :
    ∃ rest, Hoists inAsync n (.operands (initials ds) before rest) m ∧ es = withInitials ds rest := by
  induction ds generalizing before es n m with
  | nil =>
    simp only [lowerHead, run_pure_ok, Prod.mk.injEq] at hr
    obtain ⟨⟨rfl, rfl⟩, rfl⟩ := hr
    exact ⟨[], .noOperand, rfl⟩
  | cons d ds ih =>
    obtain ⟨p, init⟩ := d
    rw [lowerHead, run_guard_ok] at hr
    cases init with
    | none =>
      simp only [run_bind_ok, run_pure_ok, Prod.mk.injEq] at hr
      obtain ⟨-, q, k, ⟨rfl, rfl⟩, ⟨b, es⟩, l, hrest, ⟨rfl, rfl⟩, rfl⟩ := hr
      obtain ⟨rest, hh, hes⟩ := ih hrest
      exact ⟨rest, hh, congrArg _ hes⟩
    | some e =>
      obtain ⟨-, hr⟩ := hr
      dsimp only at hr
      rw [any_initHasSuspend] at hr
      have step {h s : Hoisted} {b : List Expr} {es : List Declarator} {k k' l : SlotNumber}
          (hh : Hoists inAsync n (.expr e h) k)
          (hs : (h.settle (listHasSuspend inAsync (initials ds))).run k = .ok (s, k'))
          (hrest : (lowerHead inAsync ds).run k' = .ok ((b, es), l)) :
          ∃ rest,
            Hoists inAsync n (.operands (initials (.mk p (some e) :: ds)) (s.before ++ b) rest) l ∧
            .mk p (some s.rest) :: es = withInitials (.mk p (some e) :: ds) rest := by
        obtain ⟨rest, hrest, hes⟩ := ih hrest
        exact ⟨s.rest :: rest, .operand hh hs hrest, congrArg _ hes⟩
      split at hr
      · rename_i hlater
        simp only [run_bind_ok, run_pure_ok, Prod.mk.injEq] at hr
        obtain ⟨h, k, hh, s, k', hs, q, i, ⟨rfl, rfl⟩, ⟨b, es⟩, l, hrest, ⟨rfl, rfl⟩, rfl⟩ := hr
        exact step (e.hoists inAsync n k h hh) (hlater ▸ hs) hrest
      · rename_i hlater
        have hsettle (h : Hoisted) (k : SlotNumber) :
            (h.settle (listHasSuspend inAsync (initials ds))).run k = .ok (h, k) := by
          rw [Bool.not_eq_true] at hlater
          rw [hlater]
          rfl
        split at hr
        · simp only [run_bind_ok, run_pure_ok, Prod.mk.injEq] at hr
          obtain ⟨h, k, hh, q, i, ⟨rfl, rfl⟩, ⟨b, es⟩, l, hrest, ⟨rfl, rfl⟩, rfl⟩ := hr
          exact step (lowerValue_hoists hh) (hsettle h k) hrest
        · rename_i he
          simp only [run_bind_ok, run_pure_ok, Prod.mk.injEq] at hr
          obtain ⟨q, i, ⟨rfl, rfl⟩, ⟨b, es⟩, l, hrest, ⟨rfl, rfl⟩, rfl⟩ := hr
          exact step (.plain (by simpa using he)) (hsettle ⟨[], e⟩ n) hrest

namespace Groups

variable {inAsync : Bool} {n m : SlotNumber} {s : Stmt} {ss : List Stmt}

theorem ofRun (hr : (s.lower inAsync).run n = .ok (ss, m))
    (h : s.hasSuspend inAsync = true → Groups inAsync (Hoists inAsync) n (.stmt s ss) m) :
    Groups inAsync (Hoists inAsync) n (.stmt s ss) m := by
  cases hs : s.hasSuspend inAsync with
  | false =>
    rw [Stmt.lower.eq_def] at hr
    simp only [hs, Bool.not_false, ↓reduceIte, run_pure_ok] at hr
    obtain ⟨rfl, rfl⟩ := hr
    exact .plain hs
  | true => exact h hs

theorem ofDeclarators {kind : VarKind} {ds : List Declarator}
    (hr : (lowerDeclarators inAsync kind ds).run n = .ok (ss, m)) :
    Groups inAsync (Hoists inAsync) n (.declarators kind ds ss) m := by
  induction ds generalizing ss n m with
  | nil =>
    obtain ⟨rfl, rfl⟩ := (run_pure_ok ..).1 hr
    exact .noDeclarator
  | cons d ds ih =>
    obtain ⟨p, init⟩ := d
    rw [lowerDeclarators, run_guard_ok] at hr
    obtain ⟨-, hr⟩ := hr
    cases init with
    | none =>
      simp only [run_bind_ok, run_pure_ok] at hr
      obtain ⟨first, k, ⟨rfl, rfl⟩, rest, k', hrest, rfl, rfl⟩ := hr
      exact .uninitialized (ih hrest)
    | some e =>
      dsimp only at hr
      split at hr
      · simp only [run_bind_ok, run_pure_ok] at hr
        obtain ⟨h, k, hh, first, i, ⟨rfl, rfl⟩, rest, k', hrest, rfl, rfl⟩ := hr
        exact .initialized (lowerValue_hoists hh) (ih hrest)
      · rename_i he
        simp only [run_bind_ok, run_pure_ok] at hr
        obtain ⟨first, k, ⟨rfl, rfl⟩, rest, k', hrest, rfl, rfl⟩ := hr
        exact .initialized (.plain (by simpa using he)) (ih hrest)

theorem ofCondition {e d : Expr} (hr : (e.lowerCondition inAsync).run n = .ok (d, m)) :
    Groups inAsync (Hoists inAsync) n (.condition (some e) (some d)) m := by
  rw [Expr.lowerCondition] at hr
  split at hr
  · obtain ⟨rfl, rfl⟩ := (run_pure_ok ..).1 hr
    exact .keptCondition
  · simp only [run_bind_ok, run_checkYields_ok] at hr
    obtain ⟨-, k, ⟨-, rfl⟩, hr⟩ := hr
    split at hr
    · obtain ⟨rfl, rfl⟩ := (run_pure_ok ..).1 hr
      exact .keptCondition
    · simp only [run_bind_ok, run_pure_ok] at hr
      obtain ⟨h, k, hh, rfl, rfl⟩ := hr
      exact .condition (e.hoists inAsync n k h hh)

theorem ofConditions {e d : Option Expr} (hr : (lowerConditions inAsync e).run n = .ok (d, m)) :
    Groups inAsync (Hoists inAsync) n (.condition e d) m := by
  cases e with
  | none =>
    obtain ⟨rfl, rfl⟩ := (run_pure_ok ..).1 hr
    exact .keptCondition
  | some e =>
    rw [lowerConditions, run_map_ok] at hr
    obtain ⟨d, hr, rfl⟩ := hr
    exact ofCondition hr

theorem ofInit {i j : ForInit} {before : List Expr}
    (hr : (i.lower inAsync).run n = .ok ((before, j), m)) :
    Groups inAsync (Hoists inAsync) n (.init i before j) m := by
  cases i with
  | absent =>
    simp only [ForInit.lower, run_pure_ok, Prod.mk.injEq] at hr
    obtain ⟨⟨rfl, rfl⟩, rfl⟩ := hr
    exact .keptInit
  | declare kind ds =>
    simp only [ForInit.lower, run_bind_ok, run_pure_ok, Prod.mk.injEq] at hr
    obtain ⟨⟨b, es⟩, k, hh, ⟨rfl, rfl⟩, rfl⟩ := hr
    obtain ⟨rest, hb, rfl⟩ := lowerHead_hoists hh
    exact .initDeclare hb
  | expr e =>
    rw [ForInit.lower] at hr
    split at hr
    · simp only [run_pure_ok, Prod.mk.injEq] at hr
      obtain ⟨⟨rfl, rfl⟩, rfl⟩ := hr
      exact .keptInit
    · simp only [run_bind_ok, run_checkYields_ok, run_pure_ok, Prod.mk.injEq] at hr
      obtain ⟨-, k, ⟨-, rfl⟩, b, k', hb, ⟨rfl, rfl⟩, rfl⟩ := hr
      exact .initExpr (hoists_effects inAsync [e] n k' b hb)

end Groups

mutual

theorem Stmt.lower_groups (inAsync : Bool) : (s : Stmt) → (ss : List Stmt) → (n m : SlotNumber) →
    (s.lower inAsync).run n = .ok (ss, m) → Groups inAsync (Hoists inAsync) n (.stmt s ss) m
  | .empty, ss, n, m, hr | .brk _, ss, n, m, hr | .cont _, ss, n, m, hr
  | .function _ _, ss, n, m, hr | .ret none, ss, n, m, hr => .ofRun hr fun hs => by
    simp [Stmt.hasSuspend] at hs
  | .expr e, ss, n, m, hr => .ofRun hr fun hs => by
    rw [Stmt.lower] at hr
    simp only [run_unless_ok hs, run_bind_ok, run_checkYields_ok, run_pure_ok] at hr
    obtain ⟨-, k, ⟨-, rfl⟩, es, k', he, rfl, rfl⟩ := hr
    exact .expr (hoists_effects inAsync [e] n k' es he)
  | .declare kind ds, ss, n, m, hr => .ofRun hr fun hs => by
    rw [Stmt.lower, run_unless_ok hs] at hr
    exact .declare (.ofDeclarators hr)
  | .ret (some e), ss, n, m, hr => .ofRun hr fun hs => by
    rw [Stmt.lower] at hr
    simp only [run_unless_ok hs, run_bind_ok, run_pure_ok] at hr
    obtain ⟨h, k, hh, rfl, rfl⟩ := hr
    exact .ret (lowerValue_hoists hh)
  | .throw e, ss, n, m, hr => .ofRun hr fun hs => by
    rw [Stmt.lower] at hr
    simp only [run_unless_ok hs, run_bind_ok, run_pure_ok] at hr
    obtain ⟨h, k, hh, rfl, rfl⟩ := hr
    exact .throw (lowerValue_hoists hh)
  | .block body, ss, n, m, hr => .ofRun hr fun hs => by
    rw [Stmt.lower] at hr
    simp only [run_unless_ok hs, run_bind_ok, run_pure_ok] at hr
    obtain ⟨b, k, hb, rfl, rfl⟩ := hr
    exact .block (lowerStmts_groups inAsync body b n k hb)
  | .ifElse test yes none, ss, n, m, hr => .ofRun hr fun hs => by
    rw [Stmt.lower] at hr
    simp only [run_unless_ok hs, run_bind_ok, run_pure_ok] at hr
    obtain ⟨h, k, hh, y, k₁, hy, rfl, rfl⟩ := hr
    exact .ifThen (lowerValue_hoists hh) (Stmt.lower_groups inAsync yes y k k₁ hy)
  | .ifElse test yes (some no), ss, n, m, hr => .ofRun hr fun hs => by
    rw [Stmt.lower] at hr
    simp only [run_unless_ok hs, run_bind_ok, run_pure_ok] at hr
    obtain ⟨h, k, hh, y, k₁, hy, o, k₂, ho, rfl, rfl⟩ := hr
    exact .ifElse (lowerValue_hoists hh) (Stmt.lower_groups inAsync yes y k k₁ hy)
      (Stmt.lower_groups inAsync no o k₁ k₂ ho)
  | .whileDo test body, ss, n, m, hr => .ofRun hr fun hs => by
    rw [Stmt.lower] at hr
    simp only [run_unless_ok hs, run_bind_ok, run_pure_ok] at hr
    obtain ⟨t, k, ht, b, k₁, hb, rfl, rfl⟩ := hr
    exact .whileDo (.ofCondition ht) (Stmt.lower_groups inAsync body b k k₁ hb)
  | .doWhile body test, ss, n, m, hr => .ofRun hr fun hs => by
    rw [Stmt.lower] at hr
    simp only [run_unless_ok hs, run_bind_ok, run_pure_ok] at hr
    obtain ⟨t, k, ht, b, k₁, hb, rfl, rfl⟩ := hr
    exact .doWhile (.ofCondition ht) (Stmt.lower_groups inAsync body b k k₁ hb)
  | .forLoop init test update body, ss, n, m, hr => .ofRun hr fun hs => by
    rw [Stmt.lower] at hr
    simp only [run_unless_ok hs, run_bind_ok, run_pure_ok] at hr
    obtain ⟨⟨before, i⟩, k, hi, t, k₁, ht, u, k₂, hu, b, k₃, hb, rfl, rfl⟩ := hr
    exact .forLoop (.ofInit hi) (.ofConditions ht) (.ofConditions hu)
      (Stmt.lower_groups inAsync body b k₂ k₃ hb)
  | .forIn target subject body, ss, n, m, hr => .ofRun hr fun hs => by
    rw [Stmt.lower] at hr
    simp only [run_unless_ok hs, run_bind_ok, run_check_ok, run_pure_ok] at hr
    obtain ⟨-, i, ⟨-, rfl⟩, h, k, hh, b, k₁, hb, rfl, rfl⟩ := hr
    exact .forIn (lowerValue_hoists hh) (Stmt.lower_groups inAsync body b k k₁ hb)
  | .forOf target subject body isAwait, ss, n, m, hr => .ofRun hr fun hs => by
    rw [Stmt.lower] at hr
    simp only [run_unless_ok hs, run_bind_ok, run_check_ok, run_pure_ok] at hr
    obtain ⟨-, i, ⟨-, rfl⟩, h, k, hh, b, k₁, hb, rfl, rfl⟩ := hr
    exact .forOf (lowerValue_hoists hh) (Stmt.lower_groups inAsync body b k k₁ hb)
  | .tryCatch block none none, ss, n, m, hr => .ofRun hr fun hs => by
    rw [Stmt.lower] at hr
    simp only [run_unless_ok hs, run_bind_ok, run_pure_ok] at hr
    obtain ⟨b, k, hb, rfl, rfl⟩ := hr
    exact .tryOnly (lowerStmts_groups inAsync block b n k hb)
  | .tryCatch block none (some finalizer), ss, n, m, hr => .ofRun hr fun hs => by
    rw [Stmt.lower] at hr
    simp only [run_unless_ok hs, run_bind_ok, run_pure_ok] at hr
    obtain ⟨f, k, hf, b, k₁, hb, rfl, rfl⟩ := hr
    exact .tryFinally (lowerStmts_groups inAsync finalizer f n k hf)
      (lowerStmts_groups inAsync block b k k₁ hb)
  | .tryCatch block (some (.mk param handler)) none, ss, n, m, hr => .ofRun hr fun hs => by
    rw [Stmt.lower] at hr
    simp only [run_unless_ok hs, run_guard_ok, run_bind_ok, run_pure_ok] at hr
    obtain ⟨-, h, k, hh, b, k₁, hb, rfl, rfl⟩ := hr
    exact .tryCatch (lowerStmts_groups inAsync handler h n k hh)
      (lowerStmts_groups inAsync block b k k₁ hb)
  | .tryCatch block (some (.mk param handler)) (some finalizer), ss, n, m, hr =>
    .ofRun hr fun hs => by
    rw [Stmt.lower] at hr
    simp only [run_unless_ok hs, run_guard_ok, run_bind_ok, run_pure_ok] at hr
    obtain ⟨-, h, k, hh, f, k₁, hf, b, k₂, hb, rfl, rfl⟩ := hr
    exact .tryCatchFinally (lowerStmts_groups inAsync handler h n k hh)
      (lowerStmts_groups inAsync finalizer f k k₁ hf) (lowerStmts_groups inAsync block b k₁ k₂ hb)
  | .switch subject cases, ss, n, m, hr => .ofRun hr fun hs => by
    rw [Stmt.lower] at hr
    simp only [run_unless_ok hs, run_bind_ok, run_pure_ok] at hr
    obtain ⟨h, k, hh, cs, k₁, hc, rfl, rfl⟩ := hr
    exact .switch (lowerValue_hoists hh) (lowerCases_groups inAsync cases cs k k₁ hc)
  | .labeled label body, ss, n, m, hr => .ofRun hr fun hs => by
    rw [Stmt.lower] at hr
    simp only [run_unless_ok hs, run_bind_ok, run_pure_ok] at hr
    obtain ⟨b, k, hb, rfl, rfl⟩ := hr
    exact .labeled (Stmt.lower_groups inAsync body b n k hb)

/-- What lowering makes of a body falls into groups, one for each expression that controls it. -/
theorem lowerStmts_groups (inAsync : Bool) : (body ss : List Stmt) → (n m : SlotNumber) →
    (lowerStmts inAsync body).run n = .ok (ss, m) →
    Groups inAsync (Hoists inAsync) n (.body body ss) m
  | [], ss, n, m, hr => by
    obtain ⟨rfl, rfl⟩ := (run_pure_ok ..).1 hr
    exact .nil
  | s :: body, ss, n, m, hr => by
    simp only [lowerStmts, run_bind_ok, run_pure_ok] at hr
    obtain ⟨first, k, hf, rest, k₁, hrest, rfl, rfl⟩ := hr
    exact .cons (Stmt.lower_groups inAsync s first n k hf)
      (lowerStmts_groups inAsync body rest k k₁ hrest)

theorem lowerCases_groups (inAsync : Bool) : (cases cs : List Case) → (n m : SlotNumber) →
    (lowerCases inAsync cases).run n = .ok (cs, m) →
    Groups inAsync (Hoists inAsync) n (.cases cases cs) m
  | [], cs, n, m, hr => by
    obtain ⟨rfl, rfl⟩ := (run_pure_ok ..).1 hr
    exact .noCase
  | .mk test body :: cases, cs, n, m, hr => by
    simp only [lowerCases, run_guard_ok, run_bind_ok, run_pure_ok] at hr
    obtain ⟨-, b, k, hb, rest, k₁, hrest, rfl, rfl⟩ := hr
    exact .case (lowerStmts_groups inAsync body b n k hb)
      (lowerCases_groups inAsync cases rest k k₁ hrest)

end

end Resumable
