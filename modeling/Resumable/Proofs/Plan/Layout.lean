import Resumable.Plan.Builder
import Resumable.Proofs.Lowering.Hoisting

/-!
Where the code of a statement lies. `Laid` says what the builder makes of each statement, with the
monad taken away and with one rule for statements that are built alike. Main statement:
`Stmt.laid`: whatever the builder gives is laid out so.
-/

set_option autoImplicit false

namespace Resumable

/-- The instruction of a suspend expression, which goes on at a store. -/
def Expr.suspendInstr? (store : Nat) : Expr → Option Instr
  | .yield operand => some (.yield operand store)
  | .yieldStar (some e) => some (.yieldStar e store)
  | .await e => some (.await e store)
  | _ => none

/-- The slot that takes the value of an effect, and the expression that gives it. -/
def Expr.effectParts : Expr → Option String × Expr
  | .assign .set (.ident name) value => (some name, value)
  | e => (none, e)

section Pieces

variable (inAsync : Bool)

/-- Expressions evaluated for their effects, the last one laid out first. -/
inductive EffectsLaid : Nat → Nat → List Expr → Fragment → Prop where
  | nil {base next : Nat} : EffectsLaid base next [] (.skip next)
  | plain {base next : Nat} {e : Expr} {es : List Expr} {rest : Fragment} :
    EffectsLaid base next es rest → e.hasSuspend inAsync = false →
    EffectsLaid base next (e :: es)
      ⟨rest.code ++ [.evaluate (.expr e) rest.entry], base + rest.size⟩
  | suspend {base next : Nat} {e d : Expr} {slot : Option String} {es : List Expr}
    {rest : Fragment} {i : Instr} :
    EffectsLaid base next es rest → e.hasSuspend inAsync = true → e.effectParts = (slot, d) →
    d.isSimpleSuspend inAsync = true → d.suspendInstr? (base + rest.size) = some i →
    EffectsLaid base next (e :: es)
      ⟨rest.code ++ [.store slot rest.entry, i], base + rest.size + 1⟩
  | seq {base next : Nat} {items es : List Expr} {rest first : Fragment} :
    EffectsLaid base next es rest → (Expr.seq items).hasSuspend inAsync = true →
    EffectsLaid (base + rest.size) rest.entry items first →
    EffectsLaid base next (.seq items :: es) ⟨rest.code ++ first.code, first.entry⟩

/-- A branch on an expression. -/
inductive ConditionLaid (base onTrue onFalse : Nat) : Expr → Fragment → Prop where
  | plain {e : Expr} : e.hasSuspend inAsync = false →
    ConditionLaid base onTrue onFalse e (.one base (.branch e onTrue onFalse))
  | seq {items : List Expr} {last : Expr} {first : Fragment} :
    (Expr.seq items).hasSuspend inAsync = true → items.getLast? = some last →
    EffectsLaid inAsync (base + 1) base items.dropLast first →
    ConditionLaid base onTrue onFalse (.seq items)
      ⟨.branch last onTrue onFalse :: first.code, first.entry⟩

/-- The test of a loop with a head. -/
inductive TestLaid (base onTrue onFalse : Nat) : Option Expr → Fragment → Prop where
  | none : TestLaid base onTrue onFalse none (.skip onTrue)
  | some {e : Expr} {f : Fragment} : ConditionLaid inAsync base onTrue onFalse e f →
    TestLaid base onTrue onFalse (some e) f

inductive UpdateLaid (base next : Nat) : Option Expr → Fragment → Prop where
  | none : UpdateLaid base next none (.skip next)
  | some {e : Expr} {f : Fragment} : EffectsLaid inAsync base next [e] f →
    UpdateLaid base next (some e) f

inductive InitLaid (base next : Nat) : ForInit → Fragment → Prop where
  | absent : InitLaid base next .absent (.skip next)
  | expr {e : Expr} {f : Fragment} : EffectsLaid inAsync base next [e] f →
    InitLaid base next (.expr e) f
  | declare {kind : VarKind} {ds : List Declarator} :
    (Stmt.declare kind ds).hasSuspend inAsync = false →
    InitLaid base next (.declare kind ds) (.one base (.evaluate (.declare kind ds) next))

end Pieces

/-- A protected block after its handler and its finally block. -/
def Fragment.protect (base next : Nat) (onThrow onExit : Option Nat) (f h b : Fragment) : Fragment :=
  ⟨f.code ++ h.code ++ .exitTry next false :: b.code ++ [.enterTry onThrow onExit b.entry],
    base + f.size + h.size + 1 + b.size⟩

def Fragment.enclose (base next : Nat) (labels : List String) (f : Fragment) : Fragment :=
  ⟨.exitLoop next :: f.code ++ [.enterLoop labels .block none next f.entry], base + 1 + f.size⟩

def Fragment.switch (base next : Nat) (labels : List String) (name : String) (subject : Expr)
    (cases : List Case) (entries : List Nat) (c : Fragment) : Fragment :=
  let testBase := base + 2 + c.size
  let t := buildTests name testBase (defaultEntry (base + 1) (cases.zip entries)) (cases.zip entries)
  let store := testBase + t.size
  ⟨.popScope next :: .exitLoop base :: c.code ++ t.code ++
      [.evaluate (.expr (.assign .set (.ident name) subject)) t.entry,
        .enterLoop labels .switch none base store,
        .pushScope (cases.flatMap fun c => declaredFunctions c.body) (store + 1)],
    store + 2⟩

/-- The instruction of a statement that does not suspend. -/
def Stmt.leafInstr (next : Nat) : Stmt → Instr
  | .brk label => .brk label
  | .cont label => .cont label
  | .ret value => .ret value
  | .throw value => .throw value
  | s => .evaluate s next

def Stmt.jumpIsChecked (around : Surroundings) : Stmt → Prop
  | .brk label => around.checkJump label false = .ok ()
  | .cont label => around.checkJump label true = .ok ()
  | _ => True

def Stmt.isEnclosed : Stmt → Bool
  | .expr _ | .block _ | .ifElse _ _ _ | .tryCatch _ _ _ => true
  | _ => false

/-- What code is made for. -/
inductive Part where
  | stmt (labels : List String) (s : Stmt)
  | stmts (ss : List Stmt)
  | block (body : List Stmt)
  | alternative (no : Option Stmt)
  | headLoop (labels : List String) (ownScope : Bool) (init : ForInit) (test update : Option Expr)
    (body : Stmt)
  | iteration (labels : List String) (target : ForTarget) (subject : Expr) (body : Stmt)
    (isAsync overKeys : Bool)
  | handler (handler : Option Catch) (onThrow : Option Nat)
  | finalizer (body : Option (List Stmt)) (onExit : Option Nat)
  | cases (cs : List Case) (entries : List Nat)

/-- The code of a part that stands at `base` and goes on at `next`. -/
inductive Laid : Surroundings → Nat → Nat → Part → Fragment → Prop where
  | leaf {around : Surroundings} {base next : Nat} {labels : List String} {s : Stmt} :
    s.hasSuspend around.inAsync = false → s.jumpIsChecked around →
    Laid around base next (.stmt labels s) (.one base (s.leafInstr next))
  | labeled {around : Surroundings} {base next : Nat} {labels : List String} {label : String}
    {s : Stmt} {f : Fragment} :
    s.hasSuspend around.inAsync = true → Laid around base next (.stmt (labels ++ [label]) s) f →
    Laid around base next (.stmt labels (.labeled label s)) f
  | enclosed {around : Surroundings} {base next : Nat} {labels : List String} {s : Stmt}
    {f : Fragment} :
    s.hasSuspend around.inAsync = true → s.isEnclosed = true → labels ≠ [] →
    Laid (around.enter labels .block) (base + 1) base (.stmt [] s) f →
    Laid around base next (.stmt labels s) (f.enclose base next labels)
  | expr {around : Surroundings} {base next : Nat} {e : Expr} {f : Fragment} :
    e.hasSuspend around.inAsync = true → EffectsLaid around.inAsync base next [e] f →
    Laid around base next (.stmt [] (.expr e)) f
  | blockStmt {around : Surroundings} {base next : Nat} {body : List Stmt} {f : Fragment} :
    anySuspend around.inAsync body = true → Laid around base next (.block body) f →
    Laid around base next (.stmt [] (.block body)) f
  | ifElse {around : Surroundings} {base next : Nat} {test : Expr} {yes : Stmt} {no : Option Stmt}
    {n y t : Fragment} :
    (Stmt.ifElse test yes no).hasSuspend around.inAsync = true →
    Laid around base next (.alternative no) n →
    Laid around (base + n.size) next (.stmt [] yes) y →
    ConditionLaid around.inAsync (base + n.size + y.size) y.entry n.entry test t →
    Laid around base next (.stmt [] (.ifElse test yes no)) ⟨n.code ++ y.code ++ t.code, t.entry⟩
  | whileDo {around : Surroundings} {base next : Nat} {labels : List String} {test : Expr}
    {body : Stmt} {b t : Fragment} :
    (Stmt.whileDo test body).hasSuspend around.inAsync = true →
    Laid (around.enter labels .loop) (base + 2) (base + 1) (.stmt [] body) b →
    ConditionLaid around.inAsync (base + 2 + b.size) b.entry base test t →
    Laid around base next (.stmt labels (.whileDo test body))
      (.testLoop base next labels b t (base + 1))
  | doWhile {around : Surroundings} {base next : Nat} {labels : List String} {test : Expr}
    {body : Stmt} {b t : Fragment} :
    (Stmt.doWhile body test).hasSuspend around.inAsync = true →
    Laid (around.enter labels .loop) (base + 2) (base + 1) (.stmt [] body) b →
    ConditionLaid around.inAsync (base + 2 + b.size) b.entry base test t →
    Laid around base next (.stmt labels (.doWhile body test))
      (.testLoop base next labels b t b.entry)
  | forPlain {around : Surroundings} {base next : Nat} {labels : List String} {init : ForInit}
    {test update : Option Expr} {body : Stmt} {f : Fragment} :
    (Stmt.forLoop init test update body).hasSuspend around.inAsync = true → init.isScoped = false →
    Laid around base next (.headLoop labels false init test update body) f →
    Laid around base next (.stmt labels (.forLoop init test update body)) f
  | forScoped {around : Surroundings} {base next : Nat} {labels : List String} {init : ForInit}
    {test update : Option Expr} {body : Stmt} {f : Fragment} :
    (Stmt.forLoop init test update body).hasSuspend around.inAsync = true → init.isScoped = true →
    Laid around (base + 1) base (.headLoop labels true init test update body) f →
    Laid around base next (.stmt labels (.forLoop init test update body)) (f.inScope base next [])
  | headLoop {around : Surroundings} {exit after : Nat} {labels : List String} {ownScope : Bool}
    {init : ForInit} {test update : Option Expr} {body : Stmt} {u c b t i : Fragment} :
    UpdateLaid around.inAsync (exit + 2) (exit + 1) update u → u.step ownScope (exit + 2) = c →
    Laid (around.enter labels .loop) (exit + 2 + c.size) c.entry (.stmt [] body) b →
    TestLaid around.inAsync (exit + 2 + c.size + b.size) b.entry exit test t →
    InitLaid around.inAsync (exit + 2 + c.size + b.size + t.size + 1)
      (exit + 2 + c.size + b.size + t.size) init i →
    Laid around exit after (.headLoop labels ownScope init test update body)
      (.headLoop exit after labels c b t i)
  | forIn {around : Surroundings} {base next : Nat} {labels : List String} {target : ForTarget}
    {subject : Expr} {body : Stmt} {f : Fragment} :
    (Stmt.forIn target subject body).hasSuspend around.inAsync = true →
    Laid around base next (.iteration labels target subject body false true) f →
    Laid around base next (.stmt labels (.forIn target subject body)) f
  | forOf {around : Surroundings} {base next : Nat} {labels : List String} {target : ForTarget}
    {subject : Expr} {body : Stmt} {isAwait : Bool} {f : Fragment} :
    (Stmt.forOf target subject body isAwait).hasSuspend around.inAsync = true →
    Laid around base next (.iteration labels target subject body isAwait false) f →
    Laid around base next (.stmt labels (.forOf target subject body isAwait)) f
  | iteration {around : Surroundings} {base next : Nat} {labels : List String} {target : ForTarget}
    {subject : Expr} {body : Stmt} {isAsync overKeys : Bool} {b : Fragment} :
    Laid (around.enter labels .loop) (base + 4) (base + 3) (.stmt [] body) b →
    Laid around base next (.iteration labels target subject body isAsync overKeys)
      (.iteration base next labels target subject isAsync overKeys b)
  | tryCatch {around : Surroundings} {base next : Nat} {block : List Stmt}
    {handler : Option Catch} {finalizer : Option (List Stmt)} {onThrow onExit : Option Nat}
    {f h b : Fragment} :
    (Stmt.tryCatch block handler finalizer).hasSuspend around.inAsync = true →
    Laid around base next (.finalizer finalizer onExit) f →
    Laid around (base + f.size) next (.handler handler onThrow) h →
    Laid around (base + f.size + h.size + 1) (base + f.size + h.size) (.block block) b →
    Laid around base next (.stmt [] (.tryCatch block handler finalizer))
      (.protect base next onThrow onExit f h b)
  | switch {around : Surroundings} {base next : Nat} {labels : List String} {subject : Expr}
    {cases : List Case} {entries : List Nat} {name : String} {c : Fragment} :
    (Stmt.switch subject cases).hasSuspend around.inAsync = true →
    Laid (around.enter labels .switch) (base + 2) (base + 1) (.cases cases entries) c →
    Laid around base next (.stmt labels (.switch subject cases))
      (.switch base next labels name subject cases entries c)
  | block {around : Surroundings} {base next : Nat} {body : List Stmt} {b : Fragment} :
    Laid around (base + 1) base (.stmts body) b →
    Laid around base next (.block body) (b.inScope base next (declaredFunctions body))
  | noAlternative {around : Surroundings} {base next : Nat} :
    Laid around base next (.alternative none) (.skip next)
  | alternative {around : Surroundings} {base next : Nat} {no : Stmt} {f : Fragment} :
    Laid around base next (.stmt [] no) f → Laid around base next (.alternative (some no)) f
  | noFinalizer {around : Surroundings} {base next : Nat} :
    Laid around base next (.finalizer none none) (.skip next)
  | finalizer {around : Surroundings} {base next : Nat} {body : List Stmt} {f : Fragment} :
    Laid around (base + 1) base (.block body) f →
    Laid around base next (.finalizer (some body) (some f.entry)) ⟨.endFinally next :: f.code, next⟩
  | noHandler {around : Surroundings} {base next : Nat} :
    Laid around base next (.handler none none) (.skip next)
  | handler {around : Surroundings} {base next : Nat} {param : Option Pattern} {body : List Stmt}
    {f : Fragment} :
    Laid around (base + 2) (base + 1) (.block body) f →
    Laid around base next (.handler (some (.mk param body)) (some (base + 2 + f.size)))
      ⟨.exitTry next false :: .popScope base :: f.code ++ [.bindCatch param f.entry], next⟩
  | nil {around : Surroundings} {base next : Nat} : Laid around base next (.stmts []) (.skip next)
  | cons {around : Surroundings} {base next : Nat} {s : Stmt} {ss : List Stmt}
    {rest first : Fragment} :
    Laid around base next (.stmts ss) rest →
    Laid around (base + rest.size) rest.entry (.stmt [] s) first →
    Laid around base next (.stmts (s :: ss)) ⟨rest.code ++ first.code, first.entry⟩
  | noCase {around : Surroundings} {base exit : Nat} :
    Laid around base exit (.cases [] []) (.skip exit)
  | case {around : Surroundings} {base exit : Nat} {test : Option Expr} {body : List Stmt}
    {cs : List Case} {entries : List Nat} {c b : Fragment} :
    Laid around base exit (.cases cs entries) c →
    Laid around (base + c.size) c.entry (.stmts body) b →
    Laid around base exit (.cases (.mk test body :: cs) (b.entry :: entries))
      ⟨c.code ++ b.code, b.entry⟩

namespace Fragment

@[simp] theorem length_code (f : Fragment) : f.code.length = f.size := rfl

@[simp] theorem size_mk (code : List Instr) (entry : Nat) : (mk code entry).size = code.length := rfl

@[simp] theorem size_skip (next : Nat) : (skip next).size = 0 := rfl

@[simp] theorem size_inScope (base next : Nat) (functions : List FunctionDecl) (f : Fragment) :
    (f.inScope base next functions).size = f.size + 2 := by
  simp [inScope]

end Fragment

section Inversion

variable (inAsync : Bool) (base next : Nat)

theorem bind_ok {α β : Type} (x : Except Refusal α) (f : α → Except Refusal β) (b : β) :
    x >>= f = .ok b ↔ ∃ a, x = .ok a ∧ f a = .ok b := by
  cases x with
  | error r => simp [bind, Except.bind]
  | ok a => simp [bind, Except.bind]

theorem pure_ok {α : Type} (a b : α) : (pure a : Except Refusal α) = .ok b ↔ a = b := by
  simp [pure, Except.pure]

theorem throw_ok {α : Type} (r : Refusal) (a : α) :
    (throw r : Except Refusal α) = .ok a ↔ False := by
  simp [throw, throwThe, MonadExceptOf.throw]

theorem run_ofExcept_ok {α : Type} (x : Except Refusal α) (a : α) (n m : Nat) :
    (Build.ofExcept x).run n = .ok (a, m) ↔ x = .ok a ∧ n = m := by
  cases x with
  | error r => simp [Build.ofExcept, liftM, monadLift, MonadLift.monadLift, StateT.run, StateT.lift,
      bind, Except.bind]
  | ok b => simp [Build.ofExcept, liftM, monadLift, MonadLift.monadLift, StateT.run, StateT.lift,
      bind, Except.bind, pure, Except.pure]

theorem buildSuspend_ok (e : Expr) (slot : Option String) (f : Fragment)
    (h : e.buildSuspend inAsync slot base next = .ok f) :
    e.isSimpleSuspend inAsync = true ∧
      ∃ i, e.suspendInstr? base = some i ∧ f = ⟨[.store slot next, i], base + 1⟩ := by
  rw [Expr.buildSuspend.eq_def] at h
  split at h
  · rw [pure_ok] at h
    exact ⟨rfl, _, rfl, h.symm⟩
  · rename_i e
    split at h
    · rw [throw_ok] at h
      exact h.elim
    · rename_i he
      rw [pure_ok] at h
      exact ⟨by simp [Expr.isSimpleSuspend, he], _, rfl, h.symm⟩
  · rename_i e
    split at h
    · rw [throw_ok] at h
      exact h.elim
    · rename_i he
      rw [pure_ok] at h
      exact ⟨by simp [Expr.isSimpleSuspend, he], _, rfl, h.symm⟩
  · rename_i e
    split at h
    · rw [throw_ok] at h
      exact h.elim
    · rename_i he
      rw [pure_ok] at h
      simp only [Bool.or_eq_true, not_or, Bool.not_eq_true] at he
      exact ⟨by simpa [Expr.isSimpleSuspend] using he, _, rfl, h.symm⟩
  · rw [throw_ok] at h
    exact h.elim

theorem EffectsLaid.cons {inAsync : Bool} {base next : Nat} {e : Expr} {es : List Expr}
    {rest first : Fragment} (hrest : EffectsLaid inAsync base next es rest)
    (hfirst : EffectsLaid inAsync (base + rest.size) rest.entry [e] first) :
    EffectsLaid inAsync base next (e :: es) ⟨rest.code ++ first.code, first.entry⟩ := by
  cases hfirst with
  | plain hnil he =>
    cases hnil
    exact plain hrest he
  | suspend hnil hs hp hd hi =>
    cases hnil
    exact suspend hrest hs hp hd hi
  | seq hnil hs hfirst =>
    cases hnil
    exact seq hrest hs hfirst

end Inversion

mutual

theorem buildEffect_laid (inAsync : Bool) : (e : Expr) → (base next : Nat) → (f : Fragment) →
    e.buildEffect inAsync base next = .ok f → EffectsLaid inAsync base next [e] f
  | e, base, next, f, h => by
    cases hs : e.hasSuspend inAsync with
    | false =>
      rw [Expr.buildEffect.eq_def] at h
      simp only [hs, Bool.not_false, ↓reduceIte, pure_ok] at h
      subst h
      exact .plain .nil hs
    | true =>
      rw [Expr.buildEffect.eq_def] at h
      simp only [hs, Bool.not_true, Bool.false_eq_true, ↓reduceIte] at h
      split at h
      · rename_i items
        exact .seq .nil hs (buildEffects_laid inAsync items base next f h)
      · obtain ⟨hd, i, hi, rfl⟩ := buildSuspend_ok inAsync base next _ _ f h
        exact .suspend .nil hs rfl hd hi
      · simp [throw_ok] at h
      · obtain ⟨hd, i, hi, rfl⟩ := buildSuspend_ok inAsync base next _ _ f h
        refine .suspend .nil hs ?_ hd hi
        cases e <;> simp [Expr.isSimpleSuspend] at hd <;> rfl
termination_by e => sizeOf e
decreasing_by all_goals (subst_vars; simp +arith)

theorem buildEffects_laid (inAsync : Bool) : (es : List Expr) → (base next : Nat) →
    (f : Fragment) → buildEffects inAsync base next es = .ok f → EffectsLaid inAsync base next es f
  | [], base, next, f, h => by
    rw [buildEffects, pure_ok] at h
    subst h
    exact .nil
  | e :: es, base, next, f, h => by
    simp only [buildEffects, bind_ok, pure_ok] at h
    obtain ⟨rest, hrest, first, hfirst, rfl⟩ := h
    exact .cons (buildEffects_laid inAsync es base next rest hrest)
      (buildEffect_laid inAsync e _ _ first hfirst)
termination_by es => sizeOf es
decreasing_by all_goals simp +arith

end

theorem buildCondition_laid (inAsync : Bool) (base onTrue onFalse : Nat) (e : Expr) (f : Fragment)
    (h : e.buildCondition inAsync base onTrue onFalse = .ok f) :
    ConditionLaid inAsync base onTrue onFalse e f := by
  rw [Expr.buildCondition.eq_def] at h
  split at h
  · rename_i hs
    rw [pure_ok] at h
    subst h
    exact .plain (by simpa using hs)
  · rename_i hs
    split at h
    · rename_i items
      split at h
      · simp [throw_ok] at h
      · rename_i last hlast
        simp only [bind_ok, pure_ok] at h
        obtain ⟨first, hfirst, rfl⟩ := h
        exact .seq (by simpa using hs) hlast (buildEffects_laid inAsync _ _ _ first hfirst)
    · simp [throw_ok] at h

theorem buildTest_laid (inAsync : Bool) (base onTrue onFalse : Nat) (test : Option Expr)
    (f : Fragment) (h : buildTest inAsync base onTrue onFalse test = .ok f) :
    TestLaid inAsync base onTrue onFalse test f := by
  cases test with
  | none =>
    rw [buildTest, pure_ok] at h
    subst h
    exact .none
  | some e => exact .some (buildCondition_laid inAsync base onTrue onFalse e f h)

theorem buildUpdate_laid (inAsync : Bool) (base next : Nat) (update : Option Expr) (f : Fragment)
    (h : buildUpdate inAsync base next update = .ok f) : UpdateLaid inAsync base next update f := by
  cases update with
  | none =>
    rw [buildUpdate, pure_ok] at h
    subst h
    exact .none
  | some e => exact .some (buildEffect_laid inAsync e base next f h)

theorem buildInit_laid (inAsync : Bool) (base next : Nat) (init : ForInit) (f : Fragment)
    (h : init.build inAsync base next = .ok f) : InitLaid inAsync base next init f := by
  cases init with
  | absent =>
    rw [ForInit.build, pure_ok] at h
    subst h
    exact .absent
  | expr e => exact .expr (buildEffect_laid inAsync e base next f h)
  | declare kind ds =>
    rw [ForInit.build] at h
    split at h
    · simp [throw_ok] at h
    · rename_i hs
      rw [pure_ok] at h
      subst h
      exact .declare (by simpa using hs)

@[simp] theorem Surroundings.enter_inAsync (around : Surroundings) (labels : List String)
    (kind : LoopKind) : (around.enter labels kind).inAsync = around.inAsync := rfl

namespace Laid

variable {around : Surroundings} {labels : List String} {base next n m : Nat} {s : Stmt}
  {f : Fragment}

theorem ofLeaf (hs : s.hasSuspend around.inAsync = false)
    (h : s.buildLeaf around base next = .ok f) : Laid around base next (.stmt labels s) f := by
  cases s with
  | brk label | cont label =>
    simp only [Stmt.buildLeaf, bind_ok, pure_ok] at h
    obtain ⟨⟨⟩, hj, rfl⟩ := h
    exact leaf hs hj
  | _ =>
    rw [Stmt.buildLeaf] at h <;> try simp
    rw [pure_ok] at h
    subst h
    exact leaf hs trivial

/-- Without labels there is nothing around the code, with labels a loop of no turns. -/
theorem ofEnclose {build : Surroundings → Nat → Nat → Build Fragment}
    (hs : s.hasSuspend around.inAsync = true) (he : s.isEnclosed = true)
    (inner : ∀ around' base next f, around'.inAsync = around.inAsync →
      (build around' base next).run n = .ok (f, m) → Laid around' base next (.stmt [] s) f)
    (h : (enclose around labels base next build).run n = .ok (f, m)) :
    Laid around base next (.stmt labels s) f := by
  rw [enclose] at h
  split at h
  · rename_i hl
    rw [List.isEmpty_iff.1 hl]
    exact inner around base next f rfl h
  · rename_i hl
    simp only [run_bind_ok, run_pure_ok] at h
    obtain ⟨b, k, hb, rfl, rfl⟩ := h
    exact enclosed hs he (by simpa using hl) (inner _ _ _ b rfl hb)

theorem protect {block : List Stmt} {handler : Option Catch} {finalizer : Option (List Stmt)}
    {onThrow onExit : Option Nat} {c h b : Fragment} {mid exit : Nat}
    (hs : (Stmt.tryCatch block handler finalizer).hasSuspend around.inAsync = true)
    (hc : Laid around base next (.finalizer finalizer onExit) c) (hmid : mid = base + c.size)
    (hh : Laid around mid next (.handler handler onThrow) h) (hexit : exit = mid + h.size)
    (hb : Laid around (exit + 1) exit (.block block) b)
    (hf : f = .protect base next onThrow onExit c h b) :
    Laid around base next (.stmt [] (.tryCatch block handler finalizer)) f := by
  subst hmid hexit hf
  exact tryCatch hs hc hh hb

theorem ofRun (h : (s.build around labels base next).run n = .ok (f, m))
    (hh : s.hasSuspend around.inAsync = true → Laid around base next (.stmt labels s) f) :
    Laid around base next (.stmt labels s) f := by
  cases hs : s.hasSuspend around.inAsync with
  | false =>
    rw [Stmt.build.eq_def] at h
    simp only [hs, Bool.not_false, ↓reduceIte, run_ofExcept_ok] at h
    exact ofLeaf hs h.1
  | true => exact hh hs

end Laid

mutual

theorem Stmt.laid : (s : Stmt) → (around : Surroundings) → (labels : List String) →
    (base next n m : Nat) → (f : Fragment) →
    (s.build around labels base next).run n = .ok (f, m) → Laid around base next (.stmt labels s) f
  | .empty, around, labels, base, next, n, m, f, h | .brk _, around, labels, base, next, n, m, f, h
  | .cont _, around, labels, base, next, n, m, f, h
  | .function _ _, around, labels, base, next, n, m, f, h => .ofRun h fun hs => by
    simp [Stmt.hasSuspend] at hs
  | .ret _, around, labels, base, next, n, m, f, h
  | .throw _, around, labels, base, next, n, m, f, h
  | .declare _ _, around, labels, base, next, n, m, f, h => .ofRun h fun hs => by
    rw [Stmt.build] at h
    simp only [run_unless_ok hs, run_ofExcept_ok, throw_ok, false_and] at h
  | .labeled label s, around, labels, base, next, n, m, f, h => .ofRun h fun hs => by
    rw [Stmt.build] at h
    simp only [run_unless_ok hs] at h
    exact .labeled hs (s.laid around _ base next n m f h)
  | .expr e, around, labels, base, next, n, m, f, h => .ofRun h fun hs => by
    rw [Stmt.build] at h
    simp only [run_unless_ok hs] at h
    refine .ofEnclose hs rfl ?_ h
    intro around' base next f ha h
    rw [run_ofExcept_ok] at h
    exact .expr (by rwa [ha]) (by rw [ha]; exact buildEffect_laid _ e base next f h.1)
  | .block body, around, labels, base, next, n, m, f, h => .ofRun h fun hs => by
    rw [Stmt.build] at h
    simp only [run_unless_ok hs] at h
    refine .ofEnclose hs rfl ?_ h
    intro around' base next f ha h
    simp only [run_bind_ok, run_pure_ok] at h
    obtain ⟨b, k, hb, rfl, -⟩ := h
    exact .blockStmt (by rwa [ha]) (.block (buildStmts_laid body around' _ _ n k b hb))
  | .ifElse test yes none, around, labels, base, next, n, m, f, h => .ofRun h fun hs => by
    rw [Stmt.build] at h
    simp only [run_unless_ok hs] at h
    refine .ofEnclose hs rfl ?_ h
    intro around' base next f ha h
    simp only [run_bind_ok, run_ofExcept_ok, run_pure_ok] at h
    obtain ⟨y, k, hy, t, k', ⟨ht, -⟩, rfl, -⟩ := h
    rw [← ha] at ht hs
    exact .ifElse (n := .skip next) hs .noAlternative (yes.laid around' [] base next n k y hy)
      (buildCondition_laid _ _ _ _ test t ht)
  | .ifElse test yes (some no), around, labels, base, next, n, m, f, h => .ofRun h fun hs => by
    rw [Stmt.build] at h
    simp only [run_unless_ok hs] at h
    refine .ofEnclose hs rfl ?_ h
    intro around' base next f ha h
    simp only [run_bind_ok, run_ofExcept_ok, run_pure_ok] at h
    obtain ⟨o, k, ho, y, k', hy, t, k'', ⟨ht, -⟩, rfl, -⟩ := h
    rw [← ha] at ht hs
    exact .ifElse hs (.alternative (no.laid around' [] base next n k o ho))
      (yes.laid around' [] _ next k k' y hy) (buildCondition_laid _ _ _ _ test t ht)
  | .whileDo test body, around, labels, base, next, n, m, f, h => .ofRun h fun hs => by
    rw [Stmt.build] at h
    simp only [run_unless_ok hs, run_bind_ok, run_ofExcept_ok, run_pure_ok] at h
    obtain ⟨b, k, hb, t, k', ⟨ht, -⟩, rfl, -⟩ := h
    exact .whileDo hs (body.laid _ [] _ _ n k b hb) (buildCondition_laid _ _ _ _ test t ht)
  | .doWhile body test, around, labels, base, next, n, m, f, h => .ofRun h fun hs => by
    rw [Stmt.build] at h
    simp only [run_unless_ok hs, run_bind_ok, run_ofExcept_ok, run_pure_ok] at h
    obtain ⟨b, k, hb, t, k', ⟨ht, -⟩, rfl, -⟩ := h
    exact .doWhile hs (body.laid _ [] _ _ n k b hb) (buildCondition_laid _ _ _ _ test t ht)
  | .forLoop init test update body, around, labels, base, next, n, m, f, h => .ofRun h fun hs => by
    rw [Stmt.build] at h
    simp only [run_unless_ok hs] at h
    cases ho : init.isScoped with
    | false =>
      simp only [ho, Bool.false_eq_true, ↓reduceIte, run_bind_ok, run_ofExcept_ok, run_pure_ok] at h
      obtain ⟨u, k, ⟨hu, -⟩, b, k', hb, t, k'', ⟨ht, -⟩, i, k₁, ⟨hi, -⟩, rfl, -⟩ := h
      exact .forPlain hs ho (.headLoop (buildUpdate_laid _ _ _ update u hu) rfl
        (body.laid _ [] _ _ k k' b hb) (buildTest_laid _ _ _ _ test t ht)
        (buildInit_laid _ _ _ init i hi))
    | true =>
      simp only [ho, ↓reduceIte, run_bind_ok, run_ofExcept_ok, run_pure_ok] at h
      obtain ⟨u, k, ⟨hu, -⟩, b, k', hb, t, k'', ⟨ht, -⟩, i, k₁, ⟨hi, -⟩, rfl, -⟩ := h
      exact .forScoped hs ho (.headLoop (buildUpdate_laid _ _ _ update u hu) rfl
        (body.laid _ [] _ _ k k' b hb) (buildTest_laid _ _ _ _ test t ht)
        (buildInit_laid _ _ _ init i hi))
  | .forIn target subject body, around, labels, base, next, n, m, f, h => .ofRun h fun hs => by
    rw [Stmt.build] at h
    simp only [run_unless_ok hs, run_bind_ok, run_pure_ok] at h
    obtain ⟨b, k, hb, rfl, -⟩ := h
    exact .forIn hs (.iteration (body.laid _ [] _ _ n k b hb))
  | .forOf target subject body isAwait, around, labels, base, next, n, m, f, h =>
    .ofRun h fun hs => by
    rw [Stmt.build] at h
    simp only [run_unless_ok hs, run_bind_ok, run_pure_ok] at h
    obtain ⟨b, k, hb, rfl, -⟩ := h
    exact .forOf hs (.iteration (body.laid _ [] _ _ n k b hb))
  | .tryCatch block none none, around, labels, base, next, n, m, f, h => .ofRun h fun hs => by
    rw [Stmt.build] at h
    simp only [run_unless_ok hs] at h
    refine .ofEnclose hs rfl ?_ h
    intro around' base next f ha h
    simp only [run_bind_ok, run_pure_ok] at h
    obtain ⟨b, k, hb, rfl, -⟩ := h
    rw [← ha] at hs
    exact .tryCatch (f := .skip next) (h := .skip next) hs .noFinalizer .noHandler
      (.block (buildStmts_laid block around' _ _ n k b hb))
  | .tryCatch block none (some finalizer), around, labels, base, next, n, m, f, h =>
    .ofRun h fun hs => by
    rw [Stmt.build] at h
    simp only [run_unless_ok hs] at h
    refine .ofEnclose hs rfl ?_ h
    intro around' base next f ha h
    simp only [run_bind_ok, run_pure_ok] at h
    obtain ⟨c, k, hc, b, k', hb, rfl, -⟩ := h
    rw [← ha] at hs
    have hb := buildStmts_laid block around' _ _ k k' b hb
    refine .protect (h := .skip next) hs
      (.finalizer (.block (buildStmts_laid finalizer around' _ _ n k c hc))) rfl .noHandler ?_
      (.block hb) ?_
    · simp
      omega
    · simp [Fragment.protect, Fragment.skip]
      omega
  | .tryCatch block (some (.mk param handler)) none, around, labels, base, next, n, m, f, h =>
    .ofRun h fun hs => by
    rw [Stmt.build] at h
    simp only [run_unless_ok hs] at h
    refine .ofEnclose hs rfl ?_ h
    intro around' base next f ha h
    simp only [run_bind_ok, run_pure_ok] at h
    obtain ⟨c, k, hc, b, k', hb, rfl, -⟩ := h
    rw [← ha] at hs
    refine .protect (c := .skip next) hs .noFinalizer rfl
      (.handler (.block (buildStmts_laid handler around' _ _ n k c hc))) ?_
      (.block (buildStmts_laid block around' _ _ k k' b hb)) ?_
    · simp
      omega
    · simp [Fragment.protect, Fragment.skip]
      omega
  | .tryCatch block (some (.mk param handler)) (some finalizer), around, labels, base, next, n, m, f,
    h => .ofRun h fun hs => by
    rw [Stmt.build] at h
    simp only [run_unless_ok hs] at h
    refine .ofEnclose hs rfl ?_ h
    intro around' base next f ha h
    simp only [run_bind_ok, run_pure_ok] at h
    obtain ⟨d, k, hd, c, k', hc, b, k'', hb, rfl, -⟩ := h
    rw [← ha] at hs
    refine .protect hs (.finalizer (.block (buildStmts_laid finalizer around' _ _ n k d hd))) ?_
      (.handler (.block (buildStmts_laid handler around' _ _ k k' c hc))) ?_
      (.block (buildStmts_laid block around' _ _ k' k'' b hb)) ?_
    · simp
      omega
    · simp
      omega
    · simp [Fragment.protect]
      omega
  | .switch subject cases, around, labels, base, next, n, m, f, h => .ofRun h fun hs => by
    rw [Stmt.build] at h
    simp only [run_unless_ok hs, run_bind_ok, run_pure_ok] at h
    obtain ⟨⟨code, entries⟩, k, hc, name, k', -, rfl, -⟩ := h
    exact .switch hs (buildCases_laid cases _ _ _ n k code entries hc)

theorem buildStmts_laid : (ss : List Stmt) → (around : Surroundings) → (base next n m : Nat) →
    (f : Fragment) → (buildStmts around base next ss).run n = .ok (f, m) →
    Laid around base next (.stmts ss) f
  | [], around, base, next, n, m, f, h => by
    rw [buildStmts, run_pure_ok] at h
    obtain ⟨rfl, -⟩ := h
    exact .nil
  | s :: ss, around, base, next, n, m, f, h => by
    simp only [buildStmts, run_bind_ok, run_pure_ok] at h
    obtain ⟨rest, k, hrest, first, k', hfirst, rfl, -⟩ := h
    exact .cons (buildStmts_laid ss around base next n k rest hrest)
      (s.laid around [] _ _ k k' first hfirst)

theorem buildCases_laid : (cs : List Case) → (around : Surroundings) → (base exit n m : Nat) →
    (code : List Instr) → (entries : List Nat) →
    (buildCases around base exit cs).run n = .ok ((code, entries), m) →
    Laid around base exit (.cases cs entries) ⟨code, entries.headD exit⟩
  | [], around, base, exit, n, m, code, entries, h => by
    simp only [buildCases, run_pure_ok, Prod.mk.injEq] at h
    obtain ⟨⟨rfl, rfl⟩, -⟩ := h
    exact .noCase
  | .mk test body :: cs, around, base, exit, n, m, code, entries, h => by
    simp only [buildCases, run_bind_ok, run_pure_ok, Prod.mk.injEq] at h
    obtain ⟨⟨c, es⟩, k, hc, b, k', hb, ⟨rfl, rfl⟩, -⟩ := h
    exact .case (buildCases_laid cs around base exit n k c es hc)
      (buildStmts_laid body around _ _ k k' b hb)

end

end Resumable
