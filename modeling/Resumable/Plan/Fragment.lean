import Resumable.Plan.Basic
import Resumable.Script.Suspends

/-!
Fragments: code for one statement, made for the position `base` at which it will stand and for the
position `next` at which control goes on. A statement list is laid out back to front, so that every
target but those of loops lies before the instruction that names it.
-/

set_option autoImplicit false

namespace Resumable

/-- Instructions to stand at a known position, and where to enter them. -/
structure Fragment where
  code : List Instr
  entry : Nat

namespace Fragment

def size (f : Fragment) : Nat := f.code.length

def skip (next : Nat) : Fragment := ⟨[], next⟩

def one (base : Nat) (i : Instr) : Fragment := ⟨[i], base⟩

def close (base : Nat) (f : Fragment) (i : Instr) : Fragment := ⟨f.code ++ [i], base + f.size⟩

end Fragment

/-- A construct that `break` or `continue` can lead to. -/
structure Breakable where
  labels : List String
  kind : LoopKind

structure Surroundings where
  inAsync : Bool
  breakables : List Breakable

namespace Surroundings

def enter (around : Surroundings) (labels : List String) (kind : LoopKind) : Surroundings :=
  { around with breakables := ⟨labels, kind⟩ :: around.breakables }

def checkJump (around : Surroundings) (label : Option String) (isContinue : Bool) :
    Except Refusal Unit :=
  let found := around.breakables.find? fun b =>
    match label with
    | some l => b.labels.contains l
    | none => if isContinue then b.kind = .loop else b.kind ≠ .block
  match found, label with
  | some b, some l =>
    if isContinue && b.kind ≠ .loop then throw (.continueNonLoop l) else return ()
  | some _, none => return ()
  | none, some l => throw (.undefinedLabel l)
  | none, none => throw (if isContinue then .continueOutside else .breakOutside)

end Surroundings

def Expr.buildSuspend (inAsync : Bool) (slot : Option String) (base next : Nat) :
    Expr → Except Refusal Fragment
  | .yield none => return ⟨[.store slot next, .yield none base], base + 1⟩
  | .yield (some e) =>
    if e.hasSuspend inAsync then throw .unloweredExpression
    else return ⟨[.store slot next, .yield (some e) base], base + 1⟩
  | .yieldStar (some e) =>
    if e.hasSuspend inAsync then throw .unloweredExpression
    else return ⟨[.store slot next, .yieldStar e base], base + 1⟩
  | .await e =>
    if !inAsync || e.hasSuspend inAsync then throw .unloweredExpression
    else return ⟨[.store slot next, .await e base], base + 1⟩
  | _ => throw .unloweredExpression

mutual

def Expr.buildEffect (inAsync : Bool) (base next : Nat) (e : Expr) : Except Refusal Fragment :=
  if !e.hasSuspend inAsync then return .one base (.evaluate (.expr e) next)
  else match e with
    | .seq items => buildEffects inAsync base next items
    | .assign .set (.ident name) value => value.buildSuspend inAsync (some name) base next
    | .assign .set _ _ => throw .nonBinding
    | e => e.buildSuspend inAsync none base next

def buildEffects (inAsync : Bool) (base next : Nat) : List Expr → Except Refusal Fragment
  | [] => return .skip next
  | e :: es => do
    let rest ← buildEffects inAsync base next es
    let first ← e.buildEffect inAsync (base + rest.size) rest.entry
    return ⟨rest.code ++ first.code, first.entry⟩

end

/-- A branch on an expression. The leading items of a lowered sequence run before the branch on the
last one. -/
def Expr.buildCondition (inAsync : Bool) (base onTrue onFalse : Nat) (e : Expr) :
    Except Refusal Fragment :=
  if !e.hasSuspend inAsync then return .one base (.branch e onTrue onFalse)
  else match e with
    | .seq items =>
      match items.getLast? with
      | none => throw .unloweredCondition
      | some last => do
        let first ← buildEffects inAsync (base + 1) base items.dropLast
        return ⟨.branch last onTrue onFalse :: first.code, first.entry⟩
    | _ => throw .unloweredCondition

def ForInit.isScoped : ForInit → Bool
  | .declare kind _ => kind ≠ .var
  | .absent | .expr _ => false

def ForInit.build (inAsync : Bool) (base next : Nat) : ForInit → Except Refusal Fragment
  | .absent => return .skip next
  | .expr e => e.buildEffect inAsync base next
  | .declare kind ds =>
    if (Stmt.declare kind ds).hasSuspend inAsync then throw .unloweredDeclaration
    else return .one base (.evaluate (.declare kind ds) next)

def ForTarget.kind? : ForTarget → Option VarKind
  | .declare .var _ | .assign _ => none
  | .declare kind _ => some kind

def Fragment.inScope (base next : Nat) (functions : List FunctionDecl) (body : Fragment) :
    Fragment :=
  ⟨.popScope next :: body.code ++ [.pushScope functions body.entry], base + 1 + body.size⟩

/-- A loop that tests at `base + 1`, where `continue` leads too. -/
def Fragment.testLoop (base next : Nat) (labels : List String) (body test : Fragment)
    (start : Nat) : Fragment :=
  ⟨.exitLoop next :: .jump test.entry :: body.code ++ test.code ++
      [.enterLoop labels .loop (some (base + 1)) next start],
    base + 2 + body.size + test.size⟩

def buildTest (inAsync : Bool) (base onTrue onFalse : Nat) : Option Expr → Except Refusal Fragment
  | none => return .skip onTrue
  | some e => e.buildCondition inAsync base onTrue onFalse

def buildUpdate (inAsync : Bool) (base next : Nat) : Option Expr → Except Refusal Fragment
  | none => return .skip next
  | some e => e.buildEffect inAsync base next

def Fragment.step (ownScope : Bool) (base : Nat) (update : Fragment) : Fragment :=
  if ownScope then update.close base (.copyScope update.entry) else update

def Fragment.headLoop (base next : Nat) (labels : List String) (step body test init : Fragment) :
    Fragment :=
  ⟨.exitLoop next :: .jump test.entry :: step.code ++ body.code ++ test.code ++
      .enterLoop labels .loop (some step.entry) next (base + 1) :: init.code,
    init.entry⟩

abbrev Build := StateT Nat (Except Refusal)

def Build.ofExcept {α : Type} (x : Except Refusal α) : Build α := liftM x

def tempName (n : Nat) : String := "%switch" ++ Nat.repr n

def freshTemp : Build String := do
  let n ← get
  set (n + 1)
  return tempName n

def buildTests (subject : String) (base otherwise : Nat) : List (Case × Nat) → Fragment
  | [] => .one base (.jump otherwise)
  | (c, entry) :: rest =>
    let after := buildTests subject base otherwise rest
    match c.test with
    | none => after
    | some test =>
      after.close base (.branch (.binary .strictEq (.ident subject) test) entry after.entry)

def defaultEntry (exit : Nat) (cases : List (Case × Nat)) : Nat :=
  match cases.find? fun c => c.1.test.isNone with
  | some (_, entry) => entry
  | none => exit

/-- A labeled statement that is no loop or `switch`; without labels there is nothing to add. -/
def enclose (around : Surroundings) (labels : List String) (base next : Nat)
    (build : Surroundings → Nat → Nat → Build Fragment) : Build Fragment := do
  if labels.isEmpty then build around base next
  else
    let body ← build (around.enter labels .block) (base + 1) base
    return ⟨.exitLoop next :: body.code ++ [.enterLoop labels .block none next body.entry],
      base + 1 + body.size⟩

def Stmt.buildLeaf (around : Surroundings) (base next : Nat) (s : Stmt) :
    Except Refusal Fragment :=
  match s with
  | .brk label => do
    around.checkJump label false
    return .one base (.brk label)
  | .cont label => do
    around.checkJump label true
    return .one base (.cont label)
  | .ret value => return .one base (.ret value)
  | .throw value => return .one base (.throw value)
  | s => return .one base (.evaluate s next)

def Fragment.iteration (base next : Nat) (labels : List String) (target : ForTarget)
    (subject : Expr) (isAsync overKeys : Bool) (body : Fragment) : Fragment :=
  let close := base + 4 + body.size
  ⟨.exitTry next false :: .exitLoop base ::
      .moveNext target.kind? target.pattern body.entry (base + 1) isAsync :: .popScope (base + 2) ::
      body.code ++
      [.exitTry next true, .enterLoop labels .loop (some (base + 2)) close (base + 2),
        .openIterator subject isAsync overKeys (close + 1)],
    close + 2⟩

mutual

def Stmt.build (around : Surroundings) (labels : List String) (base next : Nat) (s : Stmt) :
    Build Fragment := do
  let inAsync := around.inAsync
  if !s.hasSuspend inAsync then .ofExcept (s.buildLeaf around base next)
  else match s with
    | .labeled label body => body.build around (labels ++ [label]) base next
    | .expr e => enclose around labels base next fun _ base next =>
        .ofExcept (e.buildEffect inAsync base next)
    | .block body => enclose around labels base next fun around base next => do
        let b ← buildStmts around (base + 1) base body
        return .inScope base next (declaredFunctions body) b
    | .ifElse test yes none => enclose around labels base next fun around base next => do
        let y ← yes.build around [] base next
        let t ← .ofExcept (test.buildCondition inAsync (base + y.size) y.entry next)
        return ⟨y.code ++ t.code, t.entry⟩
    | .ifElse test yes (some no) => enclose around labels base next fun around base next => do
        let n ← no.build around [] base next
        let y ← yes.build around [] (base + n.size) next
        let t ← .ofExcept (test.buildCondition inAsync (base + n.size + y.size) y.entry n.entry)
        return ⟨n.code ++ y.code ++ t.code, t.entry⟩
    | .whileDo test body =>
      let b ← body.build (around.enter labels .loop) [] (base + 2) (base + 1)
      let t ← .ofExcept (test.buildCondition inAsync (base + 2 + b.size) b.entry base)
      return .testLoop base next labels b t (base + 1)
    | .doWhile body test =>
      let b ← body.build (around.enter labels .loop) [] (base + 2) (base + 1)
      let t ← .ofExcept (test.buildCondition inAsync (base + 2 + b.size) b.entry base)
      return .testLoop base next labels b t b.entry
    | .forLoop init test update body =>
      -- with bindings of its own the loop starts by opening a scope and ends by closing it
      let ownScope := init.isScoped
      let exit := if ownScope then base + 1 else base
      let after := if ownScope then base else next
      let u ← .ofExcept (buildUpdate inAsync (exit + 2) (exit + 1) update)
      let c := u.step ownScope (exit + 2)
      let bodyBase := exit + 2 + c.size
      let b ← body.build (around.enter labels .loop) [] bodyBase c.entry
      let t ← .ofExcept (buildTest inAsync (bodyBase + b.size) b.entry exit test)
      let enter := bodyBase + b.size + t.size
      let i ← .ofExcept (init.build inAsync (enter + 1) enter)
      let loop := Fragment.headLoop exit after labels c b t i
      return if ownScope then loop.inScope base next [] else loop
    | .forIn target subject body =>
      let b ← body.build (around.enter labels .loop) [] (base + 4) (base + 3)
      return .iteration base next labels target subject false true b
    | .forOf target subject body isAwait =>
      let b ← body.build (around.enter labels .loop) [] (base + 4) (base + 3)
      return .iteration base next labels target subject isAwait false b
    | .tryCatch block none none => enclose around labels base next fun around base next => do
        let b ← buildStmts around (base + 2) (base + 1) block
        let b := b.inScope (base + 1) base (declaredFunctions block)
        return ⟨.exitTry next false :: b.code ++ [.enterTry none none b.entry],
          base + 1 + b.size⟩
    | .tryCatch block none (some finalizer) =>
      enclose around labels base next fun around base next => do
        let f ← buildStmts around (base + 2) (base + 1) finalizer
        let f := f.inScope (base + 1) base (declaredFunctions finalizer)
        let exit := base + 1 + f.size
        let b ← buildStmts around (exit + 2) (exit + 1) block
        let b := b.inScope (exit + 1) exit (declaredFunctions block)
        return ⟨.endFinally next :: f.code ++ .exitTry next false :: b.code ++
            [.enterTry none (some f.entry) b.entry],
          exit + 1 + b.size⟩
    | .tryCatch block (some (.mk param handler)) none =>
      enclose around labels base next fun around base next => do
        let h ← buildStmts around (base + 3) (base + 2) handler
        let h := h.inScope (base + 2) (base + 1) (declaredFunctions handler)
        let bind := base + 2 + h.size
        let b ← buildStmts around (bind + 3) (bind + 2) block
        let b := b.inScope (bind + 2) (bind + 1) (declaredFunctions block)
        return ⟨.exitTry next false :: .popScope base :: h.code ++ .bindCatch param h.entry ::
            .exitTry next false :: b.code ++ [.enterTry (some bind) none b.entry],
          bind + 2 + b.size⟩
    | .tryCatch block (some (.mk param handler)) (some finalizer) =>
      enclose around labels base next fun around base next => do
        let f ← buildStmts around (base + 2) (base + 1) finalizer
        let f := f.inScope (base + 1) base (declaredFunctions finalizer)
        let leave := base + 1 + f.size
        let h ← buildStmts around (leave + 3) (leave + 2) handler
        let h := h.inScope (leave + 2) (leave + 1) (declaredFunctions handler)
        let bind := leave + 2 + h.size
        let b ← buildStmts around (bind + 3) (bind + 2) block
        let b := b.inScope (bind + 2) (bind + 1) (declaredFunctions block)
        return ⟨.endFinally next :: f.code ++ .exitTry next false :: .popScope leave :: h.code ++
            .bindCatch param h.entry :: .exitTry next false :: b.code ++
            [.enterTry (some bind) (some f.entry) b.entry],
          bind + 2 + b.size⟩
    | .switch subject cases =>
      let exit := base + 1
      let (code, entries) ← buildCases (around.enter labels .switch) (base + 2) exit cases
      let name ← freshTemp
      let testBase := base + 2 + code.length
      let targets := cases.zip entries
      let t := buildTests name testBase (defaultEntry exit targets) targets
      let store := testBase + t.size
      return ⟨.popScope next :: .exitLoop base :: code ++ t.code ++
          [.evaluate (.expr (.assign .set (.ident name) subject)) t.entry,
            .enterLoop labels .switch none base store,
            .pushScope (cases.flatMap fun c => declaredFunctions c.body) (store + 1)],
        store + 2⟩
    | .declare _ _ => .ofExcept (throw .unloweredDeclaration)
    | .ret _ => .ofExcept (throw .unloweredReturn)
    | .throw _ => .ofExcept (throw .unloweredThrow)
    | .empty | .brk _ | .cont _ | .function _ _ => .ofExcept (throw .unloweredStatement)

def buildStmts (around : Surroundings) (base next : Nat) : List Stmt → Build Fragment
  | [] => return .skip next
  | s :: ss => do
    let rest ← buildStmts around base next ss
    let first ← s.build around [] (base + rest.size) rest.entry
    return ⟨rest.code ++ first.code, first.entry⟩

/-- The bodies of cases, each of which falls through into the one after it, and their entries. -/
def buildCases (around : Surroundings) (base exit : Nat) :
    List Case → Build (List Instr × List Nat)
  | [] => return ([], [])
  | .mk _ body :: cases => do
    let (code, entries) ← buildCases around base exit cases
    let b ← buildStmts around (base + code.length) (entries.headD exit) body
    return (code ++ b.code, b.entry :: entries)

end

end Resumable
