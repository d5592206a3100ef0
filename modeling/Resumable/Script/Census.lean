import Resumable.Script.Suspends

/-!
The census of a body: how many suspend points of each kind, protected regions and loops it has.
-/

set_option autoImplicit false

namespace Resumable

structure Census where
  yields : Nat := 0
  delegates : Nat := 0
  awaits : Nat := 0
  tries : Nat := 0
  loops : Nat := 0
  deriving DecidableEq, Repr

namespace Census

def add (a b : Census) : Census :=
  ⟨a.yields + b.yields, a.delegates + b.delegates, a.awaits + b.awaits, a.tries + b.tries,
    a.loops + b.loops⟩

instance : Add Census := ⟨add⟩

def ofSuspend : Expr → Census
  | .yield _ => ⟨1, 0, 0, 0, 0⟩
  | .yieldStar _ => ⟨0, 1, 0, 0, 0⟩
  | _ => ⟨0, 0, 1, 0, 0⟩

def oneTry : Census := ⟨0, 0, 0, 1, 0⟩

def oneLoop : Census := ⟨0, 0, 0, 0, 1⟩

def oneAwait : Census := ⟨0, 0, 1, 0, 0⟩

def none : Census := ⟨0, 0, 0, 0, 0⟩

def ofExpr (inAsync : Bool) (e : Expr) : Census :=
  (e.suspends inAsync).foldr (fun s c => ofSuspend s + c) none

def ofOption (inAsync : Bool) : Option Expr → Census
  | some e => ofExpr inAsync e
  | Option.none => none

def ofDeclarators (inAsync : Bool) (ds : List Declarator) : Census :=
  ds.foldr (fun | .mk _ init, c => ofOption inAsync init + c) none

def ofForInit (inAsync : Bool) : ForInit → Census
  | .absent => none
  | .declare _ ds => ofDeclarators inAsync ds
  | .expr e => ofExpr inAsync e

mutual

def ofStmt (inAsync : Bool) : Stmt → Census
  | .empty | .brk _ | .cont _ | .function _ _ => none
  | .expr e | .throw e => ofExpr inAsync e
  | .ret e => ofOption inAsync e
  | .block body => ofBody inAsync body
  | .declare _ ds => ofDeclarators inAsync ds
  | .ifElse t y Option.none => ofExpr inAsync t + ofStmt inAsync y
  | .ifElse t y (some n) => ofExpr inAsync t + ofStmt inAsync y + ofStmt inAsync n
  | .whileDo t b | .doWhile b t => oneLoop + ofExpr inAsync t + ofStmt inAsync b
  | .forLoop init t u b =>
    oneLoop + ofForInit inAsync init + ofOption inAsync t + ofOption inAsync u + ofStmt inAsync b
  | .forIn _ e b => oneLoop + ofExpr inAsync e + ofStmt inAsync b
  | .forOf _ e b isAwait =>
    oneLoop + (if isAwait then oneAwait else none) + ofExpr inAsync e + ofStmt inAsync b
  | .tryCatch b Option.none Option.none => oneTry + ofBody inAsync b
  | .tryCatch b Option.none (some f) => oneTry + ofBody inAsync b + ofBody inAsync f
  | .tryCatch b (some (.mk _ h)) Option.none => oneTry + ofBody inAsync b + ofBody inAsync h
  | .tryCatch b (some (.mk _ h)) (some f) =>
    oneTry + ofBody inAsync b + ofBody inAsync h + ofBody inAsync f
  | .switch e cases => ofExpr inAsync e + ofCases inAsync cases
  | .labeled _ s => ofStmt inAsync s

def ofBody (inAsync : Bool) : List Stmt → Census
  | [] => none
  | s :: ss => ofStmt inAsync s + ofBody inAsync ss

def ofCases (inAsync : Bool) : List Case → Census
  | [] => none
  | .mk t body :: cases => ofOption inAsync t + ofBody inAsync body + ofCases inAsync cases

end

end Census

end Resumable
