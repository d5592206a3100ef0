import Resumable.Script.Tree

/-!
Suspend points. `Expr.suspends` lists the suspend expressions of an expression in the order in
which they are reached, operands first; functions inside keep theirs to themselves. An `await`
suspends only in an asynchronous body, which the flag `inAsync` says.
-/

set_option autoImplicit false

namespace Resumable

mutual

def Expr.suspends (inAsync : Bool) : Expr → List Expr
  | .null | .bool _ | .num _ | .str _ | .ident _ | .this => []
  | .function _ _ | .arrow _ | .lambda _ _ _ => []
  | .array items => itemsSuspends inAsync items
  | .object properties => propertiesSuspends inAsync properties
  | .unary _ e | .update _ _ e | .spread e | .typeof e | .void e | .dot e _ => e.suspends inAsync
  | .binary _ l r | .logical _ l r | .assign _ l r | .index l r =>
    l.suspends inAsync ++ r.suspends inAsync
  | .cond t y n => t.suspends inAsync ++ y.suspends inAsync ++ n.suspends inAsync
  | .call f args | .new f args => f.suspends inAsync ++ listSuspends inAsync args
  | .seq items => listSuspends inAsync items
  | .yield none => [.yield none]
  | .yield (some e) => e.suspends inAsync ++ [.yield (some e)]
  | .yieldStar none => [.yieldStar none]
  | .yieldStar (some e) => e.suspends inAsync ++ [.yieldStar (some e)]
  | .await e => e.suspends inAsync ++ if inAsync then [.await e] else []

def listSuspends (inAsync : Bool) : List Expr → List Expr
  | [] => []
  | e :: es => e.suspends inAsync ++ listSuspends inAsync es

def itemsSuspends (inAsync : Bool) : List (Option Expr) → List Expr
  | [] => []
  | none :: es => itemsSuspends inAsync es
  | some e :: es => e.suspends inAsync ++ itemsSuspends inAsync es

def propertiesSuspends (inAsync : Bool) : List Property → List Expr
  | [] => []
  | .mk (.computed k) v :: ps =>
    k.suspends inAsync ++ v.suspends inAsync ++ propertiesSuspends inAsync ps
  | .mk (.ident _) v :: ps | .mk (.str _) v :: ps | .mk (.num _) v :: ps =>
    v.suspends inAsync ++ propertiesSuspends inAsync ps

end

def Expr.isYield : Expr → Bool
  | .yield _ | .yieldStar _ => true
  | _ => false

def Expr.hasSuspend (inAsync : Bool) (e : Expr) : Bool := !(e.suspends inAsync).isEmpty

def Expr.yields (e : Expr) : List Expr := e.suspends false

/-- Whether an operand of a `yield` yields itself. -/
def Expr.nestsYield (e : Expr) : Bool :=
  e.yields.any fun
    | .yield (some operand) | .yieldStar (some operand) => !operand.yields.isEmpty
    | _ => false

def Key.hasSuspend (inAsync : Bool) : Key → Bool
  | .computed k => k.hasSuspend inAsync
  | .ident _ | .str _ | .num _ => false

mutual

def Pattern.hasSuspend (inAsync : Bool) : Pattern → Bool
  | .ident _ => false
  | .array items => itemsHaveSuspend inAsync items
  | .object fields => bindersHaveSuspend inAsync fields
  | .withDefault p e => p.hasSuspend inAsync || e.hasSuspend inAsync
  | .rest p => p.hasSuspend inAsync

def itemsHaveSuspend (inAsync : Bool) : List (Option Item) → Bool
  | [] => false
  | none :: items => itemsHaveSuspend inAsync items
  | some (.one p) :: items | some (.rest p) :: items =>
    p.hasSuspend inAsync || itemsHaveSuspend inAsync items

def bindersHaveSuspend (inAsync : Bool) : List Binder → Bool
  | [] => false
  | .shorthand _ :: fields => bindersHaveSuspend inAsync fields
  | .keyed key p :: fields =>
    key.hasSuspend inAsync || p.hasSuspend inAsync || bindersHaveSuspend inAsync fields

end

def Declarator.hasSuspend (inAsync : Bool) : Declarator → Bool
  | .mk p init => init.any (·.hasSuspend inAsync) || p.hasSuspend inAsync

def ForInit.hasSuspend (inAsync : Bool) : ForInit → Bool
  | .absent => false
  | .declare _ ds => ds.any (·.hasSuspend inAsync)
  | .expr e => e.hasSuspend inAsync

mutual

/-- Whether the statement holds a suspend point. In an asynchronous body a `for await` loop is one
by itself. -/
def Stmt.hasSuspend (inAsync : Bool) : Stmt → Bool
  | .empty | .brk _ | .cont _ | .function _ _ => false
  | .expr e | .throw e => e.hasSuspend inAsync
  | .block body => anySuspend inAsync body
  | .declare _ ds => ds.any (·.hasSuspend inAsync)
  | .ifElse t y none => t.hasSuspend inAsync || y.hasSuspend inAsync
  | .ifElse t y (some n) => t.hasSuspend inAsync || y.hasSuspend inAsync || n.hasSuspend inAsync
  | .whileDo t b | .doWhile b t => t.hasSuspend inAsync || b.hasSuspend inAsync
  | .forLoop i t u b =>
    i.hasSuspend inAsync || t.any (·.hasSuspend inAsync) || u.any (·.hasSuspend inAsync) ||
      b.hasSuspend inAsync
  | .forIn p e b => e.hasSuspend inAsync || b.hasSuspend inAsync || p.pattern.hasSuspend inAsync
  | .forOf p e b isAwait =>
    (isAwait && inAsync) || e.hasSuspend inAsync || b.hasSuspend inAsync ||
      p.pattern.hasSuspend inAsync
  | .ret e => e.any (·.hasSuspend inAsync)
  | .tryCatch b none none => anySuspend inAsync b
  | .tryCatch b none (some f) => anySuspend inAsync b || anySuspend inAsync f
  | .tryCatch b (some (.mk p h)) none =>
    anySuspend inAsync b || anySuspend inAsync h || p.any (·.hasSuspend inAsync)
  | .tryCatch b (some (.mk p h)) (some f) =>
    anySuspend inAsync b || anySuspend inAsync h || p.any (·.hasSuspend inAsync) ||
      anySuspend inAsync f
  | .switch e cases => e.hasSuspend inAsync || casesHaveSuspend inAsync cases
  | .labeled _ s => s.hasSuspend inAsync

def anySuspend (inAsync : Bool) : List Stmt → Bool
  | [] => false
  | s :: ss => s.hasSuspend inAsync || anySuspend inAsync ss

def casesHaveSuspend (inAsync : Bool) : List Case → Bool
  | [] => false
  | .mk t body :: cases =>
    t.any (·.hasSuspend inAsync) || anySuspend inAsync body || casesHaveSuspend inAsync cases

end

end Resumable
