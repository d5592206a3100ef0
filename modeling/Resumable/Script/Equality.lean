import Resumable.Script.Tree

/-!
Equality of script trees as a decision. A tree is spelled as a row of words: a mark for each node,
which fixes what follows it, then its names, numbers and parts. Two trees are alike when their rows
are. Numbers compare as numbers, so the two zeros are alike and NaN differs from itself.
-/

set_option autoImplicit false

namespace Resumable

inductive Word where
  | mark (n : Nat)
  | text (s : String)
  | num (x : Float)

namespace Word

def same : Word → Word → Bool
  | .mark m, .mark n => m == n
  | .text s, .text t => s == t
  | .num x, .num y => x == y
  | _, _ => false

def sameRow : List Word → List Word → Bool
  | [], [] => true
  | a :: as, b :: bs => a.same b && sameRow as bs
  | _, _ => false

def flag (b : Bool) : Word := .mark (if b then 1 else 0)

def maybe : Option String → List Word
  | none => [.mark 0]
  | some s => [.mark 1, .text s]

end Word

open Word in
mutual

def Expr.words : Expr → List Word
  | .null => [mark 0]
  | .bool b => [mark 1, flag b]
  | .num x => [mark 2, .num x]
  | .str s => [mark 3, text s]
  | .ident name => [mark 4, text name]
  | .this => [mark 5]
  | .array items => mark 6 :: itemWords items
  | .object ps => mark 7 :: propertyWords ps
  | .function name f => mark 8 :: maybe name ++ f.words
  | .arrow f => mark 9 :: f.words
  | .lambda a ps e => mark 10 :: flag a :: patternsWords ps ++ e.words
  | .unary op e => mark 11 :: mark op.ctorIdx :: e.words
  | .binary op l r => mark 12 :: mark op.ctorIdx :: l.words ++ r.words
  | .logical op l r => mark 13 :: mark op.ctorIdx :: l.words ++ r.words
  | .update op first e => mark 14 :: mark op.ctorIdx :: flag first :: e.words
  | .assign op t v => mark 15 :: mark op.ctorIdx :: t.words ++ v.words
  | .cond t y n => mark 16 :: t.words ++ y.words ++ n.words
  | .call f args => mark 17 :: f.words ++ exprsWords args
  | .new f args => mark 18 :: f.words ++ exprsWords args
  | .dot e name => mark 19 :: e.words ++ [text name]
  | .index e k => mark 20 :: e.words ++ k.words
  | .seq items => mark 21 :: exprsWords items
  | .spread e => mark 22 :: e.words
  | .yield none => [mark 23]
  | .yield (some e) => mark 24 :: e.words
  | .yieldStar none => [mark 25]
  | .yieldStar (some e) => mark 26 :: e.words
  | .await e => mark 27 :: e.words
  | .typeof e => mark 28 :: e.words
  | .void e => mark 29 :: e.words

def exprsWords : List Expr → List Word
  | [] => [mark 0]
  | e :: es => mark 1 :: e.words ++ exprsWords es

def itemWords : List (Option Expr) → List Word
  | [] => [mark 0]
  | none :: es => mark 1 :: itemWords es
  | some e :: es => mark 2 :: e.words ++ itemWords es

def Key.words : Key → List Word
  | .ident s => [mark 0, text s]
  | .str s => [mark 1, text s]
  | .num x => [mark 2, .num x]
  | .computed e => mark 3 :: e.words

def propertyWords : List Property → List Word
  | [] => [mark 0]
  | .mk k v :: ps => mark 1 :: k.words ++ v.words ++ propertyWords ps

def Pattern.words : Pattern → List Word
  | .ident name => [mark 0, text name]
  | .array items => mark 1 :: patternItemWords items
  | .object fields => mark 2 :: binderWords fields
  | .withDefault p e => mark 3 :: p.words ++ e.words
  | .rest p => mark 4 :: p.words

def patternsWords : List Pattern → List Word
  | [] => [mark 0]
  | p :: ps => mark 1 :: p.words ++ patternsWords ps

def patternItemWords : List (Option Item) → List Word
  | [] => [mark 0]
  | none :: items => mark 1 :: patternItemWords items
  | some (.one p) :: items => mark 2 :: p.words ++ patternItemWords items
  | some (.rest p) :: items => mark 3 :: p.words ++ patternItemWords items

def binderWords : List Binder → List Word
  | [] => [mark 0]
  | .shorthand name :: fields => mark 1 :: text name :: binderWords fields
  | .keyed k p :: fields => mark 2 :: k.words ++ p.words ++ binderWords fields

def Func.words : Func → List Word
  | .mk _ kind params body => mark kind.ctorIdx :: patternsWords params ++ stmtsWords body

def declaratorWords : List Declarator → List Word
  | [] => [mark 0]
  | .mk p none :: ds => mark 1 :: p.words ++ declaratorWords ds
  | .mk p (some e) :: ds => mark 2 :: p.words ++ e.words ++ declaratorWords ds

def ForInit.words : ForInit → List Word
  | .absent => [mark 0]
  | .declare kind ds => mark 1 :: mark kind.ctorIdx :: declaratorWords ds
  | .expr e => mark 2 :: e.words

def ForTarget.words : ForTarget → List Word
  | .declare kind p => mark 0 :: mark kind.ctorIdx :: p.words
  | .assign p => mark 1 :: p.words

def Catch.words : Catch → List Word
  | .mk none body => mark 0 :: stmtsWords body
  | .mk (some p) body => mark 1 :: p.words ++ stmtsWords body

def caseWords : List Case → List Word
  | [] => [mark 0]
  | .mk none body :: cases => mark 1 :: stmtsWords body ++ caseWords cases
  | .mk (some e) body :: cases => mark 2 :: e.words ++ stmtsWords body ++ caseWords cases

def optionWords : Option Expr → List Word
  | none => [mark 0]
  | some e => mark 1 :: e.words

def Stmt.words : Stmt → List Word
  | .empty => [mark 0]
  | .expr e => mark 1 :: e.words
  | .block body => mark 2 :: stmtsWords body
  | .declare kind ds => mark 3 :: mark kind.ctorIdx :: declaratorWords ds
  | .ifElse t y none => mark 4 :: t.words ++ y.words
  | .ifElse t y (some n) => mark 5 :: t.words ++ y.words ++ n.words
  | .whileDo t b => mark 6 :: t.words ++ b.words
  | .doWhile b t => mark 7 :: b.words ++ t.words
  | .forLoop i t u b => mark 8 :: i.words ++ optionWords t ++ optionWords u ++ b.words
  | .forIn p e b => mark 9 :: p.words ++ e.words ++ b.words
  | .forOf p e b isAwait => mark 10 :: flag isAwait :: p.words ++ e.words ++ b.words
  | .ret e => mark 11 :: optionWords e
  | .brk label => mark 12 :: maybe label
  | .cont label => mark 13 :: maybe label
  | .throw e => mark 14 :: e.words
  | .tryCatch b none none => mark 15 :: stmtsWords b
  | .tryCatch b (some h) none => mark 16 :: stmtsWords b ++ h.words
  | .tryCatch b none (some f) => mark 17 :: stmtsWords b ++ stmtsWords f
  | .tryCatch b (some h) (some f) => mark 18 :: stmtsWords b ++ h.words ++ stmtsWords f
  | .switch e cases => mark 19 :: e.words ++ caseWords cases
  | .labeled label s => mark 20 :: text label :: s.words
  | .function name f => mark 21 :: text name :: f.words

def stmtsWords : List Stmt → List Word
  | [] => [mark 0]
  | s :: ss => mark 1 :: s.words ++ stmtsWords ss

end

/-- Whether two bodies are alike; where a function is defined does not count. -/
def sameBody (a b : List Stmt) : Bool := Word.sameRow (stmtsWords a) (stmtsWords b)

end Resumable
