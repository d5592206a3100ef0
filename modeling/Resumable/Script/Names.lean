import Resumable.Script.Tree

/-!
Names that a body binds: those of a pattern in source order, and the `var` names of a function
body, which belong to the whole function however deep they stand.
-/

set_option autoImplicit false

namespace Resumable

mutual

def Pattern.names : Pattern → List String
  | .ident name => [name]
  | .array items => itemNames items
  | .object fields => binderNames fields
  | .withDefault p _ => p.names
  | .rest p => p.names

def itemNames : List (Option Item) → List String
  | [] => []
  | none :: items => itemNames items
  | some (.one p) :: items | some (.rest p) :: items => p.names ++ itemNames items

def binderNames : List Binder → List String
  | [] => []
  | .shorthand name :: fields => name :: binderNames fields
  | .keyed _ p :: fields => p.names ++ binderNames fields

end

def Declarator.names : Declarator → List String
  | .mk p _ => p.names

def declaredVars (kind : VarKind) (ds : List Declarator) : List String :=
  if kind = .var then ds.flatMap Declarator.names else []

def ForInit.varNames : ForInit → List String
  | .declare kind ds => declaredVars kind ds
  | .absent | .expr _ => []

def ForTarget.varNames : ForTarget → List String
  | .declare .var p => p.names
  | .declare _ _ | .assign _ => []

mutual

def Stmt.varNames : Stmt → List String
  | .empty | .expr _ | .ret _ | .brk _ | .cont _ | .throw _ | .function _ _ => []
  | .declare kind ds => declaredVars kind ds
  | .block body => listVarNames body
  | .ifElse _ y none => y.varNames
  | .ifElse _ y (some n) => y.varNames ++ n.varNames
  | .whileDo _ b | .doWhile b _ | .labeled _ b => b.varNames
  | .forLoop init _ _ b => init.varNames ++ b.varNames
  | .forIn target _ b | .forOf target _ b _ => target.varNames ++ b.varNames
  | .tryCatch b none none => listVarNames b
  | .tryCatch b none (some f) => listVarNames b ++ listVarNames f
  | .tryCatch b (some (.mk _ h)) none => listVarNames b ++ listVarNames h
  | .tryCatch b (some (.mk _ h)) (some f) => listVarNames b ++ listVarNames h ++ listVarNames f
  | .switch _ cases => caseVarNames cases

def listVarNames : List Stmt → List String
  | [] => []
  | s :: ss => s.varNames ++ listVarNames ss

def caseVarNames : List Case → List String
  | [] => []
  | .mk _ body :: cases => listVarNames body ++ caseVarNames cases

end

/-- The `var` names of a function body, each once, in order of first appearance. -/
def hoistedNames (body : List Stmt) : List String := (listVarNames body).eraseDups

end Resumable
