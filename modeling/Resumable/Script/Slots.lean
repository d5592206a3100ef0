import Resumable.Script.Tree

/-!
Slots: names that start with `%`, which no program text can spell. A body writes a slot by an
assignment that stands as a statement of its own, or as an item of a sequence in such a place or in
the head of a loop.
-/

set_option autoImplicit false

namespace Resumable

def isSlotName (name : String) : Bool := name.toList.head? == some '%'

mutual

def Expr.slots : Expr → List String
  | .assign .set (.ident name) _ => if isSlotName name then [name] else []
  | .seq items => listSlots items
  | _ => []

def listSlots : List Expr → List String
  | [] => []
  | e :: es => e.slots ++ listSlots es

end

def optionSlots : Option Expr → List String
  | some e => e.slots
  | none => []

def ForInit.slots : ForInit → List String
  | .expr e => e.slots
  | .absent | .declare _ _ => []

mutual

def Stmt.slots : Stmt → List String
  | .empty | .declare _ _ | .ret _ | .brk _ | .cont _ | .throw _ | .function _ _ => []
  | .expr e => e.slots
  | .block body => bodySlots body
  | .ifElse _ y none => y.slots
  | .ifElse _ y (some n) => y.slots ++ n.slots
  | .whileDo t b => t.slots ++ b.slots
  | .doWhile b t => b.slots ++ t.slots
  | .forLoop init t u b => init.slots ++ optionSlots t ++ optionSlots u ++ b.slots
  | .forIn _ _ b | .forOf _ _ b _ | .labeled _ b => b.slots
  | .tryCatch b none none => bodySlots b
  | .tryCatch b none (some f) => bodySlots b ++ bodySlots f
  | .tryCatch b (some (.mk _ h)) none => bodySlots b ++ bodySlots h
  | .tryCatch b (some (.mk _ h)) (some f) => bodySlots b ++ bodySlots h ++ bodySlots f
  | .switch _ cases => caseSlots cases

def bodySlots : List Stmt → List String
  | [] => []
  | s :: ss => s.slots ++ bodySlots ss

def caseSlots : List Case → List String
  | [] => []
  | .mk _ body :: cases => bodySlots body ++ caseSlots cases

end

/-- The slots that a body writes, each once, in the order of the first write. -/
def writtenSlots (body : List Stmt) : List String := (bodySlots body).eraseDups

end Resumable
