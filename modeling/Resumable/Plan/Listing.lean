import Resumable.Plan.Basic
import Resumable.Text.Lines

/-!
Listings: a plan as text, with a row for each instruction. Names are written as they are, so a row
whose names hold newlines takes several lines.
-/

set_option autoImplicit false

namespace Resumable

def Stmt.word : Stmt → String
  | .empty => "empty"
  | .expr _ => "expression"
  | .block _ => "block"
  | .declare _ _ => "declaration"
  | .ifElse _ _ _ => "if"
  | .whileDo _ _ => "while"
  | .doWhile _ _ => "do-while"
  | .forLoop _ _ _ _ => "for"
  | .forIn _ _ _ => "for-in"
  | .forOf _ _ _ _ => "for-of"
  | .ret _ => "return"
  | .brk _ => "break"
  | .cont _ => "continue"
  | .throw _ => "throw"
  | .tryCatch _ _ _ => "try"
  | .switch _ _ => "switch"
  | .labeled _ _ => "labeled"
  | .function _ _ => "function"

def LoopKind.word : LoopKind → String
  | .loop => "loop"
  | .switch => "switch"
  | .block => "block"

namespace Instr

def optional : Option Nat → String
  | some n => Nat.repr n
  | none => "-"

def spaced (words : List String) : String := String.join (words.map (" " ++ ·))

def goesTo (next : Nat) : String := " -> " ++ Nat.repr next

def line : Instr → String
  | .evaluate s next => "evaluate " ++ s.word ++ goesTo next
  | .yield operand next => (if operand.isSome then "yield <expr>" else "yield") ++ goesTo next
  | .yieldStar _ next => "yield* <expr>" ++ goesTo next
  | .await _ next => "await <expr>" ++ goesTo next
  | .store (some slot) next => "store " ++ slot ++ goesTo next
  | .store none next => "discard" ++ goesTo next
  | .jump target => "jump " ++ Nat.repr target
  | .branch _ onTrue onFalse => "branch <cond> ? " ++ Nat.repr onTrue ++ " : " ++ Nat.repr onFalse
  | .enterTry onThrow onExit next =>
    "enter-try catch=" ++ optional onThrow ++ " finally=" ++ optional onExit ++ goesTo next
  | .exitTry next close => (if close then "exit-try close" else "exit-try") ++ goesTo next
  | .bindCatch param next =>
    (if param.isSome then "bind-catch <pattern>" else "bind-catch") ++ goesTo next
  | .endFinally next => "end-finally" ++ goesTo next
  | .pushScope functions next =>
    "push-scope" ++ spaced (functions.map (·.name)) ++ goesTo next
  | .popScope next => "pop-scope" ++ goesTo next
  | .copyScope next => "copy-scope" ++ goesTo next
  | .enterLoop labels kind onContinue onBreak next =>
    "enter-" ++ kind.word ++ spaced (labels.map (· ++ ":")) ++ " continue=" ++ optional onContinue ++
      " break=" ++ Nat.repr onBreak ++ goesTo next
  | .exitLoop next => "exit-loop" ++ goesTo next
  | .brk label => "break" ++ spaced label.toList
  | .cont label => "continue" ++ spaced label.toList
  | .openIterator _ isAsync overKeys next =>
    (if overKeys then "for-in-init" else if isAsync then "for-await-init" else "for-of-init") ++
      goesTo next
  | .moveNext _ _ body exit _ => "move-next body=" ++ Nat.repr body ++ " exit=" ++ Nat.repr exit
  | .ret operand => if operand.isSome then "return <expr>" else "return"
  | .throw _ => "throw <expr>"

end Instr

namespace Plan

def column (n : Nat) : String :=
  let digits := Nat.toDigits 10 n
  String.ofList (List.replicate (4 - digits.length) ' ' ++ digits)

def listCode : Nat → List Instr → List String
  | _, [] => []
  | n, i :: rest => (column n ++ ": " ++ i.line) :: listCode (n + 1) rest

def rows (p : Plan) : List String :=
  let slots := if p.slots.isEmpty then [] else ["slots " ++ ", ".intercalate p.slots]
  ("entry " ++ Nat.repr p.entry) :: slots ++ listCode 0 p.code

def text (p : Plan) : String := Text.joinLines p.rows

def listing (p : Plan) : List String := Text.splitLines p.text

end Plan

end Resumable
