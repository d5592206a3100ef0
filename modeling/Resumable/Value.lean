import Resumable.Number.Layout
import Resumable.Number.Reading
import Resumable.Number.Word
import Resumable.Script.Tree
import Resumable.Text

/-!
Script values, the conversions between them and the comparisons that look at no object.
-/

set_option autoImplicit false

namespace Resumable

abbrev ObjectId := Nat

/-- A symbol is told apart by its number alone. -/
structure Symbol where
  id : Nat
  description : Option Text
  deriving DecidableEq, Repr

inductive WellKnown where
  | iterator
  | asyncIterator
  | toStringTag
  deriving DecidableEq, Repr

namespace WellKnown

def description : WellKnown → String
  | .iterator => "Symbol.iterator"
  | .asyncIterator => "Symbol.asyncIterator"
  | .toStringTag => "Symbol.toStringTag"

def key (s : WellKnown) : String := "Symbol(" ++ s.description ++ ")"

/-- Reserved numbers at the top of the 64-bit range; other symbols count up from one. -/
def symbol (s : WellKnown) : Symbol :=
  let id := match s with
    | .iterator => Nat.pow 2 64 - 1
    | .asyncIterator => Nat.pow 2 64 - 2
    | .toStringTag => Nat.pow 2 64 - 3
  ⟨id, some (.ofString s.description)⟩

end WellKnown

namespace Symbol

def display (s : Symbol) : String :=
  "Symbol(" ++ (s.description.map Text.toString).getD "" ++ ")"

/-- Well-known symbols, whose descriptions start with `Symbol.`, are keys by their description;
every other symbol by its number too. -/
def key (s : Symbol) : String :=
  match s.description with
  | some d =>
    if "Symbol.".toList.isPrefixOf d.toString.toList then s.display
    else s.display ++ "#" ++ Nat.repr s.id
  | none => s.display ++ "#" ++ Nat.repr s.id

end Symbol

inductive Value where
  | undefined
  | null
  | bool (b : Bool)
  | num (x : Float)
  | str (t : Text)
  | sym (s : Symbol)
  | obj (id : ObjectId)

instance : Inhabited Value := ⟨.undefined⟩

namespace Value

def ofString (s : String) : Value := .str (.ofString s)

def ofNat (n : Nat) : Value := .num (.ofNat n)

def isUndefined : Value → Bool
  | .undefined => true
  | _ => false

def isNullish : Value → Bool
  | .undefined | .null => true
  | _ => false

def isObject : Value → Bool
  | .obj _ => true
  | _ => false

def isString : Value → Bool
  | .str _ => true
  | _ => false

def object? : Value → Option ObjectId
  | .obj id => some id
  | _ => none

def number? : Value → Option Float
  | .num x => some x
  | _ => none

def display : Value → String
  | .undefined => "undefined"
  | .null => "null"
  | .bool b => if b then "true" else "false"
  | .num x => Number.text x
  | .str t => t.toString
  | .sym s => s.display
  | .obj _ => "[object Object]"

def truthy : Value → Bool
  | .undefined | .null => false
  | .bool b => b
  | .num x => x != 0.0 && !x.isNaN
  | .str t => !t.isEmpty
  | .sym _ | .obj _ => true

def toNumber : Value → Float
  | .undefined => Number.nan
  | .null => 0.0
  | .bool b => if b then 1.0 else 0.0
  | .num x => x
  | .str t => Number.ofString t.toString
  | .sym _ | .obj _ => Number.nan

def toKey : Value → String
  | .sym s => s.key
  | v => v.display

def strictEq : Value → Value → Bool
  | .undefined, .undefined => true
  | .null, .null => true
  | .bool a, .bool b => a == b
  | .num a, .num b => a == b
  | .str a, .str b => a == b
  | .sym a, .sym b => a.id == b.id
  | .obj a, .obj b => a == b
  | _, _ => false

def sameValueZero : Value → Value → Bool
  | .num a, .num b => a == b || (a.isNaN && b.isNaN)
  | a, b => strictEq a b

def unbool : Value → Value
  | .bool b => .num (if b then 1.0 else 0.0)
  | v => v

/-- Equality after conversion: booleans and texts against numbers, null against undefined. -/
def looseEq (a b : Value) : Bool :=
  match a.unbool, b.unbool with
  | .null, .undefined => true
  | .undefined, .null => true
  | .num x, .str t => x == Number.ofString t.toString
  | .str t, .num x => Number.ofString t.toString == x
  | a, b => strictEq a b

def less? (a b : Value) : Option Bool :=
  match a, b with
  | .str s, .str t => some (decide (s.toString < t.toString))
  | a, b =>
    let x := a.toNumber
    let y := b.toNumber
    if x.isNaN || y.isNaN then none else some (decide (x < y))

end Value

end Resumable
