/-!
Text of script values: a sequence of 16-bit code units, not necessarily well formed.
`ofString` writes characters as units, `toString` reads units as characters and shows a unit that
belongs to no character as the replacement character.
-/

set_option autoImplicit false

namespace Resumable

/-- A script string. -/
structure Text where
  units : List UInt16
  deriving DecidableEq, Repr

namespace Text

def empty : Text := ⟨[]⟩

def isEmpty (t : Text) : Bool := t.units.isEmpty

def length (t : Text) : Nat := t.units.length

def append (s t : Text) : Text := ⟨s.units ++ t.units⟩

instance : Append Text := ⟨append⟩

def get? (t : Text) (i : Nat) : Option UInt16 := t.units[i]?

def encodeChar (c : Char) : List UInt16 :=
  let n := c.toNat
  if n < 0x10000 then [n.toUInt16]
  else [(0xD800 + (n - 0x10000) / 0x400).toUInt16, (0xDC00 + (n - 0x10000) % 0x400).toUInt16]

def encodeChars (cs : List Char) : List UInt16 := cs.flatMap encodeChar

def ofString (s : String) : Text := ⟨encodeChars s.toList⟩

def isHigh (u : UInt16) : Bool := 0xD800 ≤ u.toNat && u.toNat < 0xDC00

def isLow (u : UInt16) : Bool := 0xDC00 ≤ u.toNat && u.toNat < 0xE000

/-- Stands for a unit that belongs to no character. -/
def replacement : Char := Char.ofNat 0xFFFD

def joinSurrogates (high low : UInt16) : Char :=
  Char.ofNat (0x10000 + (high.toNat - 0xD800) * 0x400 + (low.toNat - 0xDC00))

/-- A high unit with a low unit after it is one character, every other surrogate is replaced. -/
def decode : List UInt16 → List Char
  | [] => []
  | [u] => [if isHigh u || isLow u then replacement else Char.ofNat u.toNat]
  | u :: v :: rest =>
    if isHigh u then
      if isLow v then joinSurrogates u v :: decode rest else replacement :: decode (v :: rest)
    else if isLow u then replacement :: decode (v :: rest)
    else Char.ofNat u.toNat :: decode (v :: rest)

def toString (t : Text) : String := String.ofList (decode t.units)

def wellFormed : List UInt16 → Bool
  | [] => true
  | [u] => !(isHigh u || isLow u)
  | u :: v :: rest =>
    if isHigh u then isLow v && wellFormed rest
    else !isLow u && wellFormed (v :: rest)

def isWellFormed (t : Text) : Bool := wellFormed t.units

@[simp] theorem units_append (s t : Text) : (s ++ t).units = s.units ++ t.units := rfl

@[simp] theorem length_append (s t : Text) : (s ++ t).length = s.length + t.length := by
  simp [length]

end Text

end Resumable
