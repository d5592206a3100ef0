import Resumable.Number.Binary
import Resumable.Text.Blank

/-!
Numbers read from text, and the decimal numerals that name array positions.
-/

set_option autoImplicit false

namespace Resumable.Number

def digitValue (base : Nat) (c : Char) : Option Nat :=
  let v :=
    if '0' ≤ c && c ≤ '9' then c.toNat - '0'.toNat
    else if 'a' ≤ c && c ≤ 'z' then c.toNat - 'a'.toNat + 10
    else if 'A' ≤ c && c ≤ 'Z' then c.toNat - 'A'.toNat + 10
    else base
  if v < base then some v else none

def digits? (base : Nat) (cs : List Char) : Option Nat :=
  if cs.isEmpty then none
  else cs.foldl (fun n c => do return (← n) * base + (← digitValue base c)) (some 0)

/-- A position: decimal digits, perhaps after a plus sign, below `2 ^ 64`. -/
def position? (s : String) : Option Nat :=
  let cs := match s.toList with
    | '+' :: rest => rest
    | cs => cs
  (digits? 10 cs).filter (· < Nat.pow 2 64)

def hex? (cs : List Char) : Option Int :=
  let n : Option Int := match cs with
    | '-' :: rest => (digits? 16 rest).map fun n => -Int.ofNat n
    | '+' :: rest => (digits? 16 rest).map Int.ofNat
    | rest => (digits? 16 rest).map Int.ofNat
  n.filter fun n => -9223372036854775808 ≤ n && n < 9223372036854775808

def isDigit (c : Char) : Bool := '0' ≤ c && c ≤ '9'

def exponent? : List Char → Option Int
  | [] => some 0
  | c :: cs =>
    if c == 'e' || c == 'E' then
      match cs with
      | '-' :: rest => (digits? 10 rest).map fun n => -Int.ofNat n
      | '+' :: rest => (digits? 10 rest).map Int.ofNat
      | rest => (digits? 10 rest).map Int.ofNat
    else none

/-- Beyond these magnitudes every decimal is infinite or zero. -/
def magnitudeLimit : Int := 400

def scaled (n : Nat) (e : Int) : Float :=
  let top := Int.ofNat (Nat.toDigits 10 n).length + e
  if n == 0 || top < -magnitudeLimit then 0.0
  else if magnitudeLimit < top then infinity
  else Float.ofScientific n (e < 0) e.natAbs

/-- Digits with at most one point, at least one of them, and perhaps an exponent. -/
def decimal? (cs : List Char) : Option Float := do
  let whole := cs.takeWhile isDigit
  let rest := cs.dropWhile isDigit
  let (fraction, rest) := match rest with
    | '.' :: rest => (rest.takeWhile isDigit, rest.dropWhile isDigit)
    | rest => ([], rest)
  let n ← digits? 10 (whole ++ fraction)
  let e ← exponent? rest
  return scaled n (e - Int.ofNat fraction.length)

def unsigned? (cs : List Char) : Option Float :=
  let word := String.ofList (cs.map Char.toLower)
  if word == "inf" || word == "infinity" then some infinity
  else if word == "nan" then some nan
  else decimal? cs

def signed? : List Char → Option Float
  | '-' :: rest => (unsigned? rest).map fun x => -x
  | '+' :: rest => unsigned? rest
  | cs => unsigned? cs

/-- The number a text stands for: blanks around it do not count, nothing is zero, and what is no
number is NaN. -/
def ofString (s : String) : Float :=
  match Text.trimBlank s.toList with
  | [] => 0.0
  | '0' :: 'x' :: rest => ((hex? rest).map Float.ofInt).getD nan
  | '0' :: 'X' :: rest => ((hex? rest).map Float.ofInt).getD nan
  | cs => (signed? cs).getD nan

end Resumable.Number
