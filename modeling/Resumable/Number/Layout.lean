import Resumable.Number.Shortest

/-!
Numbers as text: the shortest digits, laid out positionally or with an exponent.
-/

set_option autoImplicit false

namespace Resumable

/-- The values written without an exponent: `10 ^ least ≤ x < 10 ^ most`. -/
structure Layout where
  least : Int
  most : Int

def Layout.script : Layout := ⟨-6, 21⟩

namespace Layout

def zeros (n : Nat) : List Char := List.replicate n '0'

def stripZeros (cs : List Char) : List Char := (cs.reverse.dropWhile (· == '0')).reverse

def write (f : Layout) (digits : List Char) (point : Int) : List Char :=
  let count := Int.ofNat digits.length
  if f.least < point && point ≤ f.most then
    if count ≤ point then digits ++ zeros (point - count).toNat
    else if 0 < point then digits.take point.toNat ++ '.' :: digits.drop point.toNat
    else '0' :: '.' :: zeros (-point).toNat ++ digits
  else
    let e := point - 1
    let mark := if 0 ≤ e then ['e', '+'] else ['e', '-']
    let fraction := if digits.length ≤ 1 then [] else '.' :: digits.drop 1
    digits.take 1 ++ fraction ++ mark ++ Nat.toDigits 10 e.natAbs

end Layout

namespace Number

def text (x : Float) : String :=
  match Binary.ofFloat? x with
  | none => if x.isNaN then "NaN" else if 0.0 < x then "Infinity" else "-Infinity"
  | some b =>
    if b.significand == 0 then "0"
    else
      let d := Decimal.shortest b.significand b.exponent
      let all := Nat.toDigits 10 d.digits
      let body := Layout.script.write (Layout.stripZeros all) (Int.ofNat all.length + d.exponent)
      String.ofList (if b.negative then '-' :: body else body)

/-- The text that tells the two zeros apart. -/
def exactText (x : Float) : String :=
  if x.toBits == 0x8000000000000000 then "-0" else text x

end Number

end Resumable
