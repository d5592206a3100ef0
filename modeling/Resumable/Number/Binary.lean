/-!
The exact value of a finite double, `± significand * 2 ^ exponent`, and arithmetic that needs it:
truncation to an integer and the remainder with the sign of the dividend.
-/

set_option autoImplicit false

namespace Resumable

/-- The number `± significand * 2 ^ exponent`. -/
structure Binary where
  negative : Bool
  significand : Nat
  exponent : Int
  deriving DecidableEq, Repr

namespace Binary

def leastExponent : Int := -1074

def ofFloat? (x : Float) : Option Binary :=
  let bits := x.toBits.toNat
  let negative := bits / Nat.pow 2 63 == 1
  let biased := bits / Nat.pow 2 52 % 2048
  let fraction := bits % Nat.pow 2 52
  if biased == 2047 then none
  else if biased == 0 then some ⟨negative, fraction, leastExponent⟩
  else some ⟨negative, Nat.pow 2 52 + fraction, Int.ofNat biased - 1075⟩

/-- The double with this exact value, for a significand below `2 ^ 53`. -/
def toFloat (b : Binary) : Float :=
  let sign := if b.negative then Nat.pow 2 63 else 0
  if b.significand == 0 then Float.ofBits (Nat.toUInt64 sign)
  else
    let shift := min (52 - b.significand.log2) (b.exponent - leastExponent).toNat
    let m := b.significand * Nat.pow 2 shift
    let q := b.exponent - Int.ofNat shift
    let hidden := Nat.pow 2 52
    let magnitude := if m < hidden then m else (q + 1075).toNat * hidden + (m - hidden)
    Float.ofBits (Nat.toUInt64 (sign + magnitude))

def truncate (b : Binary) : Int :=
  let magnitude :=
    if 0 ≤ b.exponent then b.significand * Nat.pow 2 b.exponent.toNat
    else b.significand / Nat.pow 2 (-b.exponent).toNat
  if b.negative then -Int.ofNat magnitude else Int.ofNat magnitude

/-- The difference `x - n * y` for the integer part `n` of `x / y`; exact, with the sign of `x`. -/
def remainder (x y : Binary) : Binary :=
  let q := min x.exponent y.exponent
  let m := x.significand * Nat.pow 2 (x.exponent - q).toNat
  let n := y.significand * Nat.pow 2 (y.exponent - q).toNat
  ⟨x.negative, m % n, q⟩

end Binary

namespace Number

def nan : Float := 0.0 / 0.0

def infinity : Float := 1.0 / 0.0

def remainder (x y : Float) : Float :=
  match Binary.ofFloat? x, Binary.ofFloat? y with
  | some a, some b => if b.significand == 0 then nan else (a.remainder b).toFloat
  | some _, none => if y.isNaN then nan else x
  | none, _ => nan

def truncate (x : Float) : Int :=
  match Binary.ofFloat? x with
  | some b => b.truncate
  | none => 0

end Number

end Resumable
