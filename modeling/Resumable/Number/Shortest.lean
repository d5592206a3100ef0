import Resumable.Number.Binary

/-!
The shortest decimal that reads back as a given double. The reals that round to
`significand * 2 ^ exponent` form an interval, and the decimals with a given number of digits near
the value form a grid; the first grid with a point in the interval wins. All arithmetic is exact.
-/

set_option autoImplicit false

namespace Resumable

structure Decimal where
  digits : Nat
  exponent : Int
  deriving DecidableEq, Repr

namespace Decimal

def digitCount (n : Nat) : Nat := (Nat.toDigits 10 n).length

def magnitude (n d : Nat) : Int :=
  if d ≤ n then Int.ofNat (digitCount (n / d) - 1)
  else -Int.ofNat (digitCount ((d + n - 1) / n - 1))

/-- The interval of reals that round to a double, scaled to integers over one denominator. -/
structure Interval where
  low : Nat
  value : Nat
  high : Nat
  denominator : Nat
  closed : Bool

/-- Half the gap to each neighbour; the gap below a power of two is half as wide. -/
def Interval.of (significand : Nat) (exponent : Int) : Interval :=
  let below := if significand == Nat.pow 2 52 && Binary.leastExponent < exponent then 1 else 2
  let up := Nat.pow 2 (exponent - 2).toNat
  { low := (4 * significand - below) * up
    value := 4 * significand * up
    high := (4 * significand + 2) * up
    denominator := Nat.pow 2 (2 - exponent).toNat
    closed := significand % 2 == 0 }

def Interval.scale (i : Interval) (e : Int) : Interval :=
  let up := Nat.pow 10 (-e).toNat
  { i with
    low := i.low * up
    value := i.value * up
    high := i.high * up
    denominator := i.denominator * Nat.pow 10 e.toNat }

def Interval.contains (i : Interval) (n : Nat) : Bool :=
  let x := n * i.denominator
  if i.closed then i.low ≤ x && x ≤ i.high else i.low < x && x < i.high

def Interval.nearest? (i : Interval) : Option Nat :=
  let below := i.value / i.denominator
  let above := below + 1
  match i.contains below, i.contains above with
  | false, false => none
  | true, false => some below
  | false, true => some above
  | true, true =>
    let down := i.value - below * i.denominator
    let up := above * i.denominator - i.value
    if down < up then some below
    else if up < down then some above
    else if below % 2 == 0 then some below else some above

def search (i : Interval) (top : Int) : Nat → Nat → Decimal
  | 0, count => ⟨i.value / i.denominator, top + 1 - Int.ofNat count⟩
  | fuel + 1, count =>
    let e := top + 1 - Int.ofNat count
    match (i.scale e).nearest? with
    | some n => ⟨n, e⟩
    | none => search i top fuel (count + 1)

/-- Seventeen digits always suffice for a double. -/
def shortest (significand : Nat) (exponent : Int) : Decimal :=
  let i := Interval.of significand exponent
  search i (magnitude i.value i.denominator) 17 1

end Decimal

end Resumable
