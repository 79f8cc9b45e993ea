import SeriesQuery.Number.Binary64

/-!
# Shortest digits

The digits written for a float are the fewest that read back as the same float, and of those the
nearest to it; of two equally near the larger.

`Interval` holds the float and the ends of the reals that round to it as fractions over one
denominator.  `shortest` tries one digit, then two, and so on: on each decimal grid only the two
neighbours of the float can be nearest, so only they are tested.
-/

namespace SeriesQuery

/-- Decimal digits and the power of ten that the first of them counts. -/
structure Digits where
  digits : Nat
  /-- The power of ten that the last digit counts. -/
  scale : Int
  deriving DecidableEq, Repr

/-- A positive real and the ends of an interval around it, all three over one denominator. -/
structure Interval where
  low : Nat
  value : Nat
  high : Nat
  denominator : Nat
  /-- The ends belong to the interval. -/
  closed : Bool
  deriving Repr

namespace Interval

/-- The positive reals that round to the float with these parts. -/
def ofBinary (b : Binary64) : Interval :=
  let below := if b.mantissa = Nat.pow 2 52 && -1074 < b.exponent then 1 else 2
  let up := Nat.pow 2 b.exponent.toNat
  { low := (4 * b.mantissa - below) * up
    value := 4 * b.mantissa * up
    high := (4 * b.mantissa + 2) * up
    denominator := 4 * Nat.pow 2 (-b.exponent).toNat
    closed := b.mantissa % 2 = 0 }

/-- The same reals in units of `10 ^ scale`. -/
def inUnits (i : Interval) (scale : Int) : Interval :=
  let up := Nat.pow 10 (-scale).toNat
  { i with
    low := i.low * up
    value := i.value * up
    high := i.high * up
    denominator := i.denominator * Nat.pow 10 scale.toNat }

/-- The whole number lies in the interval. -/
def holds (i : Interval) (n : Nat) : Bool :=
  let x := n * i.denominator
  if i.closed then i.low ≤ x && x ≤ i.high else i.low < x && x < i.high

/-- The whole number of the interval nearest to the value, the larger one of two. -/
def nearest (i : Interval) : Option Nat :=
  let below := i.value / i.denominator
  let above := below + 1
  match i.holds below, i.holds above with
  | false, false => none
  | true, false => some below
  | false, true => some above
  | true, true =>
      if i.value - below * i.denominator < above * i.denominator - i.value then some below
      else some above

/-- The power of ten of the first digit of the value. -/
def magnitude (b : Binary64) : Int :=
  let guess := (((b.mantissa.log2 : Int) + b.exponent) * 30103).fdiv 100000
  let reaches (e : Int) : Bool :=
    let j := (ofBinary b).inUnits e
    j.denominator ≤ j.value
  if !reaches guess then guess - 1
  else if reaches (guess + 1) then guess + 1
  else guess

/-- Tries the grids with `count`, `count + 1`, … digits, `fuel` of them. -/
def search (i : Interval) (top : Int) : Nat → Nat → Digits
  | 0, count => ⟨i.value / i.denominator, top - count⟩
  | fuel + 1, count =>
      let scale := top - count + 1
      match (i.inUnits scale).nearest with
      | some n => ⟨n, scale⟩
      | none => search i top fuel (count + 1)

end Interval

/-- The fewest digits for a positive float; seventeen are always enough. -/
def shortest (b : Binary64) : Digits :=
  (Interval.ofBinary b).search (Interval.magnitude b) 17 1

end SeriesQuery
