/-!
# Binary floating point numbers

Numbers are binary64 floats.  A finite one is `± m · 2 ^ q` with whole `m` and `q`;
`Binary64.ofFloat` gives these three parts, and what has to be exact is computed on them: cutting
off a fraction and the remainder of a division.
-/

namespace SeriesQuery

/-- The parts of a finite float: its sign, and a whole number times a power of two. -/
structure Binary64 where
  negative : Bool
  mantissa : Nat
  exponent : Int
  deriving DecidableEq, Repr

namespace Binary64

/-- The parts of a finite float. -/
def ofFloat (x : Float) : Binary64 :=
  let bits : Nat := x.toBits.toNat
  let field : Nat := bits / Nat.pow 2 52 % 2048
  let fraction : Nat := bits % Nat.pow 2 52
  { negative := bits / Nat.pow 2 63 == 1
    mantissa := if field = 0 then fraction else fraction + Nat.pow 2 52
    exponent := if field = 0 then -1074 else (field : Int) - 1075 }

/-- The float with these parts, where the mantissa has 53 bits at most and the exponent is that of
some float. -/
def toFloat (b : Binary64) : Float :=
  let sign := if b.negative then Nat.pow 2 63 else 0
  let size := b.mantissa.log2 + 1
  let top := b.exponent + size - 1
  let bits :=
    if b.mantissa = 0 then 0
    else if top < -1022 then b.mantissa * Nat.pow 2 (b.exponent + 1074).toNat
    else (top + 1022).toNat * Nat.pow 2 52 + b.mantissa * Nat.pow 2 (53 - size)
  Float.ofBits (UInt64.ofNat (sign + bits))

/-- The absolute value with the fraction cut off. -/
def wholePart (b : Binary64) : Nat :=
  match b.exponent with
  | .ofNat q => b.mantissa * Nat.pow 2 q
  | .negSucc q => b.mantissa / Nat.pow 2 (q + 1)

end Binary64

/-- The sign bit is set. -/
def isSignNegative (x : Float) : Bool :=
  x.toBits.toNat / Nat.pow 2 63 == 1

/-- The largest signed 64-bit number. -/
def maxInt64 : Int := Int.pow 2 63 - 1

/-- The least signed 64-bit number. -/
def minInt64 : Int := -Int.pow 2 63

/-- The signed 64-bit number nearest to the float with its fraction cut off; zero for a NaN. -/
def truncateInt64 (x : Float) : Int :=
  if x.isNaN then 0
  else if x.isInf then (if x < 0 then minInt64 else maxInt64)
  else
    let b := Binary64.ofFloat x
    let whole : Int := b.wholePart
    max minInt64 (min maxInt64 (if b.negative then -whole else whole))

/-- What is left of `x` after taking away a whole multiple of `y`, with the sign of `x`. -/
def remainder (x y : Float) : Float :=
  if x.isNaN || y.isNaN || x.isInf || y == 0 then 0.0 / 0.0
  else if y.isInf then x
  else
    let a := Binary64.ofFloat x
    let b := Binary64.ofFloat y
    let q := min a.exponent b.exponent
    let whole (c : Binary64) : Nat := c.mantissa * Nat.pow 2 (c.exponent - q).toNat
    Binary64.toFloat ⟨a.negative, whole a % whole b, q⟩

end SeriesQuery
