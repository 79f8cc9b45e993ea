import SeriesQuery.Number.Shortest

/-!
# Number text

`formatNumber` writes a float with its shortest digits: in plain notation while the power of ten of
the first digit is from -4 to 5, else with an exponent of a sign and two digits at least.
Infinities carry their sign.  `formatPlain` never writes an exponent.
-/

namespace SeriesQuery

/-- Decimal digits of a number without trailing zeros, and the power of ten of the first one. -/
structure Significand where
  digits : List Char
  exponent : Int
  deriving Repr

namespace Significand

/-- Takes the zeros at the end of the digits away. -/
def ofDigits (d : Digits) : Significand :=
  let text := Nat.toDigits 10 d.digits
  { digits := (text.reverse.dropWhile (· == '0')).reverse
    exponent := d.scale + text.length - 1 }

/-- The significand of a positive float. -/
def ofBinary (b : Binary64) : Significand :=
  ofDigits (shortest b)

/-- The digits with the point where it belongs, without an exponent. -/
def plain (s : Significand) : List Char :=
  let before := (s.exponent + 1).toNat
  if s.exponent < 0 then
    ['0', '.'] ++ List.replicate (-s.exponent - 1).toNat '0' ++ s.digits
  else if s.digits.length ≤ before then
    s.digits ++ List.replicate (before - s.digits.length) '0'
  else s.digits.take before ++ '.' :: s.digits.drop before

/-- One digit before the point, and the exponent. -/
def scientific (s : Significand) : List Char :=
  let mantissa :=
    match s.digits with
    | first :: d :: rest => first :: '.' :: d :: rest
    | short => short
  let power := Nat.toDigits 10 s.exponent.natAbs
  let sign := if s.exponent < 0 then '-' else '+'
  mantissa ++ 'e' :: sign :: (List.replicate (2 - power.length) '0' ++ power)

end Significand

/-- Writes a finite float that is not zero by its sign and its significand. -/
def formatWith (write : Significand → List Char) (x : Float) : String :=
  let b := Binary64.ofFloat x
  let digits := write (Significand.ofBinary b)
  String.ofList (if b.negative then '-' :: digits else digits)

/-- The text of a number. -/
def formatNumber (x : Float) : String :=
  if x.isNaN then "NaN"
  else if x.isInf then (if isSignNegative x then "-Inf" else "+Inf")
  else if x == 0 then (if isSignNegative x then "-0" else "0")
  else
    formatWith
      (fun s => if -4 ≤ s.exponent && s.exponent < 6 then s.plain else s.scientific) x

/-- The text of a number without an exponent. -/
def formatPlain (x : Float) : String :=
  if x.isNaN then "NaN"
  else if x.isInf then (if isSignNegative x then "-inf" else "inf")
  else if x == 0 then (if isSignNegative x then "-0" else "0")
  else formatWith Significand.plain x

end SeriesQuery
