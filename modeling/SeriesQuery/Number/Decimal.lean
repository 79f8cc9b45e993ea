import SeriesQuery.Text.Case
import SeriesQuery.Text.Hex

/-!
# Decimal numerals

A numeral is digits with an optional point among or beside them, an optional exponent and an
optional sign, or a word for an infinity or for no number.  `readFloat` gives the nearest float.
-/

namespace SeriesQuery

open Text

/-- A whole number times a power of ten. -/
structure Decimal where
  digits : Nat
  exponent : Int
  deriving DecidableEq, Repr

namespace Decimal

/-- The nearest float.  Exponents far outside the range of floats are answered without computing
the power. -/
def toFloat (d : Decimal) : Float :=
  if d.digits = 0 then 0.0
  else if 400 < d.exponent then 1.0 / 0.0
  else if d.exponent + d.digits.log2 / 3 + 1 < -400 then 0.0
  else Float.ofScientific d.digits (d.exponent < 0) d.exponent.natAbs

end Decimal

/-- Splits off the digits at the start. -/
def splitDigits (cs : List Char) : List Char × List Char :=
  (cs.takeWhile isDigit, cs.dropWhile isDigit)

/-- The exponent that ends a numeral: nothing, or `e`, an optional sign and digits. -/
def readExponent : List Char → Option Int
  | [] => some 0
  | c :: rest =>
      if c == 'e' || c == 'E' then
        match rest with
        | '-' :: digits => (readNat 10 digits).map fun n => -(n : Int)
        | '+' :: digits => (readNat 10 digits).map Int.ofNat
        | digits => (readNat 10 digits).map Int.ofNat
      else none

/-- Puts the digits before and after the point together. -/
def joinDigits (whole fraction rest : List Char) : Option Decimal := do
  let digits ← readNat 10 (whole ++ fraction)
  let exponent ← readExponent rest
  pure ⟨digits, exponent - fraction.length⟩

/-- A numeral without a sign. -/
def readDecimal (cs : List Char) : Option Decimal :=
  let (whole, rest) := splitDigits cs
  match rest with
  | '.' :: afterPoint =>
      let (fraction, rest) := splitDigits afterPoint
      joinDigits whole fraction rest
  | rest => joinDigits whole [] rest

/-- A numeral or one of the words, without a sign. -/
def readMagnitude (cs : List Char) : Option Float :=
  let word := cs.map Char.toLower
  if word = "inf".toList || word = "infinity".toList then some (1.0 / 0.0)
  else if word = "nan".toList then some (0.0 / 0.0)
  else (readDecimal cs).map Decimal.toFloat

/-- A numeral or one of the words, with an optional sign. -/
def readFloat : List Char → Option Float
  | '-' :: cs => (readMagnitude cs).map fun x => -x
  | '+' :: cs => readMagnitude cs
  | cs => readMagnitude cs

end SeriesQuery
