import SeriesQuery.Text.Numeral

/-!
# Digits in a base

Values of single digits, numerals in a base, and hexadecimal text of a least width.
-/

namespace SeriesQuery
namespace Text

/-- The value of a digit up to `z`, whatever its case. -/
def digitValue (c : Char) : Option Nat :=
  if isDigit c then some (c.toNat - 48)
  else if 'a' ≤ c && c ≤ 'z' then some (c.toNat - 87)
  else if 'A' ≤ c && c ≤ 'Z' then some (c.toNat - 55)
  else none

/-- The value of a digit of the base, if it is one. -/
def digitIn (base : Nat) (c : Char) : Option Nat :=
  (digitValue c).filter (· < base)

/-- A hexadecimal digit. -/
def isHexDigit (c : Char) : Bool :=
  (digitIn 16 c).isSome

/-- Reads on from `acc` with the most significant digit first; fails at a character that is no
digit of the base. -/
def readDigits (base : Nat) : List Char → Nat → Option Nat
  | [], acc => some acc
  | c :: rest, acc =>
      match digitIn base c with
      | some d => readDigits base rest (acc * base + d)
      | none => none

/-- A numeral in the base: one digit at least, and nothing else. -/
def readNat (base : Nat) : List Char → Option Nat
  | [] => none
  | cs => readDigits base cs 0

/-- A numeral in the base that one plus sign may precede. -/
def readUnsigned (base : Nat) : List Char → Option Nat
  | '+' :: cs => readNat base cs
  | cs => readNat base cs

/-- The character with this number, if the number is that of a character. -/
def charOfNat? (n : Nat) : Option Char :=
  if n.isValidChar then some (Char.ofNat n) else none

/-- The hexadecimal digit for a value below sixteen, in lower case. -/
def hexDigit (n : Nat) : Char :=
  Nat.digitChar n

/-- The `width` low hexadecimal digits of the number. -/
def hexFixed : Nat → Nat → List Char
  | 0, _ => []
  | width + 1, n => hexFixed width (n / 16) ++ [hexDigit (n % 16)]

/-- The hexadecimal digits of the number, without leading zeros. -/
def hexDigits (n : Nat) : List Char :=
  Nat.toDigits 16 n

/-- The hexadecimal digits of the number, with leading zeros up to the width. -/
def hexPadded (width n : Nat) : List Char :=
  if n < Nat.pow 16 width then hexFixed width n else hexDigits n

end Text
end SeriesQuery
