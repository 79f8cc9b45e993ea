import SeriesQuery.Number.Decimal
import SeriesQuery.Number.Binary64

/-!
# Number literals

Literals are decimal, with underscores between digits and an optional multiplier such as `k` or
`MiB`, or whole numbers in base 16, 8 or 2 behind `0x`, `0o` or `0`, and `0b`.

* `splitNumber` — the literal at the start of a text;
* `readPositive`, `readNumber` — the value of a literal.
-/

namespace SeriesQuery

open Text

/-! ## Errors -/

/-- Why a text is no number. -/
inductive NumberError where
  | notNumber (text : String)
  /-- The mark of an exponent is followed by no digit. -/
  | missingExponent (text : String)
  deriving DecidableEq, Repr

namespace NumberError

/-- What the error says. -/
def message : NumberError → String
  | notNumber text => "Expected number: found \x60" ++ text ++ "\x60"
  | missingExponent text =>
      "Expected number: found \x60missing exponent part in " ++ text ++ "\x60"

end NumberError

/-! ## Bases and multipliers -/

/-- The bases of whole numbers that are marked by a leading zero. -/
inductive Base where
  | hex
  | octal
  | binary
  /-- Octal without a letter: a zero and another digit. -/
  | plainOctal
  deriving DecidableEq, Repr

namespace Base

/-- The number of digits in the base. -/
def radix : Base → Nat
  | hex => 16
  | octal => 8
  | binary => 2
  | plainOctal => 8

/-- How many characters mark the base. -/
def markLength : Base → Nat
  | plainOctal => 1
  | _ => 2

/-- The base that the start of a text marks, if any. -/
def ofStart : List Char → Option Base
  | '0' :: c :: _ =>
      if isDigit c then some plainOctal
      else if c.toLower == 'x' then some hex
      else if c.toLower == 'o' then some octal
      else if c.toLower == 'b' then some binary
      else none
  | _ => none

end Base

/-- A letter that opens a multiplier. -/
def isMultiplierLetter (c : Char) : Bool :=
  c == 'k' || c == 'm' || c == 'g' || c == 't'

/-- How many characters of a multiplier stand at the start of a text: `k`, `ki`, `kb` or `kib` in
any case, and the same with `m`, `g` and `t`. -/
def multiplierLength (cs : List Char) : Nat :=
  match (cs.take 3).map Char.toLower with
  | a :: 'i' :: 'b' :: _ => if isMultiplierLetter a then 3 else 0
  | a :: 'i' :: _ => if isMultiplierLetter a then 2 else 0
  | a :: 'b' :: _ => if isMultiplierLetter a then 2 else 0
  | a :: _ => if isMultiplierLetter a then 1 else 0
  | [] => 0

/-- Multipliers in small letters with their values; a longer one stands before its own endings. -/
def multipliers : List (List Char × Float) :=
  [(['k', 'i', 'b'], 1024), (['k', 'i'], 1024), (['k', 'b'], 1e3), (['k'], 1e3),
    (['m', 'i', 'b'], 1048576), (['m', 'i'], 1048576), (['m', 'b'], 1e6), (['m'], 1e6),
    (['g', 'i', 'b'], 1073741824), (['g', 'i'], 1073741824), (['g', 'b'], 1e9), (['g'], 1e9),
    (['t', 'i', 'b'], 1099511627776), (['t', 'i'], 1099511627776), (['t', 'b'], 1e12),
    (['t'], 1e12)]

/-! ## Scanning -/

/-- A decimal digit or an underscore. -/
def isDigitOrUnderscore (c : Char) : Bool :=
  isDigit c || c == '_'

/-- A number may start here: a digit, or a point and a digit. -/
def startsNumber : List Char → Bool
  | '.' :: c :: _ => isDigit c
  | c :: _ => isDigit c
  | [] => false

/-- Splits off the exponent whose mark has been taken. -/
def splitExponent (whole taken rest : List Char) : Except NumberError (List Char × List Char) :=
  let (sign, rest) :=
    match rest with
    | '-' :: r => (['-'], r)
    | '+' :: r => (['+'], r)
    | r => ([], r)
  let (digits, rest) := splitDigits rest
  if digits.isEmpty then .error (.missingExponent (String.ofList whole))
  else .ok (taken ++ sign ++ digits, rest)

/-- Splits off a multiplier, or else an exponent, if there is one. -/
def splitSuffix (whole taken rest : List Char) : Except NumberError (List Char × List Char) :=
  let n := multiplierLength rest
  if 0 < n then .ok (taken ++ rest.take n, rest.drop n)
  else
    match rest with
    | c :: after =>
        if c == 'e' || c == 'E' then splitExponent whole (taken ++ [c]) after
        else .ok (taken, rest)
    | [] => .ok (taken, [])

/-- Splits off what may follow the digits before a point. -/
def splitFraction (whole taken rest : List Char) : Except NumberError (List Char × List Char) :=
  match rest with
  | '.' :: after =>
      splitSuffix whole (taken ++ '.' :: after.takeWhile isDigitOrUnderscore)
        (after.dropWhile isDigitOrUnderscore)
  | _ => splitSuffix whole taken rest

/-- The number at the start of a text, and what follows it. -/
def splitNumber (cs : List Char) : Except NumberError (List Char × List Char) :=
  let base := Base.ofStart cs
  let mark := (base.map Base.markLength).getD 0
  let body := cs.drop mark
  if base = some .hex then
    if (body.takeWhile isHexDigit).isEmpty then .error (.notNumber (String.ofList cs))
    else .ok (cs.take mark ++ body.takeWhile isHexDigit, body.dropWhile isHexDigit)
  else
    let digits := body.takeWhile isDigitOrUnderscore
    let rest := body.dropWhile isDigitOrUnderscore
    if digits.isEmpty && rest.head? != some '.' then .error (.notNumber (String.ofList cs))
    else splitFraction cs (cs.take mark ++ digits) rest

/-! ## Values -/

/-- A whole number with an optional sign that fits 64 bits. -/
def readInt64 (base : Nat) (cs : List Char) : Option Int :=
  let value :=
    match cs with
    | '-' :: digits => (readNat base digits).map fun n => -(n : Int)
    | '+' :: digits => (readNat base digits).map Int.ofNat
    | digits => (readNat base digits).map Int.ofNat
  value.filter fun n => minInt64 ≤ n && n ≤ maxInt64

/-- The number without its multiplier, and the value of the multiplier. -/
def splitMultiplier (cs : List Char) : List Char × Float :=
  match multipliers.find? fun m => m.1.isSuffixOf cs with
  | some (letters, value) => (cs.take (cs.length - letters.length), value)
  | none => (cs, 1.0)

/-- The value of a literal without a sign, if it has one. -/
def positiveValue? (cs : List Char) : Option Float :=
  match Base.ofStart cs with
  | some base =>
      (readInt64 base.radix ((cs.filter (· != '_')).drop base.markLength)).map Float.ofInt
  | none =>
      let (digits, multiplier) := splitMultiplier ((cs.map Char.toLower).filter (· != '_'))
      (readFloat digits).map (· * multiplier)

/-- The value of a literal without a sign. -/
def readPositive (s : String) : Except NumberError Float :=
  match positiveValue? s.toList with
  | some x => .ok x
  | none => .error (.notNumber s)

/-- The value of a literal with an optional sign. -/
def readNumber (s : String) : Except NumberError Float :=
  match s.toList with
  | '-' :: cs => (fun x => -x) <$> readPositive (String.ofList cs)
  | '+' :: cs => readPositive (String.ofList cs)
  | _ => readPositive s

end SeriesQuery
