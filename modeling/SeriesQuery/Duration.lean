import SeriesQuery.Number.Format
import SeriesQuery.Number.Literal
import SeriesQuery.Text.Ident
import SeriesQuery.Text.Shown

/-!
# Durations

A duration is a run of parts such as `1h30m` or `2h-5m`: a decimal numeral with a unit, where the
parts after the first may have a sign.  Values are in milliseconds; the unit `i` counts steps of
the evaluation, whose length is passed in.

* `splitDuration` — the duration at the start of a text;
* `durationValue` — the value of a duration, or of a bare number of seconds;
* `Duration` — a duration as it stands in an expression.
-/

namespace SeriesQuery

open Text

/-! ## Units and parts -/

/-- The units of durations. -/
inductive TimeUnit where
  | milliseconds
  | seconds
  | minutes
  | hours
  | days
  | weeks
  | years
  | steps
  deriving DecidableEq, Repr

namespace TimeUnit

/-- The length of the unit in seconds, where a step has `step` milliseconds. -/
def inSeconds (step : Int) : TimeUnit → Float
  | milliseconds => 1e-3
  | seconds => 1.0
  | minutes => 60.0
  | hours => 60.0 * 60.0
  | days => 24.0 * 60.0 * 60.0
  | weeks => 7.0 * 24.0 * 60.0 * 60.0
  | years => 365.0 * 24.0 * 60.0 * 60.0
  | steps => Float.ofInt step / 1e3

/-- The unit that one letter stands for.  A capital `M` is a multiplier, not a unit. -/
def ofLetter (c : Char) : Option TimeUnit :=
  if c == 'm' then some minutes
  else
    match c.toLower with
    | 's' => some seconds
    | 'h' => some hours
    | 'd' => some days
    | 'w' => some weeks
    | 'y' => some years
    | 'i' => some steps
    | _ => none

/-- The unit at the start of a text, and how many characters it has.  After an `m` of either case an
`s` makes milliseconds, and an `i` or `b` a multiplier of numbers. -/
def ofStart : List Char → Option (TimeUnit × Nat)
  | [] => none
  | c :: rest =>
      if c.toLower == 'm' then
        match rest with
        | d :: _ =>
            if d.toLower == 's' then some (milliseconds, 2)
            else if d.toLower == 'i' || d.toLower == 'b' then none
            else (ofLetter c).map (·, 1)
        | [] => (ofLetter c).map (·, 1)
      else (ofLetter c).map (·, 1)

end TimeUnit

/-- One part of a duration: the text of its number and of its unit. -/
structure DurationPart where
  number : List Char
  unit : TimeUnit
  unitText : List Char
  deriving DecidableEq, Repr

namespace DurationPart

/-- The part as it is written. -/
def text (p : DurationPart) : List Char :=
  p.number ++ p.unitText

end DurationPart

/-- The sign and the digits with their point that a part starts with, and what follows them. -/
def splitPartNumber (signed : Bool) (cs : List Char) : List Char × List Char :=
  let (sign, rest) :=
    match signed, cs with
    | true, '-' :: r => (['-'], r)
    | _, r => ([], r)
  let (whole, rest) := splitDigits rest
  match rest with
  | '.' :: afterPoint =>
      if sign.isEmpty && whole.isEmpty then ([], cs)
      else (sign ++ whole ++ '.' :: afterPoint.takeWhile isDigit, afterPoint.dropWhile isDigit)
  | _ => (sign ++ whole, rest)

/-- The part at the start of a text, and what follows it.  Only where it is `signed` may a minus
stand before it. -/
def splitPart (signed : Bool) (cs : List Char) : Option (DurationPart × List Char) :=
  let (number, rest) := splitPartNumber signed cs
  if number.isEmpty then none
  else
    (TimeUnit.ofStart rest).map fun (unit, n) => (⟨number, unit, rest.take n⟩, rest.drop n)

/-- The signed parts at the start of a text, at most `fuel` of them. -/
def splitParts : Nat → List Char → List DurationPart × List Char
  | 0, cs => ([], cs)
  | fuel + 1, cs =>
      match splitPart true cs with
      | some (part, rest) =>
          let (parts, rest) := splitParts fuel rest
          (part :: parts, rest)
      | none => ([], cs)

/-- The duration at the start of a text, and what follows it.  Its first part has no sign. -/
def splitDuration (cs : List Char) : Option (List Char × List Char) :=
  (splitPart false cs).map fun (part, rest) =>
    let (parts, rest) := splitParts rest.length rest
    (part.text ++ parts.flatMap DurationPart.text, rest)

/-- The text is a duration that starts without a sign. -/
def isPositiveDuration (s : String) : Bool :=
  match splitDuration s.toList with
  | some (_, []) => true
  | _ => false

/-! ## Errors -/

/-- Why a text has no value as a duration. -/
inductive DurationError where
  | empty
  | unreadable (text : String)
  /-- The sum of the parts is out of range. -/
  | tooBig (milliseconds : Float)
  | negative (text : String)
  /-- The duration is the name of a template. -/
  | unresolved (name : String)
  /-- A number with a multiplier where a duration is wanted. -/
  | badToken (token : String)
  | badNumber (token : String) (cause : NumberError)

namespace DurationError

/-- What the error says. -/
def detail : DurationError → String
  | empty => "duration cannot be empty"
  | unreadable text => "cannot parse duration " ++ text
  | tooBig milliseconds => "too big duration " ++ formatPlain milliseconds ++ "ms"
  | negative text => "duration cannot be negative; got " ++ text
  | unresolved name => "unresolved duration template " ++ name
  | badToken token => "invalid duration " ++ shown token
  | badNumber token cause => "cannot parse duration " ++ shown token ++ ": " ++ cause.message

/-- What the error says, with the kind of error in front. -/
def message (e : DurationError) : String :=
  "Invalid duration: " ++ e.detail

end DurationError

/-! ## Values -/

namespace DurationPart

/-- The milliseconds of the part. -/
def value (step : Int) (p : DurationPart) : Except DurationError Float :=
  match readFloat p.number with
  | some x => .ok (p.unit.inSeconds step * x * 1e3)
  | none => .error (.unreadable (String.ofList p.text))

end DurationPart

/-- Adds the parts of `cs` to `sum`, which must be all of it.  After a negative part every part
counts as negative. -/
def sumParts (whole : String) (step : Int) :
    Nat → (minus : Bool) → (sum : Float) → List Char → Except DurationError Float
  | _, _, sum, [] => .ok sum
  | 0, _, _, _ => .error (.unreadable whole)
  | fuel + 1, minus, sum, cs =>
      match splitPart true cs with
      | none => .error (.unreadable whole)
      | some (part, rest) => do
          let x ← part.value step
          let x := if minus && x > 0 then -x else x
          sumParts whole step fuel (minus || x < 0) (sum + x) rest

/-- The value of a duration in milliseconds. -/
def partsValue (s : String) (step : Int) : Except DurationError Int := do
  let sum ← sumParts s step s.length false 0.0 s.toList
  if Float.abs sum > 9223372036854775808.0 then .error (.tooBig sum)
  else .ok (truncateInt64 sum)

/-- The value of a duration in milliseconds; a bare number counts seconds. -/
def durationValue (s : String) (step : Int) : Except DurationError Int :=
  if s.isEmpty then .error .empty
  else
    match readFloat s.toList with
    | some x => .ok (truncateInt64 (x * 1000.0))
    | none => partsValue s step

/-- Passes a value on unless it is negative. -/
def requireNonNegative (s : String) (value : Int) : Except DurationError Int :=
  if value < 0 then .error (.negative s) else .ok value

/-- The value of a duration that must not be negative. -/
def positiveDurationValue (s : String) (step : Int) : Except DurationError Int :=
  durationValue s step >>= requireNonNegative s

/-! ## Durations in expressions -/

/-- A duration as it stands in an expression: its text, or the name of a template. -/
structure Duration where
  text : String
  /-- The text is the name of a template that stands for the duration. -/
  isTemplate : Bool := false
  deriving DecidableEq, Repr

namespace Duration

/-- The template that stands for the duration, if it is one. -/
def templateName? (d : Duration) : Option String :=
  if d.isTemplate then some d.text else none

/-- The duration counts steps. -/
def requiresStep (d : Duration) : Bool :=
  !d.isTemplate &&
    match d.text.toList.getLast? with
    | some c => c.toLower == 'i'
    | none => false

/-- The value in milliseconds.  A text that is no duration may still be a number of seconds. -/
def value (d : Duration) (step : Int) : Except DurationError Int :=
  if d.isTemplate then .error (.unresolved d.text)
  else
    match durationValue d.text step with
    | .ok v => .ok v
    | .error e =>
        match readNumber d.text with
        | .ok x => .ok (truncateInt64 (x * 1000.0))
        | .error _ => .error e

/-- The value in milliseconds, which must not be negative. -/
def nonNegativeValue (d : Duration) (step : Int) : Except DurationError Int :=
  d.value step >>= requireNonNegative d.text

/-- The text of the duration. -/
def render (d : Duration) : String :=
  if d.isTemplate then escapeIdent d.text else d.text

end Duration

end SeriesQuery
