import SeriesQuery.Number.Binary64
import SeriesQuery.Operator.Basic

/-!
# Operators on constants

`Operator.evalScalar` applies an operator to two numbers, where NaN stands for a missing value, and
`Operator.compareStrings` compares two strings.
-/

namespace SeriesQuery

/-- No value. -/
def noValue : Float := 0.0 / 0.0

/-- Equality of numbers, where NaN equals itself. -/
def sameValue (x y : Float) : Bool :=
  x == y || (x.isNaN && y.isNaN)

namespace Operator

/-- How two numbers compare under a comparison. -/
def comparesNumbers (op : Operator) (x y : Float) : Bool :=
  match op with
  | eql => sameValue x y
  | notEq => !sameValue x y
  | lt => decide (x < y)
  | gt => decide (y < x)
  | lte => decide (x ≤ y)
  | gte => decide (y ≤ x)
  | _ => false

/-- The value of a comparison: the left side or no value, or else one or zero. -/
def comparisonValue (asBool : Bool) (holds : Bool) (x : Float) : Float :=
  match asBool, holds with
  | true, true => 1.0
  | true, false => 0.0
  | false, true => x
  | false, false => noValue

/-- The operator applied to two numbers. -/
def evalScalar (op : Operator) (asBool : Bool) (x y : Float) : Float :=
  match op with
  | add => x + y
  | sub => x - y
  | mul => x * y
  | div => x / y
  | mod => remainder x y
  | pow => Float.pow x y
  | atan2 => Float.atan2 x y
  | and => if x.isNaN || y.isNaN then noValue else x
  | or => if x.isNaN then y else x
  | fallback => if x.isNaN then y else x
  | onlyIf => if y.isNaN then noValue else x
  | andNot => if y.isNaN then x else noValue
  | ifNot => if y.isNaN then x else noValue
  | eql => comparisonValue asBool (op.comparesNumbers x y) x
  | notEq => comparisonValue asBool (op.comparesNumbers x y) x
  | lt => comparisonValue asBool (op.comparesNumbers x y) x
  | gt => comparisonValue asBool (op.comparesNumbers x y) x
  | lte => comparisonValue asBool (op.comparesNumbers x y) x
  | gte => comparisonValue asBool (op.comparesNumbers x y) x

/-- How two strings compare by code points; nothing where the operator is no comparison. -/
def comparesStrings? (op : Operator) (s t : String) : Option Bool :=
  match op with
  | eql => some (s == t)
  | notEq => some (s != t)
  | lt => some (decide (s < t))
  | gt => some (decide (t < s))
  | lte => some (!decide (t < s))
  | gte => some (!decide (s < t))
  | _ => none

/-- The value of a comparison of strings: one, or else zero or no value. -/
def compareStrings (op : Operator) (asBool : Bool) (s t : String) : Option Float :=
  (op.comparesStrings? s t).map fun holds => comparisonValue asBool holds 1.0

end Operator

end SeriesQuery
