import SeriesQuery.Pattern.Basic
import SeriesQuery.Pattern.Braces
import SeriesQuery.Text.Quoted

/-!
# Label filters

A filter compares the value of a label with a text or a pattern.  The name of a metric is the label
`__name__`.

* `LabelFilter.ofParts?` — a filter whose pattern is well formed;
* `LabelFilter.dedup`, `LabelFilter.sort` — lists of filters without repetitions, in order;
* `LabelFilter.render` — the text of a filter.
-/

namespace SeriesQuery

open Text

/-- The label that holds the name of a metric. -/
def nameLabel : String := "__name__"

/-! ## Comparisons -/

/-- How a filter compares. -/
inductive FilterOp where
  | equal
  | notEqual
  | regex
  | notRegex
  deriving DecidableEq, Repr

namespace FilterOp

/-- All comparisons. -/
def all : List FilterOp := [equal, notEqual, regex, notRegex]

/-- How the comparison is written. -/
def symbol : FilterOp → String
  | equal => "="
  | notEqual => "!="
  | regex => "=~"
  | notRegex => "!~"

/-- The comparison that a sign stands for. -/
def ofSymbol? (sign : String) : Option FilterOp :=
  all.find? fun op => op.symbol == sign

/-- The comparison is by a pattern. -/
def isPattern : FilterOp → Bool
  | regex | notRegex => true
  | equal | notEqual => false

/-- The comparison holds where the text or pattern does not fit. -/
def isNegative : FilterOp → Bool
  | notEqual | notRegex => true
  | equal | regex => false

/-- The place of the comparison in the order of filters. -/
def rank : FilterOp → Nat
  | equal => 0
  | notEqual => 1
  | regex => 2
  | notRegex => 3

end FilterOp

/-! ## Filters -/

/-- The pattern of a filter is not well formed. -/
structure PatternError where
  value : String
  /-- The pattern that was refused. -/
  pattern : String
  deriving DecidableEq, Repr

namespace PatternError

/-- What the error says. -/
def message (e : PatternError) : String :=
  "Invalid regex: " ++ e.value ++ ": " ++ Pattern.refusal e.pattern

end PatternError

/-- A comparison of a label with a text or a pattern. -/
structure LabelFilter where
  op : FilterOp
  label : String
  value : String
  deriving DecidableEq, Repr

namespace LabelFilter

/-- The filter for equality with a text. -/
def equal (label value : String) : LabelFilter :=
  ⟨.equal, label, value⟩

/-- The filter fixes the name of the metric. -/
def isNameFilter (f : LabelFilter) : Bool :=
  f.label == nameLabel && f.op == .equal

/-- The pattern that the filter checks whole values with. -/
def wholePattern (f : LabelFilter) : String :=
  Pattern.anchored (Pattern.escapeBraces f.value)

/-- The filter compares with a text, or its pattern is well formed. -/
def isValid (f : LabelFilter) : Bool :=
  !f.op.isPattern || Pattern.isValid f.wholePattern

/-- The filter, if it is valid. -/
def check (f : LabelFilter) : Except PatternError LabelFilter :=
  if f.isValid then .ok f else .error ⟨f.value, f.wholePattern⟩

/-- The filter with these parts, if it is valid. -/
def ofParts? (op : FilterOp) (label value : String) : Except PatternError LabelFilter :=
  check ⟨op, label, value⟩

/-- The text of the filter. -/
def render (f : LabelFilter) : String :=
  escapeIdent f.label ++ f.op.symbol ++ quote f.value

/-! ## Lists of filters -/

/-- The order by label, then by value, then by comparison. -/
def le (f g : LabelFilter) : Bool :=
  if f.label ≠ g.label then decide (f.label < g.label)
  else if f.value ≠ g.value then decide (f.value < g.value)
  else f.op.rank ≤ g.op.rank

/-- The order that puts filters on the name first. -/
def leNameFirst (f g : LabelFilter) : Bool :=
  if (f.label == nameLabel) ≠ (g.label == nameLabel) then f.label == nameLabel
  else f.le g

/-- The filters without repetitions; the first of equal ones stays. -/
def dedup (filters : List LabelFilter) : List LabelFilter :=
  filters.eraseDups

/-- The filters in order, those on the name first. -/
def sort (filters : List LabelFilter) : List LabelFilter :=
  filters.mergeSort leNameFirst

/-- The filters in order. -/
def sortPlain (filters : List LabelFilter) : List LabelFilter :=
  filters.mergeSort le

end LabelFilter

end SeriesQuery
