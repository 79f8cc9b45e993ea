import SeriesQuery.Text.Case

/-!
# Binary operators

The operators of the language with their spelling, precedence and kind, and the words that may
follow an operator: the matching (`on`, `ignoring`) and the join side (`group_left`,
`group_right`).
-/

namespace SeriesQuery

open Text

/-! ## Operators -/

/-- A binary operator. -/
inductive Operator where
  | add
  | sub
  | mul
  | div
  | mod
  | pow
  | atan2
  | eql
  | notEq
  | lt
  | gt
  | lte
  | gte
  | and
  | or
  /-- Drops the left side where the right side has a match. -/
  | andNot
  /-- Keeps the left side where the right side has a value. -/
  | onlyIf
  /-- Keeps the left side where the right side has no value. -/
  | ifNot
  /-- Takes the right side where the left side has no value. -/
  | fallback
  deriving DecidableEq, Repr

/-- The three kinds of operators. -/
inductive OperatorKind where
  | arithmetic
  | comparison
  | logical
  deriving DecidableEq, Repr

namespace Operator

/-- All operators. -/
def all : List Operator :=
  [add, sub, mul, div, mod, pow, atan2, eql, notEq, lt, gt, lte, gte, and, or, andNot, onlyIf,
    ifNot, fallback]

/-- How the operator is written. -/
def symbol : Operator → String
  | add => "+"
  | sub => "-"
  | mul => "*"
  | div => "/"
  | mod => "%"
  | pow => "^"
  | atan2 => "atan2"
  | eql => "=="
  | notEq => "!="
  | lt => "<"
  | gt => ">"
  | lte => "<="
  | gte => ">="
  | and => "and"
  | or => "or"
  | andNot => "unless"
  | onlyIf => "if"
  | ifNot => "ifnot"
  | fallback => "default"

/-- The operator that a word stands for, whatever its case. -/
def ofWord? (word : String) : Option Operator :=
  let word := lower word
  all.find? fun op => op.symbol == word

/-- An operator with a higher precedence binds its operands first. -/
def precedence : Operator → Nat
  | fallback => 0
  | onlyIf | ifNot => 1
  | or => 10
  | and | andNot => 20
  | eql | notEq | lt | gt | lte | gte => 30
  | add | sub => 40
  | mul | div | mod | atan2 => 50
  | pow => 60

/-- The kind of the operator. -/
def kind : Operator → OperatorKind
  | add | sub | mul | div | mod | pow | atan2 => .arithmetic
  | eql | notEq | lt | gt | lte | gte => .comparison
  | and | or | andNot | onlyIf | ifNot | fallback => .logical

/-- A chain of this operator is grouped from the right. -/
def isRightAssociative (op : Operator) : Bool :=
  op == pow

/-- A logical operator. -/
def isLogical (op : Operator) : Bool :=
  op.kind == .logical

/-- A comparison. -/
def isComparison (op : Operator) : Bool :=
  op.kind == .comparison

/-- The operator may stand between strings. -/
def takesStrings (op : Operator) : Bool :=
  op == add || op.isComparison

/-- The set operators, which take no join. -/
def isSetOperator (op : Operator) : Bool :=
  op == and || op == or || op == andNot

end Operator

/-- The word is a binary operator. -/
def isOperatorWord (word : String) : Bool :=
  (Operator.ofWord? word).isSome

/-! ## Matching and joins -/

/-- Which labels two operands are matched by. -/
inductive MatchingKind where
  | on
  | ignoring
  deriving DecidableEq, Repr

namespace MatchingKind

/-- The word for the kind. -/
def word : MatchingKind → String
  | on => "on"
  | ignoring => "ignoring"

/-- The kind that a word stands for, whatever its case. -/
def ofWord? (word : String) : Option MatchingKind :=
  if sameWord word "on" then some on
  else if sameWord word "ignoring" then some ignoring
  else none

end MatchingKind

/-- The side of a join that may have many matches. -/
inductive JoinSide where
  | left
  | right
  deriving DecidableEq, Repr

namespace JoinSide

/-- The word for the side. -/
def word : JoinSide → String
  | left => "group_left"
  | right => "group_right"

/-- The side that a word stands for, whatever its case. -/
def ofWord? (word : String) : Option JoinSide :=
  if sameWord word "group_left" then some left
  else if sameWord word "group_right" then some right
  else none

end JoinSide

end SeriesQuery
