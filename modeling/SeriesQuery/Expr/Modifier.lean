import SeriesQuery.Number.Format
import SeriesQuery.Number.Literal
import SeriesQuery.Operator.Scalar
import SeriesQuery.Duration
import SeriesQuery.StringExpr

/-!
# Parts of expressions

What nodes of expressions carry besides their operands: number literals, the modifiers of binary
operators, the grouping of aggregates, and the range of rollups.
-/

namespace SeriesQuery

open Text

/-! ## Numbers -/

/-- A number with the text it was written as; folded numbers have no text. -/
structure NumberLiteral where
  value : Float
  text : Option String

namespace NumberLiteral

/-- A number that was not written. -/
def ofFloat (value : Float) : NumberLiteral :=
  ⟨value, none⟩

/-- The number that a token writes. -/
def ofToken (token : String) : Except NumberError NumberLiteral :=
  (fun value => ⟨value, some token⟩) <$> readNumber token

/-- The number with the other sign, which is not as it was written. -/
def negate (n : NumberLiteral) : NumberLiteral :=
  .ofFloat (-n.value)

/-- The text of the number. -/
def render (n : NumberLiteral) : String :=
  match n.text with
  | some text => text
  | none => formatNumber n.value

end NumberLiteral

/-! ## Lists of labels -/

/-- The text of a list of labels. -/
def renderLabels (labels : List String) : String :=
  "(" ++ String.intercalate "," (labels.map escapeIdent) ++ ")"

/-! ## Binary operators with modifiers -/

/-- The labels that operands are matched by. -/
structure Matching where
  kind : MatchingKind
  labels : List String
  deriving DecidableEq, Repr

namespace Matching

/-- The text of the matching. -/
def render (m : Matching) : String :=
  m.kind.word ++ renderLabels m.labels

end Matching

/-- The labels that are taken over from the side with single matches. -/
structure Join where
  side : JoinSide
  labels : List String
  deriving DecidableEq, Repr

namespace Join

/-- The text of the join.  A lone star stands for all labels. -/
def render (j : Join) : String :=
  j.side.word ++ if j.labels = ["*"] then "(*)" else renderLabels j.labels

end Join

/-- An operator with its modifiers. -/
structure BinaryOp where
  op : Operator
  /-- A comparison gives zero or one. -/
  asBool : Bool
  matching : Option Matching
  join : Option Join
  /-- What stands before the names of joined labels. -/
  joinLead : Option StringExpr
  /-- The result keeps the names of metrics. -/
  keepNames : Bool
  deriving DecidableEq, Repr

namespace BinaryOp

/-- The operator without modifiers. -/
def plain (op : Operator) : BinaryOp :=
  ⟨op, false, none, none, none, false⟩

/-- The operands are matched by the labels of `on`. -/
def matchesOn (b : BinaryOp) : Bool :=
  match b.matching with
  | some m => m.kind == .on
  | none => false

/-- The text of a modifier, set off by a space, if there is one. -/
def renderOptional {α : Type} (render : α → String) : Option α → String
  | some a => " " ++ render a
  | none => ""

/-- The text of the operator and its modifiers up to the right operand. -/
def render (b : BinaryOp) : String :=
  b.op.symbol ++ (if b.asBool then "bool" else "") ++ renderOptional Matching.render b.matching ++
    renderOptional Join.render b.join ++
    renderOptional (fun lead => "prefix " ++ lead.render) b.joinLead

end BinaryOp

/-! ## Aggregates -/

/-- Which labels an aggregate keeps. -/
inductive Grouping where
  | by (labels : List String)
  | without (labels : List String)
  deriving DecidableEq, Repr

namespace Grouping

/-- The labels that are named. -/
def labels : Grouping → List String
  | .by labels => labels
  | .without labels => labels

/-- The grouping by other labels. -/
def withLabels : Grouping → List String → Grouping
  | .by _, labels => .by labels
  | .without _, labels => .without labels

/-- The text of the grouping. -/
def render : Grouping → String
  | .by labels => "by" ++ renderLabels labels
  | .without labels => "without" ++ renderLabels labels

end Grouping

/-- An aggregate function with its grouping, and the greatest number of results, zero for any. -/
structure Aggregation where
  name : String
  grouping : Option Grouping
  limit : Nat
  deriving DecidableEq, Repr

namespace Aggregation

/-- An aggregate without grouping and limit. -/
def plain (name : String) : Aggregation :=
  ⟨name, none, 0⟩

/-- The text behind the arguments. -/
def renderSuffix (a : Aggregation) : String :=
  BinaryOp.renderOptional Grouping.render a.grouping ++
    if 0 < a.limit then " limit " ++ toString a.limit else ""

end Aggregation

/-! ## Rollups -/

/-- The window, step and offset of a rollup. -/
structure Range where
  window : Option Duration
  step : Option Duration
  offset : Option Duration
  /-- The rollup is evaluated with the step of the query. -/
  inheritStep : Bool
  deriving DecidableEq, Repr

namespace Range

/-- No window, step or offset. -/
def none : Range :=
  ⟨.none, .none, .none, false⟩

/-- The rollup evaluates its expression at several times. -/
def isSubquery (r : Range) : Bool :=
  r.step.isSome || r.inheritStep

/-- The text of a duration, if there is one. -/
def renderDuration : Option Duration → String
  | some d => d.render
  | .none => ""

/-- The text of the window and the step in brackets. -/
def renderWindow (r : Range) : String :=
  if r.window.isSome || r.inheritStep || r.step.isSome then
    "[" ++ renderDuration r.window ++ (if r.isSubquery then ":" else "") ++
      renderDuration r.step ++ "]"
  else ""

/-- The text of the window, the step and the offset. -/
def render (r : Range) : String :=
  r.renderWindow ++ BinaryOp.renderOptional (fun d => "offset " ++ Duration.render d) r.offset

end Range

end SeriesQuery
