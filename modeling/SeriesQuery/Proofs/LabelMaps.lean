import Mathlib.Data.Set.Basic
import SeriesQuery.Proofs.Pushing

/-!
# What expressions denote

The series of an expression are looked at by their labels only.  Over a fixed set of label maps, and
for a fixed reading of patterns, a selector denotes the maps that it selects, and operators and sums
combine what their operands denote.  What other nodes denote is left open: `World` has it as a part.
-/

namespace SeriesQuery

/-! ## Label maps -/

/-- The values of the labels of a series.  A missing label has the empty value. -/
abbrev LabelMap := String → String

namespace LabelMap

/-- The map with the labels that are kept only. -/
def restrict (keeps : String → Bool) (m : LabelMap) : LabelMap :=
  fun label => if keeps label then m label else ""

theorem restrict_eq_restrict {keeps : String → Bool} {m n : LabelMap} :
    restrict keeps m = restrict keeps n ↔ ∀ label, keeps label → m label = n label := by
  constructor
  · intro h label hkeeps
    have hlabel := congrFun h label
    simpa [restrict, hkeeps] using hlabel
  · intro h
    funext label
    by_cases hkeeps : keeps label = true
    · simp [restrict, hkeeps, h label hkeeps]
    · simp [restrict, hkeeps]

theorem restrict_apply {keeps : String → Bool} {label : String} (h : keeps label) (m : LabelMap) :
    restrict keeps m label = m label := by
  simp [restrict, h]

end LabelMap

/-- The map passes the filter, where `fits` tells which values fit a pattern. -/
def LabelFilter.Passes (fits : String → String → Prop) (f : LabelFilter) (m : LabelMap) : Prop :=
  match f.op with
  | .equal => m f.label = f.value
  | .notEqual => m f.label ≠ f.value
  | .regex => fits f.value (m f.label)
  | .notRegex => ¬ fits f.value (m f.label)

/-! ## Operators and sums -/

/-- The labels that operands are matched by. -/
def keyLabels (matching : Option Matching) (label : String) : Bool :=
  match matching with
  | none => label != nameLabel
  | some m =>
      match m.kind with
      | .on => m.labels.contains label
      | .ignoring => label != nameLabel && !m.labels.contains label

/-- The labels that an aggregate keeps. -/
def groupLabels (grouping : Option Grouping) (label : String) : Bool :=
  match grouping with
  | none => false
  | some (.by labels) => labels.contains label
  | some (.without labels) => label != nameLabel && !labels.contains label

namespace BinaryOp

/-- What a map is matched by. -/
def key (b : BinaryOp) (m : LabelMap) : LabelMap :=
  m.restrict (keyLabels b.matching)

/-- What an operator without a join makes of its operands.  Arithmetic and comparisons give the
keys that both operands have. -/
def combine (b : BinaryOp) (left right : Set LabelMap) : Set LabelMap :=
  match b.op with
  | .and | .onlyIf => {m | m ∈ left ∧ ∃ n ∈ right, b.key n = b.key m}
  | .andNot | .ifNot => {m | m ∈ left ∧ ∀ n ∈ right, b.key n ≠ b.key m}
  | .or => {m | m ∈ left ∨ m ∈ right ∧ ∀ n ∈ left, b.key n ≠ b.key m}
  | _ => {k | (∃ m ∈ left, b.key m = k) ∧ ∃ n ∈ right, b.key n = k}

end BinaryOp

namespace Aggregation

/-- The aggregate is a sum of all the series. -/
def isSum (a : Aggregation) : Bool :=
  Text.lower a.name == "sum" && a.limit == 0

/-- The group of a map. -/
def group (a : Aggregation) (m : LabelMap) : LabelMap :=
  m.restrict (groupLabels a.grouping)

end Aggregation

/-! ## Expressions -/

/-- The node is a constant, or one that no query has once its templates are expanded. -/
def Expr.isConstant : Expr → Bool
  | .number _ | .duration _ | .string _ | .concat _ | .selectorExpr _ | .withTemplates _ _ => true
  | _ => false

/-- What a function is given: a constant as it is written, else the maps that the argument
denotes. -/
inductive Argument where
  | constant (e : Expr)
  | series (maps : Set LabelMap)

/-- The series there are, the reading of patterns, and what nodes denote that are no selectors,
rollups, operators or sums. -/
structure World where
  series : Set LabelMap
  /-- The value fits the pattern. -/
  fits : String → String → Prop
  constant : Expr → Set LabelMap
  call : String → Bool → List Argument → Set LabelMap
  aggregate : Aggregation → List Argument → Set LabelMap
  tuple : List Argument → Set LabelMap

namespace World

variable (w : World)

/-- The maps that a selector selects: those that pass all filters of a group. -/
def select (s : Selector) : Set LabelMap :=
  {m | m ∈ w.series ∧ (s.groups = [] ∨ ∃ g ∈ s.groups, ∀ f ∈ g, f.Passes w.fits m)}

mutual

/-- The label maps that an expression denotes. -/
def denote : Expr → Set LabelMap
  | .selector s => w.select s
  | .rollup inner _ _ => denote inner
  | .binary b l r => b.combine (denote l) (denote r)
  | .aggregate a args =>
      if a.isSum then {k | ∃ m ∈ denoteUnion args, a.group m = k}
      else w.aggregate a (arguments args)
  | .call name args keepNames => w.call name keepNames (arguments args)
  | .tuple items => w.tuple (arguments items)
  | e => w.constant e

/-- The label maps that one of the expressions denotes. -/
def denoteUnion : List Expr → Set LabelMap
  | [] => ∅
  | e :: es => denote e ∪ denoteUnion es

/-- What the expressions are as arguments. -/
def arguments : List Expr → List Argument
  | [] => []
  | e :: es =>
      (if e.isConstant then .constant e else .series (denote e)) :: arguments es

end

/-- What the expression is as an argument. -/
def argument (e : Expr) : Argument :=
  if e.isConstant then .constant e else .series (w.denote e)

theorem arguments_eq_map (es : List Expr) : w.arguments es = es.map w.argument := by
  induction es with
  | nil => rfl
  | cons e es ih => rw [arguments, ih]; rfl

theorem mem_denoteUnion {es : List Expr} {m : LabelMap} :
    m ∈ w.denoteUnion es ↔ ∃ e ∈ es, m ∈ w.denote e := by
  induction es with
  | nil => simp [denoteUnion]
  | cons e es ih => simp [denoteUnion, ih]

/-! ## What filters may pass through -/

/-- Each map of the result of the call comes from one map of the argument at the position, and has
its labels, besides the name and those that are written over. -/
def CallsAlong (name : String) (keepNames : Bool) (args : List Argument) (i : Nat)
    (written : List String) : Prop :=
  ∃ results : LabelMap → Set LabelMap,
    (∀ m, ∀ n ∈ results m, ∀ label, label ∉ written → label ≠ nameLabel → n label = m label) ∧
    ∀ maps, w.call name keepNames (args.set i (.series maps)) = {n | ∃ m ∈ maps, n ∈ results m}

/-- The node is one that denotation tells the meaning of, or one that lets no filters pass, or a call
that works on each map of its argument on its own.  No operator has a join, or a fallback. -/
def Covers : Expr → Prop
  | .binary b _ _ => b.join = none ∧ b.op ≠ .fallback
  | .aggregate a args =>
      a.isSum ∨ a.grouping = none ∨ aggregateSource a.name args.length = .nowhere
  | .call name args keepNames =>
      ∀ i written, callSource? name args = some (i, written) →
        w.CallsAlong name keepNames (w.arguments args) i written
  | _ => True

end World
end SeriesQuery
