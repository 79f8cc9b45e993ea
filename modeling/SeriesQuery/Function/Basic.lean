import SeriesQuery.Function.Names
import SeriesQuery.Text.Case

/-!
# Functions

`Builtin.find?` looks a function up by name, whatever its case.  For the optimizer a function tells
where the labels of its result come from: `Builtin.labelSource?` is the argument whose label filters
hold for the result too, and `Builtin.writtenLabels` are the labels that a function of labels
writes.
-/

namespace SeriesQuery

open Text

/-! ## The registry -/

/-- The kinds of functions. -/
inductive FunctionKind where
  | aggregate
  | rollup
  | transform
  deriving DecidableEq, Repr

namespace FunctionKind

/-- The word for the kind. -/
def word : FunctionKind → String
  | aggregate => "aggregate"
  | rollup => "rollup"
  | transform => "transform"

/-- The kind that a word stands for, whatever its case. -/
def ofWord? (word : String) : Option FunctionKind :=
  if sameWord word "aggregate" then some aggregate
  else if sameWord word "rollup" then some rollup
  else if sameWord word "transform" then some transform
  else none

/-- The functions of the kind. -/
def names : FunctionKind → List String
  | aggregate => aggregateNames
  | rollup => rollupNames
  | transform => transformNames

end FunctionKind

/-- A function of the language. -/
structure Builtin where
  name : String
  kind : FunctionKind
  deriving DecidableEq, Repr

namespace Builtin

/-- All functions of the language. -/
def all : List Builtin :=
  aggregateNames.map (⟨·, .aggregate⟩) ++ rollupNames.map (⟨·, .rollup⟩) ++
    transformNames.map (⟨·, .transform⟩)

/-- The function with the name, whatever its case. -/
def find? (name : String) : Option Builtin :=
  let name := lower name
  if aggregateNames.contains name then some ⟨name, .aggregate⟩
  else if rollupNames.contains name then some ⟨name, .rollup⟩
  else if transformNames.contains name then some ⟨name, .transform⟩
  else none

/-- The function of one kind with the name, whatever its case. -/
def findKind? (kind : FunctionKind) (name : String) : Option Builtin :=
  (find? name).filter fun f => f.kind == kind

end Builtin

/-- The name is that of a function. -/
def isFunctionName (name : String) : Bool :=
  (Builtin.find? name).isSome

/-- The name is that of an aggregate function. -/
def isAggregateName (name : String) : Bool :=
  (Builtin.findKind? .aggregate name).isSome

/-! ## Labels of results -/

/-- Aggregates whose first argument is a parameter, and the second one the series. -/
def secondArgumentAggregates : List String :=
  ["bottomk", "bottomk_avg", "bottomk_last", "bottomk_max", "bottomk_median", "bottomk_min",
    "limitk", "outliersk", "outliers_mad", "quantile", "topk", "topk_avg", "topk_last", "topk_max",
    "topk_median", "topk_min"]

/-- Transforms that add, remove or change labels. -/
def labelFunctions : List String :=
  ["alias", "drop_common_labels", "label_copy", "label_del", "label_graphite_group", "label_join",
    "label_keep", "label_lowercase", "label_map", "label_match", "label_mismatch", "label_move",
    "label_replace", "label_set", "label_transform", "label_uppercase", "label_value"]

/-- Transforms whose result has labels of its own, or none. -/
def opaqueTransforms : List String :=
  ["absent", "scalar", "union", "vector", "range_normalize", "end", "now", "pi", "ru", "start",
    "step", "time"]

/-- Transforms whose first argument is a parameter, and the second one the series. -/
def secondArgumentTransforms : List String :=
  ["buckets_limit", "histogram_quantile", "histogram_share", "range_quantile",
    "range_trim_outliers", "range_trim_spikes", "range_trim_zscore"]

namespace Builtin

/-- The function adds, removes or changes labels. -/
def editsLabels (f : Builtin) : Bool :=
  f.kind == .transform && labelFunctions.contains f.name

/-- The position of the last of `count` arguments. -/
def lastArgument? (count : Nat) : Option Nat :=
  if count = 0 then none else some (count - 1)

/-- The position of the argument, of `count` arguments, that the labels of the result come from.
Rollups are opaque, and so are the functions that edit labels. -/
def labelSource? (f : Builtin) (count : Nat) : Option Nat :=
  match f.kind with
  | .rollup => none
  | .aggregate =>
      if secondArgumentAggregates.contains f.name then some 1
      else if f.name == "count_values" then none
      else if f.name == "quantiles" then lastArgument? count
      else some 0
  | .transform =>
      if f.editsLabels || opaqueTransforms.contains f.name then none
      else if f.name == "limit_offset" then some 2
      else if secondArgumentTransforms.contains f.name then some 1
      else if f.name == "histogram_quantiles" then lastArgument? count
      else some 0

/-- The positions from `start` on, in steps of two, below `count`. -/
def alternate (start count : Nat) : List Nat :=
  (List.range count).filter fun i => start ≤ i && (i - start) % 2 == 0

/-- The positions, of `count` arguments, of the labels that the function writes; nothing for a
function of labels that cannot be followed. -/
def writtenLabels? (f : Builtin) (count : Nat) : Option (List Nat) :=
  if f.name == "alias" then some []
  else if f.name == "label_set" then some (alternate 1 count)
  else if f.name == "label_replace" || f.name == "label_join" then some [1]
  else if f.name == "label_copy" then some (alternate 2 count)
  else if f.name == "label_del" then some ((List.range count).drop 1)
  else none

end Builtin

end SeriesQuery
