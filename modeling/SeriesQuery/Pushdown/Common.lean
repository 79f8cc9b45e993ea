import SeriesQuery.Expr.Basic
import SeriesQuery.Function.Basic

/-!
# Common filters

`Expr.commonFilters` collects the label filters that all results of an expression pass.  Filters on
the name of a metric are never among them, as operators drop names.

How filters pass from operands to results is told by `trimMatching` and `trimGrouping`, and for
functions by `callSource?` and `aggregateSource`; these serve to push filters down as well.
-/

namespace SeriesQuery

/-! ## Trimming -/

/-- The filters on one of the labels. -/
def filtersOn (labels : List String) (filters : List LabelFilter) : List LabelFilter :=
  filters.filter fun f => labels.contains f.label

/-- The filters on none of the labels. -/
def filtersOff (labels : List String) (filters : List LabelFilter) : List LabelFilter :=
  filters.filter fun f => !labels.contains f.label

/-- The filters that a binary operator carries over: those on labels that it matches by. -/
def trimMatching (matching : Option Matching) (filters : List LabelFilter) : List LabelFilter :=
  match matching with
  | none => filters
  | some m =>
      match m.kind with
      | .on => filtersOn m.labels filters
      | .ignoring => filtersOff m.labels filters

/-- The filters that an aggregate carries over: those on labels that it keeps. -/
def trimGrouping (grouping : Option Grouping) (filters : List LabelFilter) : List LabelFilter :=
  match grouping with
  | none => []
  | some (.by labels) => filtersOn labels filters
  | some (.without labels) => filtersOff labels filters

/-- The filters that are in both lists. -/
def commonTo (filters others : List LabelFilter) : List LabelFilter :=
  filters.filter others.contains

/-- The filters of the first list, and those of the second that are not in it. -/
def together (filters others : List LabelFilter) : List LabelFilter :=
  filters ++ others.filter fun f => !filters.contains f

/-! ## Functions -/

/-- The label that an argument is, if it is a string. -/
def labelArgument? : Expr → Option String
  | .string value => some value
  | _ => none

/-- The labels at these positions of the arguments; all must be strings. -/
def labelsAt (args : List Expr) (positions : List Nat) : Option (List String) :=
  positions.mapM fun i => args[i]?.bind labelArgument?

/-- The labels that a function of labels writes, if that can be told. -/
def writtenLabels? (f : Builtin) (args : List Expr) : Option (List String) :=
  if args.isEmpty then none else f.writtenLabels? args.length >>= labelsAt args

/-- The position of the argument that the labels of a call come from, and the labels that the
function writes over. -/
def callSource? (name : String) (args : List Expr) : Option (Nat × List String) :=
  match Builtin.find? name with
  | none => none
  | some f =>
      if f.editsLabels then (writtenLabels? f args).map fun labels => (0, labels)
      else (f.labelSource? args.length).map fun i => (i, [])

/-- The arguments that the labels of an aggregate come from. -/
inductive Source where
  | nowhere
  | argument (i : Nat)
  /-- The union of all arguments. -/
  | everywhere
  deriving DecidableEq, Repr

/-- The arguments, of `count` arguments, that the labels of an aggregate come from. -/
def aggregateSource (name : String) (count : Nat) : Source :=
  match (Builtin.find? name).bind fun f => f.labelSource? count with
  | none => .nowhere
  | some i => if i = 0 && 1 < count then .everywhere else .argument i

/-! ## Selectors -/

/-- The filters on labels besides the name. -/
def labelFilters (filters : List LabelFilter) : List LabelFilter :=
  filters.filter fun f => f.label != nameLabel

namespace Selector

/-- The filters besides those on the name that are in every group. -/
def commonFilters (s : Selector) : List LabelFilter :=
  match s.groups with
  | [] => []
  | g :: gs => gs.foldl (fun filters h => commonTo filters (labelFilters h)) (labelFilters g)

end Selector

/-! ## Operators -/

/-- The filters of the result of a binary operator, from those of its operands. -/
def operatorFilters (b : BinaryOp) (left right : List LabelFilter) : List LabelFilter :=
  match b.op with
  | .or => trimMatching b.matching (commonTo left right)
  | .andNot | .fallback | .ifNot => trimMatching b.matching left
  | _ =>
      match b.join.map Join.side with
      | some .left => together left (trimMatching b.matching right)
      | some .right => together (trimMatching b.matching left) right
      | none => trimMatching b.matching (together left right)

namespace Expr

mutual

/-- The filters that all results of the expression pass. -/
def commonFilters : Expr → List LabelFilter
  | selector s => s.commonFilters
  | rollup inner _ _ => commonFilters inner
  | call name args _ =>
      match callSource? name args with
      | none => []
      | some (i, written) => filtersOff written (commonFiltersAt i args)
  | aggregate a args =>
      trimGrouping a.grouping
        (match aggregateSource a.name args.length with
          | .nowhere => []
          | .argument i => commonFiltersAt i args
          | .everywhere => commonFiltersAll args)
  | binary b l r => operatorFilters b (commonFilters l) (commonFilters r)
  | _ => []

/-- The filters that all results of one of the expressions pass. -/
def commonFiltersAt : Nat → List Expr → List LabelFilter
  | _, [] => []
  | 0, e :: _ => commonFilters e
  | i + 1, _ :: es => commonFiltersAt i es

/-- The filters that all results of all the expressions pass. -/
def commonFiltersAll : List Expr → List LabelFilter
  | [] => []
  | [e] => commonFilters e
  | e :: es => commonTo (commonFilters e) (commonFiltersAll es)

end

end Expr

end SeriesQuery
