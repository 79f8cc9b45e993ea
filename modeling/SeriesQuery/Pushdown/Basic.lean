import SeriesQuery.Pushdown.Common

/-!
# Filter pushdown

`Expr.pushDown` adds filters to the selectors of an operand of a binary operator, as far as that
does not change the result of the operator.  `Expr.optimize` pushes the common filters of each
binary operator down into its operands, the inner operators first.
-/

namespace SeriesQuery

namespace Selector

/-- The selector with the filters added to every group, without repetitions and in order. -/
def addFilters (filters : List LabelFilter) (s : Selector) : Selector :=
  let groups := if s.groups.isEmpty then [[]] else s.groups
  ⟨groups.map fun g => LabelFilter.sort (LabelFilter.dedup (g ++ filters))⟩

end Selector

namespace Expr

/-! ## Pushing -/

mutual

/-- The expression with the filters pushed down to its selectors. -/
@[grind =]
def pushDown (filters : List LabelFilter) (e : Expr) : Expr :=
  if filters.isEmpty then e
  else
    match e with
    | selector s => selector (s.addFilters filters)
    | rollup inner range time => rollup (pushDown filters inner) range time
    | call name args keepNames =>
        match callSource? name args with
        | none => call name args keepNames
        | some (i, written) => call name (pushDownAt (filtersOff written filters) i args) keepNames
    | aggregate a args =>
        match aggregateSource a.name args.length with
        | .nowhere => aggregate a args
        | .argument i => aggregate a (pushDownAt (trimGrouping a.grouping filters) i args)
        | .everywhere => aggregate a (pushDownAll (trimGrouping a.grouping filters) args)
    | binary b l r =>
        binary b (pushDown (trimMatching b.matching filters) l)
          (pushDown (trimMatching b.matching filters) r)
    | e => e

/-- The expressions with the filters pushed down into one of them. -/
def pushDownAt (filters : List LabelFilter) : Nat → List Expr → List Expr
  | _, [] => []
  | 0, e :: es => pushDown filters e :: es
  | i + 1, e :: es => e :: pushDownAt filters i es

/-- The expressions with the filters pushed down into all of them. -/
def pushDownAll (filters : List LabelFilter) : List Expr → List Expr
  | [] => []
  | e :: es => pushDown filters e :: pushDownAll filters es

end

/-! ## Optimization -/

/-- A binary operator with its common filters pushed down into its operands. -/
def shareFilters (e : Expr) : Expr :=
  e.pushDown e.commonFilters

mutual

/-- The expression with the common filters of its binary operators pushed down. -/
def optimize : Expr → Expr
  | rollup inner range time => rollup (optimize inner) range (optimizeOption time)
  | call name args keepNames => call name (optimizeList args) keepNames
  | aggregate a args => aggregate a (optimizeList args)
  | tuple items => tuple (optimizeList items)
  | binary b l r => (binary b (optimize l) (optimize r)).shareFilters
  | e => e

/-- The expressions, each optimized. -/
def optimizeList : List Expr → List Expr
  | [] => []
  | e :: es => optimize e :: optimizeList es

/-- The expression, if there is one, optimized. -/
def optimizeOption : Option Expr → Option Expr
  | none => none
  | some e => some (optimize e)

end

end Expr

end SeriesQuery
