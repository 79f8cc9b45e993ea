import SeriesQuery.Expr.Layout
import SeriesQuery.Fold
import SeriesQuery.Template.Expand

/-!
# Queries

`parse` reads a query, expands its templates and simplifies it.  `expandText` and `prettyText` write
the result again, on one line or over several.
-/

namespace SeriesQuery

/-- The expression in simple form, if all its functions are known.  Templates may expand to more
than the budget for depth allows. -/
def normalize (e : Expr) : Except ParseError Expr :=
  if e.exceeds depthBudget then .error (.tooNested maxDepth)
  else do
    let e := e.dropParens.foldConstants
    e.checkFunctions
    return e

/-- The expression that a query stands for. -/
def parse (query : String) : Except ParseError Expr := do
  let e ← Expr.ofText query
  let e ← e.expandTemplates
  normalize e

/-- The query with its templates expanded. -/
def expandText (query : String) : Except ParseError String :=
  Expr.render <$> parse query

/-- The query over several lines, where a line should have `max` bytes at most. -/
def prettyText (query : String) (max : Nat) : Except ParseError String :=
  Expr.layout 0 max <$> parse query

end SeriesQuery
