import SeriesQuery.Syntax.Operand

/-!
# Queries

`Expr.ofText` reads a query.  Operands may be nested 64 deep; a binary operator deepens a tree by
one node only and costs a quarter of a level.  So a budget of 256 is spent, four for an operand
and one for an operator, and given back behind them.
-/

namespace SeriesQuery

/-- How deep operands may be nested. -/
def maxDepth : Nat := 64

/-- The budget for depth of a query. -/
def depthBudget : Nat := maxDepth * Expr.nestingCost

namespace Reader

mutual

/-- An operand, which costs four of the budget. -/
def operand : Nat → Reader Expr
  | budget + 4 =>
      Grammar.fullOperand
        { expression := do chain budget (← operand budget)
          operand := operand budget }
  | _ => throw (.tooNested maxDepth)

/-- The operators and operands behind the chain so far.  Each operator costs one of the budget. -/
def chain : Nat → Expr → Reader Expr
  | budget + 1, left => do
      match Operator.ofWord? (← token) with
      | none => return left
      | some op =>
          bump
          let b ← modifiers op
          let right ← operand budget
          let keepNames ← atKeepNames
          if keepNames then bump
          chain budget (left.attach { b with keepNames } right)
  | 0, left => do
      match Operator.ofWord? (← token) with
      | none => return left
      -- Only a further operator is one too many; the end of the chain costs nothing.
      | some _ => throw (.tooNested maxDepth)

end

/-- A chain of operands with operators between them. -/
def expression (budget : Nat) : Reader Expr := do
  chain budget (← operand budget)

end Reader

namespace Expr

/-- The expression that a query is, with its templates. -/
def ofText (query : String) : Except ParseError Expr := do
  let (e, feed) ← Reader.expression depthBudget (← Feed.ofText query)
  if feed.tokens.isEmpty then return e
  else throw (.leftOver feed.place)

end Expr

end SeriesQuery
