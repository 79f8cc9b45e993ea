import SeriesQuery.Expr.Basic

/-!
# Chains of operators

A chain of operands is read from the left.  `Expr.attach` adds one more operator and operand to the
tree of the chain so far, below the operators on its right edge that bind less.
-/

namespace SeriesQuery

namespace Operator

/-- The later operator takes the right operand of the earlier one. -/
def yieldsTo (earlier later : Operator) : Bool :=
  earlier.precedence < later.precedence ||
    (earlier.precedence == later.precedence && later.isRightAssociative)

end Operator

namespace Expr

/-- The chain with one more operator and operand.  A node that keeps the names of metrics is closed:
it stands in parentheses. -/
def attach : Expr → BinaryOp → Expr → Expr
  | left@(binary c l r), b, right =>
      if !c.keepNames && c.op.yieldsTo b.op then binary c l (attach r b right)
      else binary b left right
  | left, b, right => binary b left right

end Expr

end SeriesQuery
