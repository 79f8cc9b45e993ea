import SeriesQuery.Expr.Basic

/-!
# Text of expressions

`Expr.render` writes an expression on one line in its canonical form.  Operands are put in
parentheses where the grammar would read them differently without.
-/

namespace SeriesQuery

open Text

namespace Expr

/-! ## Parentheses -/

/-- The words that may follow a binary operator as modifiers. -/
def modifierWords : List String :=
  ["on", "ignoring", "group_left", "group_right", "bool", "prefix"]

/-- The name is read as a modifier behind a binary operator. -/
def isModifierWord (name : String) : Bool :=
  modifierWords.any fun word => sameWord word name

/-- The inner expression of a rollup needs parentheses. -/
def innerNeedsParens : Expr → Bool
  | rollup .. => true
  | binary .. => true
  | aggregate a _ => a.grouping.isSome
  | _ => false

/-- The left operand of the operator needs parentheses.  A negative number before `^` would be read
as the negation of the power. -/
def leftNeedsParens (op : Operator) : Expr → Bool
  | binary .. => true
  | rollup _ range time => range.offset.isSome || time.isSome
  | number n => op == .pow && isSignNegative n.value && n.text.isNone
  | _ => false

/-- The right operand of an operator needs parentheses. -/
def rightNeedsParens : Expr → Bool
  | binary .. => true
  | rollup _ range time => range.offset.isSome || time.isSome
  | call name _ keep => keep || isModifierWord name
  | selector s => (s.name?.map isModifierWord).getD false
  | _ => false

/-- The text in parentheses, where they are needed. -/
def parenthesize (needed : Bool) (text : String) : String :=
  if needed then "(" ++ text ++ ")" else text

/-- The texts in parentheses with commas between them. -/
def renderTuple (items : List String) : String :=
  "(" ++ String.intercalate ", " items ++ ")"

/-- The mark of functions and operators that keep the names of metrics. -/
def keepMark (keep : Bool) : String :=
  if keep then " keep_metric_names" else ""

/-- The text of the time of a rollup, where the expression for it has the given text. -/
def renderTime (time : Expr) (text : String) : String :=
  " @ " ++ parenthesize time.isBinary text

/-! ## Rendering -/

mutual

/-- The text of the expression. -/
def render : Expr → String
  | number n => n.render
  | duration d => d.render
  | string value => quote value
  | concat s => s.render
  | selector s => s.render
  | selectorExpr s => s.render
  | call name args keep => escapeIdent name ++ renderTuple (renderList args) ++ keepMark keep
  | aggregate a args => escapeIdent a.name ++ renderTuple (renderList args) ++ a.renderSuffix
  | binary b l r =>
      let text :=
        parenthesize (l.leftNeedsParens b.op) (render l) ++ " " ++ b.render ++ " " ++
          parenthesize r.rightNeedsParens (render r)
      if b.keepNames then "(" ++ text ++ ") keep_metric_names" else text
  | rollup inner range time =>
      parenthesize inner.innerNeedsParens (render inner) ++ range.render ++ renderTimeOf time
  | tuple items => renderTuple (renderList items)
  | withTemplates ts body =>
      "with (" ++ String.intercalate ", " (renderTemplates ts) ++ ") " ++ render body

/-- The texts of the expressions. -/
def renderList : List Expr → List String
  | [] => []
  | e :: es => render e :: renderList es

/-- The text of the time of a rollup. -/
def renderTimeOf : Option Expr → String
  | none => ""
  | some e => renderTime e (render e)

/-- The text of the template. -/
def renderTemplate : Template → String
  | .mk name params body =>
      let params := if params.isEmpty then "" else renderTuple (params.map escapeIdent)
      escapeIdent name ++ params ++ " = " ++ render body

/-- The texts of the templates. -/
def renderTemplates : List Template → List String
  | [] => []
  | t :: ts => renderTemplate t :: renderTemplates ts

end

/-- The text of the rollup behind its inner expression. -/
def renderSuffix (range : Range) (time : Option Expr) : String :=
  range.render ++ renderTimeOf time

end Expr

end SeriesQuery
