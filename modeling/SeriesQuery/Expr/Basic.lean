import SeriesQuery.Expr.Modifier
import SeriesQuery.Label.Selector

/-!
# Expressions

`Expr` is the tree of a query, before and after templates are expanded.

* `Expr.same` — equality of trees, where numbers count by their value;
* `Expr.subexprs` — the nodes of a tree, operands before what they are operands of;
* `Expr.exceeds` — the weighted depth of a tree is over a budget.
-/

namespace SeriesQuery

mutual

/-- An expression. -/
inductive Expr where
  | number (n : NumberLiteral)
  | duration (d : Duration)
  | string (value : String)
  /-- A string that is put together from literals and templates. -/
  | concat (s : StringExpr)
  | selector (s : Selector)
  /-- A selector that refers to templates. -/
  | selectorExpr (s : SelectorExpr)
  | call (name : String) (args : List Expr) (keepNames : Bool)
  | aggregate (a : Aggregation) (args : List Expr)
  | binary (b : BinaryOp) (left right : Expr)
  /-- An expression over a range, maybe at a fixed time. -/
  | rollup (inner : Expr) (range : Range) (time : Option Expr)
  /-- Expressions in parentheses. -/
  | tuple (items : List Expr)
  | withTemplates (templates : List Template) (body : Expr)

/-- A named expression with parameters. -/
inductive Template where
  | mk (name : String) (params : List String) (body : Expr)

end

namespace Template

/-- The name of the template. -/
def name : Template → String
  | mk name _ _ => name

/-- The parameters of the template. -/
def params : Template → List String
  | mk _ params _ => params

/-- What the template stands for. -/
def body : Template → Expr
  | mk _ _ body => body

end Template

namespace Expr

instance : Inhabited Expr := ⟨tuple []⟩

/-- A number that was not written. -/
def ofFloat (x : Float) : Expr :=
  number (.ofFloat x)

/-- A list of expressions in parentheses; a single one needs none. -/
def ofItems : List Expr → Expr
  | [e] => e
  | items => tuple items

/-- The node is a binary operator. -/
def isBinary : Expr → Bool
  | binary .. => true
  | _ => false

/-- The node is a plain selector. -/
def isSelector : Expr → Bool
  | selector _ => true
  | _ => false

/-! ## Equality -/

mutual

/-- The trees are equal, where numbers count by their value. -/
def same : Expr → Expr → Bool
  | number m, number n => sameValue m.value n.value
  | duration d, duration e => d == e
  | string s, string t => s == t
  | concat s, concat t => s == t
  | selector s, selector t => s == t
  | selectorExpr s, selectorExpr t => s == t
  | call f args keep, call g args' keep' => f == g && sameList args args' && keep == keep'
  | aggregate a args, aggregate b args' => a == b && sameList args args'
  | binary b l r, binary c l' r' => b == c && same l l' && same r r'
  | rollup e range time, rollup e' range' time' =>
      same e e' && range == range' && sameOption time time'
  | tuple items, tuple items' => sameList items items'
  | withTemplates ts body, withTemplates ts' body' => sameTemplates ts ts' && same body body'
  | _, _ => false
termination_by structural e => e

/-- The lists of trees are equal. -/
def sameList : List Expr → List Expr → Bool
  | [], [] => true
  | e :: es, f :: fs => same e f && sameList es fs
  | _, _ => false
termination_by structural es => es

/-- The trees are equal, or both are missing. -/
def sameOption : Option Expr → Option Expr → Bool
  | none, none => true
  | some e, some f => same e f
  | _, _ => false
termination_by structural e => e

/-- The templates are equal. -/
def sameTemplate : Template → Template → Bool
  | .mk n ps body, .mk n' ps' body' => n == n' && ps == ps' && same body body'
termination_by structural t => t

/-- The lists of templates are equal. -/
def sameTemplates : List Template → List Template → Bool
  | [], [] => true
  | t :: ts, u :: us => sameTemplate t u && sameTemplates ts us
  | _, _ => false
termination_by structural ts => ts

end

/-! ## Nodes -/

mutual

/-- The nodes of the tree, operands first.  The time of a rollup is not among them. -/
def subexprs : Expr → List Expr
  | e@(number _) => [e]
  | e@(duration _) => [e]
  | e@(string _) => [e]
  | e@(concat _) => [e]
  | e@(selector _) => [e]
  | e@(selectorExpr _) => [e]
  | e@(call _ args _) => subexprsList args ++ [e]
  | e@(aggregate _ args) => subexprsList args ++ [e]
  | e@(binary _ l r) => subexprs l ++ subexprs r ++ [e]
  | e@(rollup inner _ _) => subexprs inner ++ [e]
  | e@(tuple items) => subexprsList items ++ [e]
  | e@(withTemplates ts body) => subexprsTemplates ts ++ subexprs body ++ [e]

/-- The nodes of the trees, in order. -/
def subexprsList : List Expr → List Expr
  | [] => []
  | e :: es => subexprs e ++ subexprsList es

/-- The nodes of the body of the template. -/
def subexprsTemplate : Template → List Expr
  | .mk _ _ body => subexprs body

/-- The nodes of the bodies of the templates, in order. -/
def subexprsTemplates : List Template → List Expr
  | [] => []
  | t :: ts => subexprsTemplate t ++ subexprsTemplates ts

end

/-! ## Depth -/

/-- What a nested expression costs of the budget for depth. -/
def nestingCost : Nat := 4

mutual

/-- The depth of the tree is over the budget.  A binary operator costs one, another node with
operands `nestingCost`, and a leaf nothing.  Bodies of templates do not count. -/
def exceeds (budget : Nat) : Expr → Bool
  | number _ => false
  | duration _ => false
  | string _ => false
  | concat _ => false
  | selector _ => false
  | selectorExpr _ => false
  | call _ args _ => budget < nestingCost || exceedsList (budget - nestingCost) args
  | aggregate _ args => budget < nestingCost || exceedsList (budget - nestingCost) args
  | binary _ l r => budget < 1 || exceeds (budget - 1) l || exceeds (budget - 1) r
  | rollup inner _ time =>
      budget < nestingCost || exceeds (budget - nestingCost) inner ||
        exceedsOption (budget - nestingCost) time
  | tuple items => budget < nestingCost || exceedsList (budget - nestingCost) items
  | withTemplates _ body => budget < nestingCost || exceeds (budget - nestingCost) body

/-- One of the trees is over the budget. -/
def exceedsList (budget : Nat) : List Expr → Bool
  | [] => false
  | e :: es => exceeds budget e || exceedsList budget es

/-- The tree, if there is one, is over the budget. -/
def exceedsOption (budget : Nat) : Option Expr → Bool
  | none => false
  | some e => exceeds budget e

end

/-! ## Names of metrics -/

mutual

/-- The only expression inside nested parentheses, if there is one. -/
def innermost? : List Expr → Option Expr
  | [e] => innermostOf e
  | _ => none

/-- The expression, or the only one inside its parentheses. -/
def innermostOf : Expr → Option Expr
  | tuple items => innermost? items
  | e => some e

end

mutual

/-- The node keeps the names of metrics, maybe inside parentheses. -/
def keepsNames : Expr → Bool
  | binary b _ _ => b.keepNames
  | call _ _ keep => keep
  | tuple items => keepsNamesIn items
  | _ => false

/-- The only expression in parentheses keeps the names of metrics. -/
def keepsNamesIn : List Expr → Bool
  | [e] => keepsNames e
  | _ => false

end

/-- The node with the mark that it keeps the names of metrics, if it is one that can. -/
def markKeepNames : Expr → Option Expr
  | call name args _ => some (call name args true)
  | binary b l r => some (binary { b with keepNames := true } l r)
  | _ => none

end Expr

end SeriesQuery
