import SeriesQuery.Function.Basic
import SeriesQuery.Expr.Basic
import SeriesQuery.Error

/-!
# Simplification

After expansion a query is brought into a simple form.

* `Expr.dropParens` — no parentheses around a single expression;
* `Expr.foldConstants` — no operators on two numbers, nor on two strings where they have a value;
* `Expr.checkFunctions` — all functions are known.
-/

namespace SeriesQuery
namespace Expr

/-! ## Parentheses -/

mutual

/-- The expression without parentheses around single expressions. -/
def dropParens : Expr → Expr
  | tuple items => ofItems (dropParensList items)
  | binary b l r => binary b (dropParens l) (dropParens r)
  | rollup inner range time => rollup (dropParens inner) range (dropParensOption time)
  | call name args keepNames => call name (dropParensList args) keepNames
  | aggregate a args => aggregate a (dropParensList args)
  | e => e

/-- The expressions without parentheses around single expressions. -/
def dropParensList : List Expr → List Expr
  | [] => []
  | e :: es => dropParens e :: dropParensList es

/-- The expression, if there is one, without parentheses around single expressions. -/
def dropParensOption : Option Expr → Option Expr
  | none => none
  | some e => some (dropParens e)

end

/-! ## Constants -/

/-- An operator on strings: their concatenation, or the value of a comparison. -/
def foldStrings (b : BinaryOp) (s t : String) : Option Expr :=
  if b.op = .add then some (string (s ++ t))
  else (b.op.compareStrings b.asBool s t).map ofFloat

/-- An operator with its operands, or its value where they are constants. -/
def foldBinary (b : BinaryOp) (l r : Expr) : Expr :=
  match l, r with
  | number m, number n => ofFloat (b.op.evalScalar b.asBool m.value n.value)
  | string s, string t => (foldStrings b s t).getD (binary b l r)
  | l, r => binary b l r

mutual

/-- The expression with operators on constants replaced by their values. -/
def foldConstants : Expr → Expr
  | binary b l r => foldBinary b (foldConstants l) (foldConstants r)
  | rollup inner range time => rollup (foldConstants inner) range (foldConstantsOption time)
  | call name args keepNames => call name (foldConstantsList args) keepNames
  | aggregate a args => aggregate a (foldConstantsList args)
  | tuple items => tuple (foldConstantsList items)
  | e => e

/-- The expressions with operators on constants replaced by their values. -/
def foldConstantsList : List Expr → List Expr
  | [] => []
  | e :: es => foldConstants e :: foldConstantsList es

/-- The expression, if there is one, with operators on constants replaced by their values. -/
def foldConstantsOption : Option Expr → Option Expr
  | none => none
  | some e => some (foldConstants e)

end

/-! ## Functions -/

/-- The function is known. -/
def checkName (name : String) : Except ParseError Unit :=
  if isFunctionName name then .ok () else .error (.unknownCall name)

mutual

/-- All functions of the expression are known; the first that is not is reported. -/
def checkFunctions : Expr → Except ParseError Unit
  | call name args _ => do
      checkName name
      checkFunctionsList args
  | aggregate a args => do
      checkName a.name
      checkFunctionsList args
  | binary _ l r => do
      checkFunctions l
      checkFunctions r
  | rollup inner _ time => do
      checkFunctions inner
      checkFunctionsOption time
  | tuple items => checkFunctionsList items
  | _ => .ok ()

/-- All functions of the expressions are known. -/
def checkFunctionsList : List Expr → Except ParseError Unit
  | [] => .ok ()
  | e :: es => do
      checkFunctions e
      checkFunctionsList es

/-- All functions of the expression, if there is one, are known. -/
def checkFunctionsOption : Option Expr → Except ParseError Unit
  | none => .ok ()
  | some e => checkFunctions e

end

end Expr
end SeriesQuery
