import SeriesQuery.Expr.Render

/-!
# Layout of expressions

`Expr.layout` writes an expression over several lines where its text would be too long for one.
Each level of nesting is indented by two spaces.  A literal is never split.
-/

namespace SeriesQuery

open Text

/-- The blanks at the start of a line of the level. -/
def indent (level : Nat) : String :=
  String.ofList (List.replicate (2 * level) ' ')

/-- The text fits on a line of the level: it ends by byte `max` and is one line. -/
def fits (level : Nat) (text : String) (max : Nat) : Bool :=
  level * 2 + text.utf8ByteSize ≤ max && !text.toList.contains '\n'

namespace Selector

/-- The filters of a group on one line if they fit, else on a line each. -/
def layoutGroup (level max : Nat) (group : List LabelFilter) : String :=
  let filters := group.map LabelFilter.render
  let line := String.intercalate "," filters
  let spaces := indent level
  if fits level line max then spaces ++ line
  else spaces ++ String.intercalate (",\n" ++ spaces) filters

/-- The text of the selector over several lines. -/
def layout (s : Selector) (level max : Nat) : String :=
  let spaces := indent level
  let name := spaces ++ (s.name?.map escapeIdent).getD ""
  if s.writtenGroups.isEmpty then
    if s.name?.isNone then name ++ "\x7b\x7d" else name
  else
    let groups := s.writtenGroups.map (layoutGroup (level + 1) max)
    name ++ "\x7b\n" ++ String.intercalate ("\n" ++ indent (level + 2) ++ "or\n") groups ++
      "\n" ++ spaces ++ "\x7d"

end Selector

namespace Expr

/-- The expression does not fit on a line of the level. -/
def needsSplit (e : Expr) (level max : Nat) : Bool :=
  !fits level e.render max

/-- The expression on one line of the level. -/
def layoutLine (e : Expr) (level : Nat) : String :=
  indent level ++ e.render

/-- The arguments with their layout, each from a new line. -/
def joinArgs (args : List String) : String :=
  String.intercalate ",\n" args

/-- A call with its arguments, which have their layout already. -/
def layoutCall (name : String) (args : List String) (level : Nat) : String :=
  let spaces := indent level
  if args.isEmpty then spaces ++ name ++ "()"
  else spaces ++ name ++ "(\n" ++ joinArgs args ++ "\n" ++ spaces ++ ")"

/-- An operand of a binary operator or a rollup, in parentheses where they are needed.  The
operand is given by its text and its layout at any level. -/
def layoutOperand (needsParens : Bool) (text : String) (layoutAt : Nat → String)
    (level max : Nat) : String :=
  let spaces := indent level
  if !needsParens then layoutAt level
  else if fits level text (max - 2) then spaces ++ "(" ++ text ++ ")"
  else spaces ++ "(\n" ++ layoutAt (level + 1) ++ "\n" ++ spaces ++ ")"

mutual

/-- The text of the expression over as many lines as are needed. -/
def layout (level max : Nat) : Expr → String
  | e@(number _) => e.layoutLine level
  | e@(duration _) => e.layoutLine level
  | e@(string _) => e.layoutLine level
  | e@(concat _) => e.layoutLine level
  | e@(selectorExpr _) => e.layoutLine level
  | e@(withTemplates _ _) => e.layoutLine level
  | e@(selector s) => if e.needsSplit level max then s.layout level max else e.layoutLine level
  | e@(call name args keep) =>
      if e.needsSplit level max then
        layoutCall (escapeIdent name) (layoutList (level + 1) max args) level ++ keepMark keep
      else e.layoutLine level
  | e@(aggregate a args) =>
      if e.needsSplit level max then
        layoutCall (escapeIdent a.name) (layoutList (level + 1) max args) level ++ a.renderSuffix
      else e.layoutLine level
  | e@(rollup inner range time) =>
      if e.needsSplit level max then
        layoutOperand inner.innerNeedsParens inner.render (fun n => layout n max inner) level max ++
          renderSuffix range time
      else e.layoutLine level
  | e@(binary b l r) =>
      if e.needsSplit level max then
        let depth := if b.keepNames then level + 1 else level
        let body :=
          layoutOperand (l.leftNeedsParens b.op) l.render (fun n => layout n max l) depth max ++
            "\n" ++ indent (depth + 1) ++ b.render ++ "\n" ++
            layoutOperand r.rightNeedsParens r.render (fun n => layout n max r) depth max
        if b.keepNames then
          indent level ++ "(\n" ++ body ++ "\n" ++ indent level ++ ") keep_metric_names"
        else body
      else e.layoutLine level
  | e@(tuple items) =>
      if e.needsSplit level max then layoutCall "" (layoutList (level + 1) max items) level
      else e.layoutLine level

/-- The layouts of the expressions at one level. -/
def layoutList (level max : Nat) : List Expr → List String
  | [] => []
  | e :: es => layout level max e :: layoutList level max es

end

end Expr

end SeriesQuery
