import SeriesQuery.Function.Basic
import SeriesQuery.Syntax.Chain
import SeriesQuery.Syntax.Parts

/-!
# Operands

The rules for operands of binary operators.  They are given for a `Grammar`, which reads the
expressions inside an operand; the depth to which operands may be nested is decided there.
-/

namespace SeriesQuery

open Text

/-- Readers of the expressions inside an operand. -/
structure Grammar where
  /-- A chain of operands with operators between them. -/
  expression : Reader Expr
  /-- A single operand. -/
  operand : Reader Expr

namespace Grammar

variable (g : Grammar)

/-- Arguments in parentheses. -/
def arguments : Reader (List Expr) :=
  Reader.parenthesized .args g.expression

/-! ## Templates -/

/-- The first of the texts that has occurred before it, or is among those `seen`. -/
def firstRepeated (seen : List String) : List String → Option String
  | [] => none
  | s :: rest => if seen.contains s then some s else firstRepeated (s :: seen) rest

/-- The parameters of a template, if there are any; no name may occur twice. -/
def parameters (template : String) : Reader (List String) := do
  if ← Reader.atToken "(" then
    let names ← Reader.labels false
    match firstRepeated [] names with
    | some name => throw (.parameterTwice name template)
    | none => return names
  else return []

/-- A template: its name, its parameters and what it stands for. -/
def template : Reader Template := do
  let name ← Reader.identifier .withArg
  let params ← parameters name
  Reader.expect "=" .withArg
  return .mk name params (← g.expression)

/-- Templates and the expression that may use them. -/
def withTemplates : Reader Expr := do
  Reader.bump
  let templates ← Reader.parenthesized .withExpr g.template
  match firstRepeated [] (templates.map Template.name) with
  | some name => throw (.templateTwice name)
  | none => return .withTemplates templates (← g.expression)

/-! ## Calls -/

/-- A call of a function. -/
def call : Reader Expr := do
  let name ← Reader.identifier .function
  let args ← g.arguments
  if ← Reader.atKeepNames then
    Reader.bump
    return .call name args true
  else return .call name args false

/-- The grouping behind the arguments, where there was none before them. -/
def laterGrouping (earlier : Option Grouping) : Reader (Option Grouping) := do
  if ← Reader.atGrouping then
    if earlier.isSome then Reader.misuse .secondGrouping
    else return some (← Reader.grouping)
  else return earlier

/-- An aggregate.  Its grouping stands before or behind its arguments. -/
def aggregate : Reader Expr := do
  let name ← Reader.identifier .aggregate
  let earlier ←
    if startsIdent (← Reader.token).toList then
      if ← Reader.atGrouping then some <$> Reader.grouping
      else Reader.unexpected .aggregate "\"by\" or \"without\""
    else pure none
  if ← Reader.atToken "(" then
    let args ← g.arguments
    let grouping ← laterGrouping earlier
    let limit ← if ← Reader.atWord "limit" then Reader.limit else pure 0
    return .aggregate ⟨lower name, grouping, limit⟩ args
  else Reader.unexpected .aggregate "\"(\""

/-- An operand that starts with an identifier: the token behind it tells what it is. -/
def identExpr : Reader Expr := do
  let isAggregate := isAggregateName (unescapeIdent (← Reader.token))
  let next ← Reader.lookAt 1
  if next == "" || sameWord next "offset" then Reader.metric
  -- A word behind an aggregate is taken for its grouping, behind a metric for an operator.
  else if startsIdent next.toList then
    if isAggregate then g.aggregate else Reader.metric
  else if isOperatorWord next then Reader.metric
  else if next == "(" then
    if isAggregate then g.aggregate else g.call
  else if ["\x7b", "[", ")", ",", "@"].contains next then Reader.metric
  else
    -- The message is about the token behind the name.
    Reader.bump
    Reader.unexpected .identExpr "\"(\", \"\x7b\", \"[\", \")\", \",\" or \"@\""

/-! ## Parentheses and literals -/

/-- Marks a lone binary operator as one that keeps the names of metrics. -/
def markLone : List Expr → Option (List Expr)
  | [.binary b l r] => some [.binary { b with keepNames := true } l r]
  | _ => none

/-- Expressions in parentheses.  The mark that the names of metrics are kept belongs to a single
binary operator inside; else it is left to what surrounds the parentheses. -/
def tuple : Reader Expr := do
  let items ← g.arguments
  if ← Reader.atKeepNames then
    match markLone items with
    | some items =>
        Reader.bump
        return .tuple items
    | none => return .tuple items
  else return .tuple items

/-- A number or a word for one. -/
def number (text : String) : Reader Expr := do
  let n ← Reader.ofExcept .number (NumberLiteral.ofToken text)
  Reader.bump
  return .number n

/-- A string, which may refer to templates. -/
def stringOperand : Reader Expr := do
  let s ← Reader.stringExpr
  match s.literal? with
  | some value => return .string value
  | none => return .concat s

/-- The negation of an operand: it is taken from zero. -/
def negation : Reader Expr := do
  -- Folding makes a number of it where the operand is one.
  Reader.bump
  return .binary (.plain .sub) (.ofFloat 0.0) (← g.operand)

/-- The token is a word for an infinity or for no number. -/
def isNumberWord (text : String) : Bool :=
  sameWord text "inf" || sameWord text "nan"

/-- An operand without a range behind it. -/
def bareOperand : Reader Expr := do
  let text ← Reader.token
  if text == "" then throw .endOfText
  else if isPositiveDuration text then
    Reader.bump
    return .duration ⟨text, false⟩
  else if startsNumber text.toList || isNumberWord text then number text
  else if startsQuoted text.toList then stringOperand
  else if startsIdent text.toList then g.identExpr
  else if text == "(" then g.tuple
  else if text == "\x7b" then Reader.metric
  else if text == "-" then g.negation
  else if text == "+" then
    Reader.bump
    g.operand
  else Reader.unexpected .single ""

/-! ## Rollups -/

/-- A range starts with this token. -/
def startsRange (text : String) : Bool :=
  text == "[" || text == "@" || sameWord text "offset"

/-- The time behind an `@`, if there is one. -/
def time : Reader (Option Expr) := do
  if ← Reader.atToken "@" then
    Reader.bump
    fun feed =>
      match g.bareOperand feed with
      | .ok (e, feed) => .ok (some e, feed)
      | .error cause => .error (.atExpr cause)
  else return none

/-- The time behind an offset, where there was none before it. -/
def laterTime (earlier : Option Expr) : Reader (Option Expr) := do
  if earlier.isSome && (← Reader.atToken "@") then Reader.misuse .secondAt
  else if earlier.isSome then return earlier
  else g.time

/-- The range behind an operand.  A mark that the names of metrics are kept belongs to the operand,
if it is a call or a binary operator. -/
def rollup (inner : Expr) : Reader Expr := do
  let range ← Reader.window
  let earlier ← g.time
  let offset ← Reader.offset
  let time ← g.laterTime earlier
  let range := { range with offset }
  if ← Reader.atKeepNames then
    match inner.markKeepNames with
    | some inner =>
        Reader.bump
        return .rollup inner range time
    | none => return .rollup inner range time
  else return .rollup inner range time

/-- Templates start here: the word `with` and a parenthesis. -/
def atTemplates : Reader Bool := do
  if ← Reader.atWord "with" then return (← Reader.lookAt 1) == "("
  else return false

/-- An operand with the range behind it, or templates and the expression that may use them. -/
def fullOperand : Reader Expr := do
  if ← atTemplates then g.withTemplates
  else
    let inner ← g.bareOperand
    if startsRange (← Reader.token) then g.rollup inner
    else return inner

end Grammar

end SeriesQuery
