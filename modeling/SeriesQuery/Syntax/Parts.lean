import SeriesQuery.Expr.Basic
import SeriesQuery.Syntax.Feed

/-!
# Parts without operands

Here are the rules of the grammar that hold no expressions: strings, selectors, the grouping and
limit of aggregates, the modifiers of operators, and the window and offset of rollups.
-/

namespace SeriesQuery

open Text

namespace Reader

/-! ## Strings -/

/-- A plus sign follows that goes on with the string: behind it stands a literal, or a name that
opens no call and no selector. -/
def continuesString : Reader Bool := do
  if ← atToken "+" then
    let next ← lookAt 1
    if startsQuoted next.toList then return true
    else if startsIdent next.toList then
      let opening ← lookAt 2
      return !(opening == "(" || opening == "\x7b")
    else return false
  else return false

/-- Adds the current token to a string, be it a literal or a name. -/
def segment (s : StringExpr) : Reader StringExpr := do
  let text ← token
  if startsQuoted text.toList then
    return s.pushLiteral (← ofExcept .literal (unquote text))
  else if startsIdent text.toList then return s.pushIdent (unescapeIdent text)
  else unexpected .stringExpr "string"

/-- Reads on a string.  Each part takes a token at least, so `fuel` is the number of tokens. -/
def stringFrom (s : StringExpr) : Nat → Reader StringExpr
  | 0 => unexpected .stringExpr "string"
  | fuel + 1 => do
      let s ← segment s
      bump
      if ← continuesString then
        bump
        stringFrom s fuel
      else return s

/-- Literals and names with plus signs between them. -/
def stringExpr : Reader StringExpr := do
  stringFrom .empty ((← get).tokens.length + 1)

/-! ## Selectors -/

/-- One filter of a selector, or the name of a template with filters. -/
def labelFilter : Reader FilterExpr := do
  let label ← identifier .labelFilter
  let sign ← token
  match FilterOp.ofSymbol? sign with
  | some op =>
      bump
      let value ← stringExpr
      ofExcept .pattern (FilterExpr.ofParts? op label value)
  | none =>
      if sign == "," || sign == "\x7d" || sameWord sign "or" then return .splice label
      else unexpected .labelFilter "\"=\", \"!=\", \"=~\" or \"!~\""

/-- Puts a filter before the first group. -/
def addToFirst (f : FilterExpr) : List (List FilterExpr) → List (List FilterExpr)
  | [] => [[f]]
  | group :: groups => (f :: group) :: groups

/-- Groups of filters up to the closing brace.  Each filter takes a token at least, so `fuel` is the
number of tokens. -/
def filterGroups : Nat → Reader (List (List FilterExpr))
  | 0 => unexpected .labelFilters "\",\", \"\x7d\" or \"or\""
  | fuel + 1 => do
      let f ← labelFilter
      if ← atToken "," then
        bump
        if ← atToken "\x7d" then
          bump
          return [[f]]
        else return addToFirst f (← filterGroups fuel)
      else if ← atToken "\x7d" then
        bump
        return [[f]]
      else if ← atWord "or" then
        bump
        if ← atToken "\x7d" then misuse .danglingOr
        else return [f] :: (← filterGroups fuel)
      else unexpected .labelFilters "\",\", \"\x7d\" or \"or\""

/-- Groups of filters in braces. -/
def bracedFilters : Reader (List (List FilterExpr)) := do
  expect "\x7b" .labelFilters
  if ← atToken "\x7d" then
    bump
    return []
  else filterGroups ((← get).tokens.length + 1)

/-- A selector that refers to no template is a plain one. -/
def ofSelectorExpr (s : SelectorExpr) : Reader Expr := do
  if s.isResolved then return .selector (← ofExcept .ofFilter s.toSelector)
  else return .selectorExpr s

/-- Puts the name of the metric before the filters of every group. -/
def nameGroups (name : String) (groups : List (List FilterExpr)) : List (List FilterExpr) :=
  (if groups.isEmpty then [[]] else groups).map (FilterExpr.named name :: ·)

/-- The name of a metric, filters in braces, or both. -/
def metric : Reader Expr := do
  if startsIdent (← token).toList then
    let name ← identifier .metric
    if ← atToken "\x7b" then ofSelectorExpr ⟨nameGroups name (← bracedFilters)⟩
    else ofSelectorExpr (.ofName name)
  else ofSelectorExpr ⟨← bracedFilters⟩

/-! ## Aggregates -/

/-- A grouping is read here. -/
def atGrouping : Reader Bool :=
  return (← atWord "by") || (← atWord "without")

/-- The labels that an aggregate keeps or drops. -/
def grouping : Reader Grouping := do
  let keeps ← atWord "by"
  bump
  let names ← labels false
  return if keeps then .by names else .without names

/-- The greatest number of results: a decimal numeral below `2 ^ 64`. -/
def limit : Reader Nat := do
  bump
  let text ← token
  match (readUnsigned 10 text.toList).filter (· < Nat.pow 2 64) with
  | some n =>
      bump
      return n
  | none => misuse (.limit text)

/-! ## Binary operators -/

/-- The mark that the names of metrics are kept is read here. -/
def atKeepNames : Reader Bool :=
  atWord "keep_metric_names"

/-- Goes past a `bool` behind a comparison. -/
def boolModifier (op : Operator) : Reader Bool := do
  if ← atWord "bool" then
    if op.isComparison then
      bump
      return true
    else misuse (.boolModifier op)
  else return false

/-- The string before the names of joined labels, if there is one. -/
def joinLead : Reader (Option StringExpr) := do
  if ← atWord "prefix" then
    bump
    return some (← stringExpr)
  else return none

/-- The join, if there is one, and the string before the names of its labels.  The list of labels
may be missing. -/
def join (op : Operator) : Reader (Option Join × Option StringExpr) := do
  match JoinSide.ofWord? (← token) with
  | none => return (none, none)
  | some side =>
      if op.isSetOperator then misuse (.join side op)
      else
        bump
        let names ← if ← atToken "(" then labels true else pure []
        return (some ⟨side, names⟩, ← joinLead)

/-- The modifiers behind an operator. -/
def modifiers (op : Operator) : Reader BinaryOp := do
  let asBool ← boolModifier op
  match MatchingKind.ofWord? (← token) with
  | none => return ⟨op, asBool, none, none, none, false⟩
  | some kind =>
      bump
      let names ← labels false
      let (side, lead) ← join op
      return ⟨op, asBool, some ⟨kind, names⟩, side, lead, false⟩

/-! ## Rollups -/

/-- The name of a template for a duration.  A colon ends the name, and stays with what follows it as
the current token. -/
def durationName (text : String) : Reader Duration := do
  let cs := text.toList
  if cs.contains ':' then
    replace (String.ofList (cs.dropWhile (· != ':')))
    return ⟨unescapeIdent (String.ofList (cs.takeWhile (· != ':'))), true⟩
  else
    bump
    return ⟨unescapeIdent text, true⟩

/-- A bare number that may stand for a duration in seconds: it has no multiplier. -/
def bareSeconds (text : String) : Except DurationError Duration :=
  match text.toList.getLast? with
  | some c =>
      if isDigit c || c == '.' then
        match readPositive text with
        | .ok _ => .ok ⟨text, false⟩
        | .error cause => .error (.badNumber text cause)
      else .error (.badToken text)
  | none => .error (.badToken text)

/-- A duration without a sign, a number of seconds, or the name of a template. -/
def duration : Reader Duration := do
  let text ← token
  if startsIdent text.toList then durationName text
  else if isPositiveDuration text then
    bump
    return ⟨text, false⟩
  else if startsNumber text.toList then
    let d ← ofExcept .duration (bareSeconds text)
    bump
    return d
  else unexpected .duration "duration"

/-- The step behind a window: after a colon, and either may be missing. -/
def step : Reader (Option Duration × Bool) := do
  match (← token).toList with
  | ':' :: rest =>
      -- The colon starts an identifier, so that the step may be the rest of its token.
      replace (String.ofList rest)
      if rest.isEmpty then bump
      if ← atToken "]" then return (none, rest.isEmpty)
      else return (some (← duration), false)
  | _ => return (none, false)

/-- A colon starts the current token. -/
def atColon : Reader Bool :=
  return (← token).toList.head? == some ':'

/-- The window and the step in brackets, if there are any. -/
def window : Reader Range := do
  if ← atToken "[" then
    bump
    let width ← if ← atColon then pure none else some <$> duration
    let (every, inherit) ← step
    if ← atToken "]" then
      bump
      return ⟨width, every, none, inherit⟩
    else unexpected .window "\"]\""
  else return .none

/-- The offset, if there is one. -/
def offset : Reader (Option Duration) := do
  if ← atWord "offset" then
    bump
    if ← atToken "-" then
      bump
      let d ← duration
      if d.isTemplate then throw (.negatedTemplate d.text)
      else return some ⟨"-" ++ d.text, false⟩
    else return some (← duration)
  else return none

end Reader

end SeriesQuery
