import SeriesQuery.Label.Selector
import SeriesQuery.Operator.Basic
import SeriesQuery.Token.Basic

/-!
# Errors of queries

`ParseError` lists what can be wrong with a query.  An error that concerns a place in the query
holds that place by counting tokens, so that the wording alone depends on how the tokens are laid
out: `ParseError.message` is given the text of the query.
-/

namespace SeriesQuery

open Text

/-! ## Places -/

/-- A place in a query: the current token, and how much is left to scan.  For `unscanned = 0` the
end has been seen, for `n + 1` there are `n` tokens that have not been looked at. -/
structure Place where
  token : String
  unscanned : Nat
  deriving DecidableEq, Repr

namespace Place

/-- The text of the query that has not been scanned. -/
def restOf (query : String) (p : Place) : String :=
  match p.unscanned with
  | 0 => ""
  | n + 1 =>
      match (Lexeme.ofText query.toList).1.reverse[n]? with
      | some lexeme => String.ofList lexeme.rest
      | none => ""

/-- The current token and the text that has not been scanned. -/
def contextOf (query : String) (p : Place) : String :=
  p.token ++ p.restOf query

end Place

/-! ## Unexpected tokens -/

/-- The parts of the grammar that messages name. -/
inductive Construct where
  | args
  | identList
  | withExpr
  | withArg
  | function
  | aggregate
  | metric
  | labelFilters
  | labelFilter
  | window
  | duration
  | atModifier
  | single
  | identExpr
  | stringExpr
  deriving DecidableEq, Repr

namespace Construct

/-- What messages call the part. -/
def name : Construct → String
  | args => "args"
  | identList => "ident list"
  | withExpr => "with expression"
  | withArg => "with argument"
  | function => "function"
  | aggregate => "aggregate function"
  | metric => "metric"
  | labelFilters => "label filters"
  | labelFilter => "label filter"
  | window => "window"
  | duration => "duration"
  | atModifier => "@ modifier"
  | single => "single expression"
  | identExpr => "identifier expression"
  | stringExpr => "string expression"

end Construct

/-- Words that are read but must not stand where they are. -/
inductive Misuse where
  /-- The word `bool` after an operator that is no comparison. -/
  | boolModifier (op : Operator)
  /-- A join after a set operator. -/
  | join (side : JoinSide) (op : Operator)
  /-- A second `@`. -/
  | secondAt
  /-- A second `by` or `without`. -/
  | secondGrouping
  /-- The word `limit` without a number. -/
  | limit (token : String)
  /-- The word `or` without filters after it. -/
  | danglingOr
  deriving DecidableEq, Repr

namespace Misuse

/-- What is said about the words. -/
def message : Misuse → String
  | boolModifier op => "bool modifier cannot be applied to " ++ op.symbol
  | join side op => "modifier " ++ side.word ++ " cannot be applied to " ++ op.symbol
  | secondAt => "duplicate \x60@\x60 modifier"
  | secondGrouping => "duplicate aggregate modifier"
  | limit token => "LIMIT should be a positive integer; got " ++ shown token
  | danglingOr => "missing label filters after \x60or\x60"

end Misuse

/-! ## Expansion -/

/-- What can be wrong with the use of templates.  Expressions are held as their text. -/
inductive ExpansionError where
  /-- Templates refer to each other too deeply. -/
  | tooDeep (name : String) (limit : Nat)
  | missingDuration (name : String)
  | notDuration (name got : String)
  | notLabels (label got : String)
  | notString (name within got : String)
  | missingString (name within : String)
  | missingFilters (name : String)
  | filtersWithOr (name got : String)
  | notFilters (name got : String)
  | bothWithOr (name template : String)
  | takesNoFilters (name got : String)
  | filterSplice (label : String)
  | unresolvedFilter (text : String)
  deriving DecidableEq, Repr

namespace ExpansionError

/-- What is said about the templates. -/
def message : ExpansionError → String
  | tooDeep name limit =>
      "too deep nesting of WITH templates at " ++ shown name ++ "; the maximum depth is " ++
        toString limit
  | missingDuration name => "cannot find WITH template for " ++ shown name
  | notDuration name got => "expecting a duration for " ++ shown name ++ "; got " ++ got
  | notLabels label got =>
      shown label ++ " must expand to a label name or a list of label names; got " ++ got
  | notString name within got =>
      shown name ++ " must be a string in " ++ within ++ "; got " ++ got
  | missingString name within =>
      "cannot expand " ++ shown name ++ " to string in string expression " ++ within
  | missingFilters name =>
      "cannot find WITH template for " ++ shown name ++ " inside label filters"
  | filtersWithOr name got =>
      shown name ++ " must not contain \x60or\x60 filters; got " ++ got
  | notFilters name got =>
      shown name ++ " must be filters in curly braces without a metric name; got " ++ got
  | bothWithOr name template =>
      "cannot merge \x60or\x60 filters of " ++ template ++ " with \x60or\x60 filters at " ++
        shown name
  | takesNoFilters name got =>
      "cannot add label filters to " ++ shown name ++ ", since it expands to " ++ got
  | filterSplice label =>
      "cannot convert label filter splice " ++ escapeIdent label ++ " to a label filter"
  | unresolvedFilter text => "unresolved label filter value in " ++ text

end ExpansionError

/-! ## All errors -/

/-- What can be wrong with a query. -/
inductive ParseError where
  | scan (cause : ScanError)
  | literal (cause : QuoteError)
  | number (cause : NumberError)
  | duration (cause : DurationError)
  | pattern (cause : PatternError)
  | expansion (cause : ExpansionError)
  /-- The query ends where an operand is wanted. -/
  | endOfText
  | unexpected (what : Construct) (wanted : String) (place : Place)
  | misuse (cause : Misuse) (place : Place)
  /-- Tokens are left behind a complete expression. -/
  | leftOver (place : Place)
  /-- A star stands beside other labels. -/
  | starAmong (labels : List String)
  | atExpr (cause : ParseError)
  | negatedTemplate (name : String)
  | templateTwice (name : String)
  | parameterTwice (parameter template : String)
  | argumentCount (signature : String) (expected actual : Nat)
  | tooNested (limit : Nat)
  | unknownFunction (name : String)
  | unknownCall (name : String)
  | unknownOperator (word : String)
  | unknownMatching (word : String)
  | unknownJoin (word : String)
  | unknownFilterOp (sign : String)
  /-- An error that a resolver of names reports in its own words. -/
  | custom (text : String)

namespace ParseError

/-- A fault of a filter as an error of the query. -/
def ofFilter : FilterError → ParseError
  | .pattern cause => pattern cause
  | .splice label => expansion (.filterSplice label)
  | .unresolved text => expansion (.unresolvedFilter text)

/-- What is said about an unexpected token. -/
def unexpectedMessage (query : String) (what : Construct) (wanted : String) (p : Place) :
    String :=
  let found := if p.token.isEmpty then "end of input" else "token " ++ shown p.token
  let wish := if wanted.isEmpty then "" else "; want " ++ wanted
  let rest := if p.token.isEmpty then "" else p.restOf query
  let left := if rest.isEmpty then "" else "; unparsed data: " ++ shown rest
  what.name ++ ": unexpected " ++ found ++ wish ++ left

/-- What the error says about the query. -/
def message (query : String) : ParseError → String
  | scan cause => "Syntax Error: " ++ cause.message
  | literal cause => "Syntax Error: " ++ cause.message
  | number cause => cause.message
  | duration cause => cause.message
  | pattern cause => cause.message
  | expansion cause => "Error expanding WITH expression: " ++ cause.message
  | endOfText => "Unexpected end of text"
  | unexpected what wanted place => "Syntax Error: " ++ unexpectedMessage query what wanted place
  | misuse cause place =>
      "Syntax Error: " ++ cause.message ++ "; unparsed data: " ++ shown (place.contextOf query)
  | leftOver place =>
      "Syntax Error: unparsed data left: " ++ shown (place.contextOf query)
  | starAmong labels =>
      "Syntax Error: \x60*\x60 cannot be mixed with other labels; got (" ++
        String.intercalate ", " labels ++ ")"
  | atExpr cause =>
      "Syntax Error: cannot parse \x60@\x60 expression: " ++ message query cause
  | negatedTemplate name => "Syntax Error: cannot negate offset template " ++ name
  | templateTwice name => "Duplicate argument \x60" ++ name ++ "\x60"
  | parameterTwice parameter template =>
      "Duplicate argument \x60duplicate arg " ++ shown parameter ++ " in WITH template " ++
        shown template ++ "\x60"
  | argumentCount signature expected actual =>
      signature ++ ": expected " ++ toString expected ++ " args; got " ++ toString actual ++
        " args"
  | tooNested limit => "query nesting exceeds the maximum depth of " ++ toString limit
  | unknownFunction name => "Unknown function " ++ name
  | unknownCall name => "Unknown function " ++ name ++ "()"
  | unknownOperator word => "Unknown binary op " ++ word
  | unknownMatching word => "Unknown group_modifier op: " ++ word
  | unknownJoin word => "Unknown join_modifier op: " ++ word
  | unknownFilterOp sign => "Unexpected match op literal: " ++ sign
  | custom text => text

end ParseError

end SeriesQuery
