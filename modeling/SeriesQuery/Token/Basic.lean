import SeriesQuery.Duration
import SeriesQuery.Text.Quoted

/-!
# Tokens

A query is read as tokens with blanks and comments between them.  A comment goes from `#` to the
end of the line.

* `scanToken` — the token at the start of a text;
* `scan` — skips blanks and comments, then scans a token;
* `Lexeme.ofText` — all tokens of a text, up to its end or to the first failure.
-/

namespace SeriesQuery

open Text

/-! ## Failures -/

/-- Why no token can be scanned. -/
inductive ScanError where
  | badIdent (text : String)
  | badString (cause : QuoteError)
  | badNumber (cause : NumberError)
  | unknown (text : String)
  deriving DecidableEq, Repr

namespace ScanError

/-- What the failure says. -/
def message : ScanError → String
  | badIdent text => "cannot parse identifier at " ++ text
  | badString cause => cause.message
  | badNumber cause => "cannot parse number: " ++ cause.message
  | unknown text => "cannot recognize " ++ text

end ScanError

/-! ## One token -/

/-- The brackets and separators, each a token on its own. -/
def isPunctuation (c : Char) : Bool :=
  c == '{' || c == '}' || c == '[' || c == ']' || c == '(' || c == ')' || c == ',' || c == '@'

/-- The operators that are written with signs; a longer one stands before its own beginnings. -/
def operatorSigns : List (List Char) :=
  [['=', '='], ['!', '='], ['>', '='], ['<', '='], ['+'], ['-'], ['*'], ['/'], ['%'], ['^'],
    ['>'], ['<'], ['=', '~'], ['!', '~'], ['=']]

/-- An identifier may start here. -/
def startsIdent : List Char → Bool
  | c :: _ => c == '\\' || isIdentStart c
  | [] => false

/-- Splits off the first of the signs that the text starts with. -/
def splitSign (cs : List Char) : Option (List Char × List Char) :=
  (operatorSigns.find? fun sign => sign.isPrefixOf cs).map fun sign =>
    (sign, cs.drop sign.length)

/-- Splits off a sign, a duration or a number. -/
def splitSignOrNumber (cs : List Char) : Except ScanError (List Char × List Char) :=
  match splitSign cs with
  | some found => .ok found
  | none =>
      match splitDuration cs with
      | some found => .ok found
      | none =>
          if startsNumber cs then (splitNumber cs).mapError .badNumber
          else .error (.unknown (String.ofList cs))

/-- The token at the start of a text that starts with no blank, and what follows it. -/
def scanToken (cs : List Char) : Except ScanError (List Char × List Char) :=
  match cs with
  | [] => .error (.unknown "")
  | c :: rest =>
      if isPunctuation c then .ok ([c], rest)
      else if startsIdent cs then
        if (splitIdent cs).1.isEmpty then .error (.badIdent (String.ofList cs))
        else .ok (splitIdent cs)
      else if isQuote c then (splitQuoted cs).mapError .badString
      else splitSignOrNumber cs

/-! ## Gaps -/

/-- Skips blanks and comments; `inComment` tells that a comment is open. -/
def skipGapFrom (inComment : Bool) : List Char → List Char
  | [] => []
  | c :: rest =>
      if inComment then skipGapFrom (c != '\n') rest
      else if isSpace c then skipGapFrom false rest
      else if c == '#' then skipGapFrom true rest
      else c :: rest

/-- What follows the blanks and comments at the start of a text. -/
def skipGap (cs : List Char) : List Char :=
  skipGapFrom false cs

/-- What scanning finds: a token and the text after it, the end, or a failure before some text. -/
inductive Scan where
  | token (text : String) (rest : List Char)
  | done
  | failed (cause : ScanError) (rest : List Char)
  deriving DecidableEq, Repr

/-- Scans the next token. -/
def scan (cs : List Char) : Scan :=
  match skipGap cs with
  | [] => .done
  | text =>
      match scanToken text with
      | .ok (token, rest) => .token (String.ofList token) rest
      | .error cause => .failed cause text

/-! ## All tokens -/

/-- A token and the text that follows it. -/
structure Lexeme where
  text : String
  rest : List Char
  deriving DecidableEq, Repr

namespace Lexeme

/-- The tokens of a text up to its end or to the first failure, at most `fuel` of them. -/
def scanAll : Nat → List Char → List Lexeme × Option ScanError
  | 0, _ => ([], none)
  | fuel + 1, cs =>
      match scan cs with
      | .done => ([], none)
      | .failed cause _ => ([], some cause)
      | .token text rest =>
          let (lexemes, failure) := scanAll fuel rest
          (⟨text, rest⟩ :: lexemes, failure)

/-- The tokens of a text up to its end or to the first failure.  A token has one character at
least, so there are no more tokens than characters. -/
def ofText (cs : List Char) : List Lexeme × Option ScanError :=
  scanAll (cs.length + 1) cs

end Lexeme

end SeriesQuery
