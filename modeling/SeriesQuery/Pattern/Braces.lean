import SeriesQuery.Text.Numeral

/-!
# Braces in patterns

In the patterns of label filters a brace that opens no repeat count stands for itself.
`escapeBraces` puts a backslash before each such brace; counts are `{n}`, `{n,}` and `{n,m}`.
-/

namespace SeriesQuery
namespace Pattern

open Text

/-- Follows a repeat count behind its opening brace, and tells whether it is complete and how many
characters were looked at.  `inside` tells that some have been looked at before, `comma` that a
comma was among them. -/
def readCount (inside comma : Bool) : List Char → Bool × Nat
  | [] => (false, 0)
  | c :: rest =>
      if c == ',' then
        if comma || !inside then (false, 1)
        else
          let (complete, n) := readCount true true rest
          (complete, n + 1)
      else if c == '}' then (inside, 1)
      else if isDigit c then
        let (complete, n) := readCount true comma rest
        (complete, n + 1)
      else (false, 1)

/-- Escapes the braces that open no repeat count.  `owed` is the number of characters that are taken
as they are: the one behind a backslash, and those that were looked at as a count. -/
def escapeBracesFrom : Nat → List Char → List Char
  | _, [] => []
  | owed + 1, c :: rest => c :: escapeBracesFrom owed rest
  | 0, c :: rest =>
      if c == '\\' then c :: escapeBracesFrom 1 rest
      else if c == '{' then
        let (complete, n) := readCount false false rest
        if complete then c :: escapeBracesFrom n rest
        else '\\' :: c :: escapeBracesFrom n rest
      else c :: escapeBracesFrom 0 rest

/-- The pattern with the braces that open no repeat count escaped. -/
def escapeBraces (pattern : String) : String :=
  String.ofList (escapeBracesFrom 0 pattern.toList)

end Pattern
end SeriesQuery
