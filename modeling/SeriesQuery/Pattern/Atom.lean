import SeriesQuery.Pattern.Syntax
import SeriesQuery.Text.Blank
import SeriesQuery.Text.Quoted

/-!
# Atoms of patterns

Under the flag `x` a pattern is *spaced*: white space and comments from `#` to the end of the line
do not count.  All readers take that as their first argument.

* `skipBlanks` — skips what does not count;
* `readBraced` — the text up to a closing brace;
* `readEscape` — the atom behind a backslash.
-/

namespace SeriesQuery
namespace Pattern

open Text

/-! ## Blanks -/

/-- Skips white space and comments; `inComment` tells that a comment is open. -/
def skipBlanksFrom (inComment : Bool) : List Char → List Char
  | [] => []
  | c :: rest =>
      if inComment then skipBlanksFrom (c != '\n') rest
      else if isWhiteSpace c then skipBlanksFrom false rest
      else if c == '#' then skipBlanksFrom true rest
      else c :: rest

/-- Skips what does not count. -/
def skipBlanks (spaced : Bool) (cs : List Char) : List Char :=
  if spaced then skipBlanksFrom false cs else cs

/-- Reads the text up to a closing brace without what does not count, and goes behind the brace. -/
def readBracedFrom (spaced inComment : Bool) : List Char → Option (List Char × List Char)
  | [] => none
  | c :: rest =>
      if inComment then readBracedFrom spaced (c != '\n') rest
      else if spaced && isWhiteSpace c then readBracedFrom spaced false rest
      else if spaced && c == '#' then readBracedFrom spaced true rest
      else if c == '}' then some ([], rest)
      else (readBracedFrom spaced false rest).map fun (text, rest) => (c :: text, rest)

/-- Reads the text behind an opening brace. -/
def readBraced (spaced : Bool) (cs : List Char) : Option (List Char × List Char) :=
  readBracedFrom spaced false cs

/-! ## Characters by their number -/

/-- The digits of a number of fixed length. -/
def takeHexDigits (spaced : Bool) : Nat → List Char → Option (List Char × List Char)
  | 0, cs => some ([], cs)
  | n + 1, c :: rest =>
      if isHexDigit c then
        (takeHexDigits spaced n (skipBlanks spaced rest)).map fun (digits, rest) =>
          (c :: digits, rest)
      else none
  | _ + 1, [] => none

/-- The character with the number that the digits spell. -/
def charOfDigits (digits : List Char) : Option Char :=
  (readNat 16 digits).bind charOfNat?

/-- How many digits follow a letter when there are no braces. -/
def hexLength (letter : Char) : Option Nat :=
  if letter == 'x' then some 2
  else if letter == 'u' then some 4
  else if letter == 'U' then some 8
  else none

/-- Reads a character by its number, in braces or with a fixed count of digits. -/
def readHex (spaced : Bool) (digits : Nat) (cs : List Char) : Option (Literal × List Char) := do
  match skipBlanks spaced cs with
  | '{' :: rest =>
      let (text, rest) ← readBraced spaced rest
      let c ← charOfDigits text
      pure (⟨c, false⟩, rest)
  | cs =>
      let (text, rest) ← takeHexDigits spaced digits cs
      let c ← charOfDigits text
      pure (⟨c, digits == 2⟩, rest)

/-! ## Properties -/

/-- Splits a text at the first place where the mark stands. -/
def splitAtMark (mark : List Char) : List Char → Option (List Char × List Char)
  | [] => none
  | c :: rest =>
      if mark.isPrefixOf (c :: rest) then some ([], (c :: rest).drop mark.length)
      else (splitAtMark mark rest).map fun (before, after) => (c :: before, after)

/-- A property as it is written in braces: `name`, or `name` and `value` with `!=`, `:` or `=`
between them.  Of several marks the first of this list counts. -/
def propertyOf (text : List Char) : Property :=
  let found := (splitAtMark ['!', '='] text).or <| (splitAtMark [':'] text).or <|
    splitAtMark ['='] text
  match found with
  | some (name, value) => .valued (String.ofList name) (String.ofList value)
  | none => .named (String.ofList text)

/-- Reads a property, in braces or with a single letter. -/
def readProperty (spaced : Bool) (cs : List Char) : Option (Property × List Char) :=
  match skipBlanks spaced cs with
  | [] => none
  | c :: rest =>
      if c == '{' then
        (readBraced spaced rest).map fun (text, rest) => (propertyOf text, rest)
      else if c == '\\' then none
      else some (.named (String.singleton c), rest)

/-! ## Escapes -/

/-- The class of a letter, and whether the letter is for what is not in it. -/
def letterClass? (c : Char) : Option (LetterClass × Bool) :=
  if c == 'd' then some (.digit, false)
  else if c == 's' then some (.space, false)
  else if c == 'w' then some (.word, false)
  else if c == 'D' then some (.digit, true)
  else if c == 'S' then some (.space, true)
  else if c == 'W' then some (.word, true)
  else none

/-- The sign behind a backslash names a place. -/
def isPlaceSign (c : Char) : Bool :=
  c == 'A' || c == 'z' || c == 'B' || c == '<' || c == '>'

/-- The sign stands for itself behind a backslash: all of ASCII but letters, digits and the angle
brackets. -/
def isEscapable (c : Char) : Bool :=
  c.toNat < 128 && !isAsciiLetter c && !isDigit c && c != '<' && c != '>'

/-- The places that are named in braces behind the letter `b`. -/
def placeNames : List String :=
  ["start", "end", "start-half", "end-half"]

/-- What may stand in the name of a place. -/
def isPlaceNameChar (c : Char) : Bool :=
  isAsciiLetter c || c == '-'

/-- Reads the name of a place behind the letter `b`.  A brace that does not start such a name is
left alone. -/
def readPlaceName (spaced : Bool) (cs : List Char) : Option (List Char) :=
  match cs with
  | '{' :: rest =>
      match skipBlanks spaced rest with
      | [] => none
      | c :: _ =>
          if isPlaceNameChar c then do
            let (name, rest) ← readBraced spaced rest
            guard (placeNames.contains (String.ofList name))
            pure rest
          else some cs
  | _ => some cs

/-- Reads the atom behind a backslash. -/
def readEscape (spaced : Bool) (cs : List Char) : Option (Atom × List Char) :=
  match cs with
  | [] => none
  | c :: rest =>
      match hexLength c with
      | some n => (readHex spaced n rest).map fun (l, rest) => (.literal l, rest)
      | none =>
          match letterClass? c with
          | some (kind, negated) => some (.letterClass kind negated, rest)
          | none =>
              if c == 'p' || c == 'P' then
                (readProperty spaced rest).map fun (p, rest) => (.property p (c == 'P'), rest)
              else if c == 'b' then
                (readPlaceName spaced rest).map fun rest => (.place, rest)
              else if isPlaceSign c then some (.place, rest)
              else if isEscapable c then some (.ofChar c, rest)
              else (controlLetter c).map fun control => (.ofChar control, rest)

end Pattern
end SeriesQuery
