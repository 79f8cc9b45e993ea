import SeriesQuery.Text.Alphabetic
import SeriesQuery.Text.Blank
import SeriesQuery.Text.Hex

/-!
# Identifiers

Metric names, labels, functions and templates are written as identifiers.  Any character may stand
in one when a backslash precedes it, and `\xHH` and `\uHHHH` stand for a character by number.

* `isIdentStart`, `isIdentChar` — the characters that need no escape;
* `splitIdent` — the longest identifier at the start of a text, escapes kept;
* `unescape` — the name that an identifier stands for;
* `escapeIdent` — the identifier that stands for a name.
-/

namespace SeriesQuery
namespace Text

/-! ## Character classes -/

/-- A character that may start an identifier as it is. -/
def isIdentStart (c : Char) : Bool :=
  isAlphabetic c || c == '_' || c == ':'

/-- A character that may continue an identifier as it is. -/
def isIdentChar (c : Char) : Bool :=
  isIdentStart c || isDigit c || c == '.'

/-- Characters that are no blanks and no control characters, but still have no sign of their own. -/
def unprintableRanges : List (Nat × Nat) :=
  [(0xAD, 0xAD), (0x34F, 0x34F), (0x61C, 0x61C), (0x115F, 0x1160), (0x17B4, 0x17B5),
    (0x180B, 0x180F), (0x200B, 0x200F), (0x202A, 0x202E), (0x2060, 0x206F), (0xE000, 0xF8FF),
    (0xFEFF, 0xFEFF), (0xFFF0, 0xFFFB), (0xF0000, 0x10FFFF)]

/-- A character that identifiers and quoted strings hold as it is. -/
def isPrintable (c : Char) : Bool :=
  c == ' ' || !(isControl c || isWhiteSpace c || inRanges unprintableRanges c)

/-! ## Scanning -/

/-- How many characters belong to the escape that goes on after a backslash, if it is one. -/
def escapeLength : List Char → Option Nat
  | [] => none
  | c :: rest =>
      if c == 'x' || c == 'X' then
        if 2 ≤ rest.length && (rest.take 2).all isHexDigit then some 3 else none
      else if c == 'u' || c == 'U' then
        if 4 ≤ rest.length && (rest.take 4).all isHexDigit then some 5 else none
      else if isPrintable c then some 1
      else none

/-- Splits off an identifier.  `started` tells that a part of it has been taken already, and `owed`
is the number of characters that a pending escape still takes. -/
def splitIdentFrom (started : Bool) : Nat → List Char → List Char × List Char
  | _, [] => ([], [])
  | owed + 1, c :: rest =>
      let (taken, left) := splitIdentFrom true owed rest
      (c :: taken, left)
  | 0, c :: rest =>
      if (if started then isIdentChar c else isIdentStart c) then
        let (taken, left) := splitIdentFrom true 0 rest
        (c :: taken, left)
      else if c == '\\' then
        match escapeLength rest with
        | some n =>
            let (taken, left) := splitIdentFrom true n rest
            (c :: taken, left)
        | none => ([], c :: rest)
      else ([], c :: rest)

/-- The longest identifier at the start of the text, and what follows it. -/
def splitIdent (cs : List Char) : List Char × List Char :=
  splitIdentFrom false 0 cs

/-! ## Escaping -/

/-- The name behind an identifier.  A backslash that starts no escape is kept. -/
def unescape : List Char → List Char
  | [] => []
  | c :: rest =>
      if c != '\\' then c :: unescape rest
      else
        match rest with
        | [] => ['\\']
        | d :: tail =>
            if d == 'x' || d == 'X' then
              match tail with
              | a :: b :: after =>
                  match readNat 16 [a, b] with
                  | some n => Char.ofNat n :: unescape after
                  | none => '\\' :: d :: unescape (a :: b :: after)
              | short => '\\' :: d :: unescape short
            else if d == 'u' || d == 'U' then
              match tail with
              | a :: b :: e :: f :: after =>
                  match (readNat 16 [a, b, e, f]).bind charOfNat? with
                  | some ch => ch :: unescape after
                  | none => '\\' :: d :: unescape (a :: b :: e :: f :: after)
              | short => '\\' :: d :: unescape short
            else d :: unescape tail

/-- One character as an escape. -/
def escapeChar (c : Char) : List Char :=
  if isPrintable c then ['\\', c]
  else if c.toNat < 0x80 then '\\' :: 'x' :: hexPadded 2 c.toNat
  else '\\' :: 'u' :: hexPadded 4 c.toNat

/-- The characters after the first one, escaped where an identifier could not hold them. -/
def escapeTail (cs : List Char) : List Char :=
  cs.flatMap fun c => if isIdentChar c then [c] else escapeChar c

/-- The identifier for the name. -/
def escape : List Char → List Char
  | [] => []
  | c :: rest => (if isIdentStart c then [c] else escapeChar c) ++ escapeTail rest

/-- The name behind an identifier, on strings. -/
def unescapeIdent (s : String) : String :=
  String.ofList (unescape s.toList)

/-- The identifier for a name, on strings. -/
def escapeIdent (s : String) : String :=
  String.ofList (escape s.toList)

end Text
end SeriesQuery
