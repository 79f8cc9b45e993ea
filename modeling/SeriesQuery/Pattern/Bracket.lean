import SeriesQuery.Pattern.Atom

/-!
# Classes in brackets

A class lists characters, ranges and other classes.  Classes inside are in brackets too, or are
named as in `[:alpha:]`.  `&&`, `--` and `~~` combine all that stands before them with what follows;
they have no precedence over each other and group to the left.

`readBracket` reads a class from behind its opening bracket to behind its closing one.
-/

namespace SeriesQuery
namespace Pattern

open Text

/-! ## Named classes -/

/-- The names in `[:name:]`. -/
def asciiClassNames : List String :=
  ["alnum", "alpha", "ascii", "blank", "cntrl", "digit", "graph", "lower", "print", "punct",
    "space", "upper", "word", "xdigit"]

/-- Reads a class such as `[:alpha:]` or `[:^alpha:]` from behind its bracket, if there is one. -/
def readNamed (cs : List Char) : Option (CharSet × List Char) :=
  match cs with
  | ':' :: rest =>
      let negated := rest.head? == some '^'
      let rest := if negated then rest.drop 1 else rest
      let name := String.ofList (rest.takeWhile (· != ':'))
      match rest.dropWhile (· != ':') with
      | ':' :: ']' :: rest =>
          if asciiClassNames.contains name then some (.named name negated, rest) else none
      | _ => none
  | _ => none

/-! ## Single members and ranges -/

/-- Reads a character or an escape. -/
def readMember (spaced : Bool) (cs : List Char) : Option (Atom × List Char) :=
  match cs with
  | [] => none
  | c :: rest => if c == '\\' then readEscape spaced rest else some (.ofChar c, rest)

/-- The next sign that counts behind a dash.  Only the start of a comment is passed over, not the
comment. -/
def afterDash (spaced : Bool) (cs : List Char) : Option Char :=
  if spaced then
    match cs.dropWhile isWhiteSpace with
    | '#' :: rest => (rest.dropWhile isWhiteSpace).head?
    | rest => rest.head?
  else cs.head?

/-- The set of a single member.  A place is no member. -/
def setOfAtom : Atom → Option CharSet
  | .place => none
  | a => some (.atom a)

/-- Reads a member, or a range if a dash follows.  A dash before a closing bracket or before another
dash makes no range. -/
def readRange (spaced : Bool) (cs : List Char) : Option (CharSet × List Char) := do
  let (first, rest) ← readMember spaced cs
  match skipBlanks spaced rest with
  | [] => none
  | c :: after =>
      let next := afterDash spaced after
      if c != '-' || next == some ']' || next == some '-' then
        let s ← setOfAtom first
        pure (s, c :: after)
      else
        let (last, rest) ← readMember spaced (skipBlanks spaced after)
        let a ← first.literal?
        let b ← last.literal?
        guard (a.char ≤ b.char)
        pure (.range a b, rest)

/-! ## Whole classes -/

/-- A class as far as it has been read. -/
structure OpenSet where
  negated : Bool
  /-- What stands before the last operator, and that operator. -/
  left : Option (SetOp × CharSet)
  /-- What stands behind it, the last item first. -/
  items : List CharSet

namespace OpenSet

/-- The class with one more item. -/
def add (s : OpenSet) (item : CharSet) : OpenSet :=
  { s with items := item :: s.items }

/-- The set that has been read. -/
def toSet (s : OpenSet) : CharSet :=
  let right := CharSet.ofItems s.items.reverse
  match s.left with
  | none => right
  | some (o, left) => .op o left right

/-- The class behind an operator. -/
def combine (s : OpenSet) (o : SetOp) : OpenSet :=
  { s with left := some (o, s.toSet), items := [] }

/-- The class when it is closed. -/
def close (s : OpenSet) : CharSet :=
  .bracket s.negated s.toSet

end OpenSet

/-- The operator at the start of a text. -/
def setOp? : List Char → Option SetOp
  | '&' :: '&' :: _ => some .intersection
  | '-' :: '-' :: _ => some .difference
  | '~' :: '~' :: _ => some .symmetricDifference
  | _ => none

/-- Reads the dashes at the start of a class, which stand for themselves. -/
def readDashes (spaced : Bool) : Nat → OpenSet → List Char → OpenSet × List Char
  | 0, s, cs => (s, cs)
  | fuel + 1, s, cs =>
      match cs with
      | '-' :: rest => readDashes spaced fuel (s.add (.atom (.ofChar '-'))) (skipBlanks spaced rest)
      | cs => (s, cs)

/-- Reads the start of a class from behind its bracket: a sign of negation, dashes, and if there is
no dash a closing bracket that stands for itself. -/
def openBracket (spaced : Bool) (cs : List Char) : OpenSet × List Char :=
  let cs := skipBlanks spaced cs
  let negated := cs.head? == some '^'
  let cs := if negated then skipBlanks spaced (cs.drop 1) else cs
  let (s, cs) := readDashes spaced cs.length ⟨negated, none, []⟩ cs
  if s.items.isEmpty && cs.head? == some ']' then
    (s.add (.atom (.ofChar ']')), skipBlanks spaced (cs.drop 1))
  else (s, cs)

/-- Reads on in a class to behind its closing bracket, in at most `fuel` steps. -/
def readSet (spaced : Bool) : Nat → OpenSet → List Char → Option (CharSet × List Char)
  | 0, _, _ => none
  | fuel + 1, s, cs =>
      match skipBlanks spaced cs with
      | [] => none
      | c :: rest =>
          if c == ']' then some (s.close, rest)
          else if c == '[' then
            match readNamed rest with
            | some (item, rest) => readSet spaced fuel (s.add item) rest
            | none =>
                let (inner, rest) := openBracket spaced rest
                match readSet spaced fuel inner rest with
                | some (item, rest) => readSet spaced fuel (s.add item) rest
                | none => none
          else
            match setOp? (c :: rest) with
            | some o => readSet spaced fuel (s.combine o) (rest.drop 1)
            | none =>
                match readRange spaced (c :: rest) with
                | some (item, rest) => readSet spaced fuel (s.add item) rest
                | none => none

/-- Reads a class from behind its opening bracket to behind its closing one.  Every step takes a
character at least. -/
def readBracket (spaced : Bool) (cs : List Char) : Option (CharSet × List Char) :=
  let (s, rest) := openBracket spaced cs
  readSet spaced (cs.length + 1) s rest

end Pattern
end SeriesQuery
