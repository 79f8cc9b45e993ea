import SeriesQuery.Pattern.Atom
import SeriesQuery.Text.Alphabetic

/-!
# Heads of groups and counts of repeats

What stands behind an opening parenthesis decides about the group: `(?P<name>` and `(?<name>` name
what it keeps, `(?flags:` switches flags inside, and `(?flags)` is no group but switches flags up to
the end of the enclosing one.  Looking around with `(?=`, `(?!`, `(?<=` and `(?<!` is refused.
-/

namespace SeriesQuery
namespace Pattern

open Text

/-! ## Flags -/

/-- Reads flags up to a colon or a closing parenthesis.  A flag may occur once, and so may the dash;
behind a dash there is a flag.  `dash` tells that there has been a dash, and `pending` that nothing
stands behind it yet. -/
def readFlags (change : FlagChange) (dash pending : Bool) :
    List Char → Option (FlagChange × List Char)
  | [] => none
  | c :: rest =>
      if c == ':' || c == ')' then
        if pending then none else some (change, c :: rest)
      else if c == '-' then
        if dash then none else readFlags change true true rest
      else
        match Flag.ofChar? c with
        | none => none
        | some f =>
            if change.on.contains f || change.off.contains f then none
            else if dash then readFlags { change with off := change.off ++ [f] } dash false rest
            else readFlags { change with on := change.on ++ [f] } dash false rest

/-! ## Names -/

/-- The first character of a name. -/
def startsGroupName (c : Char) : Bool :=
  c == '_' || isAlphabetic c

/-- A further character of a name. -/
def isGroupNameChar (c : Char) : Bool :=
  c == '_' || c == '.' || c == '[' || c == ']' || isAlphabetic c || isNumeral c

/-- Reads the name of a group and the bracket behind it. -/
def readGroupName (cs : List Char) : Option (String × List Char) :=
  match cs with
  | [] => none
  | c :: rest =>
      match rest.dropWhile isGroupNameChar with
      | '>' :: after =>
          if startsGroupName c then
            some (String.ofList (c :: rest.takeWhile isGroupNameChar), after)
          else none
      | _ => none

/-! ## Heads -/

/-- What an opening parenthesis begins. -/
inductive GroupHead where
  | flags (change : FlagChange)
  | unnamed
  | named (name : String)
  | plain (change : FlagChange)
  deriving DecidableEq, Repr

/-- Reads the head of a group whose flags are written with a question mark. -/
def readFlagHead (cs : List Char) : Option (GroupHead × List Char) := do
  let (change, rest) ← readFlags FlagChange.none false false cs
  match rest with
  | ':' :: rest => pure (.plain change, rest)
  | _ :: rest =>
      -- A question mark alone has nothing to repeat.
      guard (change != FlagChange.none)
      pure (.flags change, rest)
  | [] => none

/-- Reads the head of a group from behind its parenthesis. -/
def readGroupHead (spaced : Bool) (cs : List Char) : Option (GroupHead × List Char) :=
  match skipBlanks spaced cs with
  | '?' :: '=' :: _ => none
  | '?' :: '!' :: _ => none
  | '?' :: '<' :: '=' :: _ => none
  | '?' :: '<' :: '!' :: _ => none
  | '?' :: 'P' :: '<' :: rest =>
      (readGroupName rest).map fun (name, rest) => (.named name, rest)
  | '?' :: '<' :: rest =>
      (readGroupName rest).map fun (name, rest) => (.named name, rest)
  | '?' :: rest => readFlagHead rest
  | rest => some (.unnamed, rest)

/-! ## Counts -/

/-- The greatest number of a count. -/
def maxRepeat : Nat := Nat.pow 2 32 - 1

/-- Splits off digits.  What does not count may stand between them. -/
def splitCountDigits (spaced inComment : Bool) : List Char → List Char × List Char
  | [] => ([], [])
  | c :: rest =>
      if inComment then splitCountDigits spaced (c != '\n') rest
      else if isDigit c then
        let (digits, rest) := splitCountDigits spaced false rest
        (c :: digits, rest)
      else if spaced && isWhiteSpace c then splitCountDigits spaced false rest
      else if spaced && c == '#' then splitCountDigits spaced true rest
      else ([], c :: rest)

/-- Reads a number of a count; white space may stand around it. -/
def readCountNumber (spaced : Bool) (cs : List Char) : Option (Nat × List Char) := do
  let (digits, rest) := splitCountDigits spaced false (cs.dropWhile isWhiteSpace)
  let n ← readNat 10 digits
  guard (n ≤ maxRepeat)
  pure (n, skipBlanks spaced (rest.dropWhile isWhiteSpace))

/-- Reads a count from behind its opening brace: `{n}`, `{n,}` or `{n,m}`.  A question mark behind
it belongs to it. -/
def readRepeat (spaced : Bool) (cs : List Char) : Option (Repeat × List Char) := do
  let (least, rest) ← readCountNumber spaced (skipBlanks spaced cs)
  let (count, rest) ← match rest with
    | ',' :: rest =>
        match skipBlanks spaced rest with
        | '}' :: rest => pure (⟨least, none⟩, rest)
        | rest => do
            let (most, rest) ← readCountNumber spaced rest
            guard (least ≤ most)
            match rest with
            | '}' :: rest => pure (⟨least, some most⟩, rest)
            | _ => none
    | '}' :: rest => pure (⟨least, some least⟩, rest)
    | _ => none
  match skipBlanks spaced rest with
  | '?' :: rest => pure (count, rest)
  | rest => pure (count, rest)

/-- The repeat of a sign. -/
def signRepeat? (c : Char) : Option Repeat :=
  if c == '?' then some ⟨0, some 1⟩
  else if c == '*' then some ⟨0, none⟩
  else if c == '+' then some ⟨1, none⟩
  else none

/-- What follows a sign of a repeat; a question mark right behind the sign belongs to it. -/
def skipGreed : List Char → List Char
  | '?' :: rest => rest
  | rest => rest

end Pattern
end SeriesQuery
