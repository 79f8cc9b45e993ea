import SeriesQuery.Pattern.Bracket
import SeriesQuery.Pattern.Group

/-!
# Reading patterns

A pattern is read from left to right.  Inside a group the reader goes on until the parenthesis that
closes it.  The flag `x` holds up to the end of the group that it is switched in, and no two groups
have one name.

`Node.ofText?` is the tree of a pattern, if its syntax is right.
-/

namespace SeriesQuery
namespace Pattern

open Text

/-- A group, or the whole pattern, as far as it has been read. -/
structure OpenGroup where
  spaced : Bool
  /-- The names of groups in the pattern so far. -/
  names : List String
  /-- The branches that are complete, the last first. -/
  branches : List Node
  /-- The parts of the branch that is not, the last first. -/
  parts : List Node

namespace OpenGroup

/-- A group of which nothing has been read. -/
def start (spaced : Bool) (names : List String) : OpenGroup :=
  ⟨spaced, names, [], []⟩

/-- The group with one more part. -/
def add (g : OpenGroup) (n : Node) : OpenGroup :=
  { g with parts := n :: g.parts }

/-- The branch that has been read last. -/
def branch (g : OpenGroup) : Node :=
  Node.ofParts g.parts.reverse

/-- The group where a new branch starts. -/
def nextBranch (g : OpenGroup) : OpenGroup :=
  { g with branches := g.branch :: g.branches, parts := [] }

/-- What the group holds. -/
def toNode (g : OpenGroup) : Node :=
  Node.ofBranches (g.branch :: g.branches).reverse

/-- The group where the last part is repeated, if it can be. -/
def repeatLast (g : OpenGroup) (count : Repeat) : Option OpenGroup :=
  match g.parts with
  | last :: before =>
      if last.isRepeatable then some { g with parts := .repeated count last :: before } else none
  | [] => none

/-- The group with a switch of flags. -/
def switch (g : OpenGroup) (change : FlagChange) : OpenGroup :=
  { g.add (.flags change) with spaced := change.apply .spaced g.spaced }

/-- The group with one more part, a group that has been read. -/
def addGroup (g : OpenGroup) (kind : GroupKind) (inner : OpenGroup) : OpenGroup :=
  { g.add (.group kind inner.toNode) with names := inner.names }

end OpenGroup

/-- What a head opens inside a group, if it opens a group and its name is new. -/
def openInner (g : OpenGroup) : GroupHead → Option (GroupKind × OpenGroup)
  | .flags _ => none
  | .unnamed => some (.capture, .start g.spaced g.names)
  | .named name =>
      if g.names.contains name then none
      else some (.capture, .start g.spaced (name :: g.names))
  | .plain change => some (.plain change, .start (change.apply .spaced g.spaced) g.names)

/-- Reads a single part that is no group and no repeat, from its first character. -/
def readPart (spaced : Bool) (c : Char) (rest : List Char) : Option (Node × List Char) :=
  if c == '[' then (readBracket spaced rest).map fun (s, rest) => (.set s, rest)
  else if c == '\\' then (readEscape spaced rest).map fun (a, rest) => (.atom a, rest)
  else if c == '.' then some (.atom .any, rest)
  else if c == '^' || c == '$' then some (.atom .place, rest)
  else some (.atom (.ofChar c), rest)

/-- Reads on in a group to the parenthesis that closes it or to the end, in at most `fuel` steps. -/
def readGroup : Nat → OpenGroup → List Char → Option (OpenGroup × List Char)
  | 0, _, _ => none
  | fuel + 1, g, cs =>
      match skipBlanks g.spaced cs with
      | [] => some (g, [])
      | c :: rest =>
          if c == ')' then some (g, c :: rest)
          else if c == '|' then readGroup fuel g.nextBranch rest
          else if c == '(' then
            match readGroupHead g.spaced rest with
            | none => none
            | some (.flags change, rest) => readGroup fuel (g.switch change) rest
            | some (head, rest) =>
                match openInner g head with
                | none => none
                | some (kind, inner) =>
                    match readGroup fuel inner rest with
                    | some (inner, _ :: rest) => readGroup fuel (g.addGroup kind inner) rest
                    | _ => none
          else if c == '{' then
            match readRepeat g.spaced rest with
            | none => none
            | some (count, rest) =>
                match g.repeatLast count with
                | none => none
                | some g => readGroup fuel g rest
          else
            match signRepeat? c with
            | some count =>
                match g.repeatLast count with
                | none => none
                | some g => readGroup fuel g (skipGreed rest)
            | none =>
                match readPart g.spaced c rest with
                | none => none
                | some (n, rest) => readGroup fuel (g.add n) rest

/-- The tree of a pattern.  Every step takes a character at least, so the steps are enough. -/
def Node.ofText? (pattern : String) : Option Node :=
  match readGroup (pattern.length + 1) (.start false []) pattern.toList with
  | some (g, []) => some g.toNode
  | _ => none

end Pattern
end SeriesQuery
