/-!
# The syntax of patterns

A pattern is a tree of nodes.  The leaves are *atoms*: single characters, classes of characters and
places such as the start of a line.  A class in square brackets is a *set* made of atoms and ranges.

What a pattern matches is of no concern here, so a node keeps only what decides whether the pattern
is well formed: for instance not whether a repeat is greedy.
-/

namespace SeriesQuery
namespace Pattern

/-! ## Flags -/

/-- What a pattern can switch on and off. -/
inductive Flag where
  | ignoreCase
  | multiLine
  | dotAll
  | swapGreed
  | unicode
  | crlf
  | spaced
  deriving DecidableEq, Repr

namespace Flag

/-- The flag with this letter. -/
def ofChar? (c : Char) : Option Flag :=
  if c == 'i' then some ignoreCase
  else if c == 'm' then some multiLine
  else if c == 's' then some dotAll
  else if c == 'U' then some swapGreed
  else if c == 'u' then some unicode
  else if c == 'R' then some crlf
  else if c == 'x' then some spaced
  else none

end Flag

/-- Flags that are switched on and flags that are switched off. -/
structure FlagChange where
  on : List Flag
  off : List Flag
  deriving DecidableEq, Repr

namespace FlagChange

/-- No flag is switched. -/
def none : FlagChange :=
  ⟨[], []⟩

/-- Whether the flag is on after the change, when it was so before. -/
def apply (change : FlagChange) (flag : Flag) (before : Bool) : Bool :=
  if change.on.contains flag then true
  else if change.off.contains flag then false
  else before

end FlagChange

/-! ## Atoms -/

/-- A character that stands for itself.  An octet is one written with `\x` and two digits. -/
structure Literal where
  char : Char
  octet : Bool
  deriving DecidableEq, Repr

/-- The classes that have a letter of their own. -/
inductive LetterClass where
  | digit
  | space
  | word
  deriving DecidableEq, Repr

/-- A property of characters, by its name or by its name and its value. -/
inductive Property where
  | named (name : String)
  | valued (name value : String)
  deriving DecidableEq, Repr

/-- The leaves of a pattern. -/
inductive Atom where
  | literal (l : Literal)
  | letterClass (kind : LetterClass) (negated : Bool)
  | property (p : Property) (negated : Bool)
  | any
  | place
  deriving DecidableEq, Repr

namespace Atom

/-- The atom for a character that is written as it is. -/
def ofChar (c : Char) : Atom :=
  literal ⟨c, false⟩

/-- The literal, if the atom is one. -/
def literal? : Atom → Option Literal
  | literal l => some l
  | _ => none

end Atom

/-! ## Classes in brackets -/

/-- How two sets of characters are combined. -/
inductive SetOp where
  | intersection
  | difference
  | symmetricDifference
  deriving DecidableEq, Repr

/-- A set of characters as it is written between brackets. -/
inductive CharSet where
  | atom (a : Atom)
  | range (first last : Literal)
  | named (name : String) (negated : Bool)
  | union (items : List CharSet)
  | bracket (negated : Bool) (inner : CharSet)
  | op (o : SetOp) (left right : CharSet)

namespace CharSet

/-- The union of the sets; a single one is itself. -/
def ofItems : List CharSet → CharSet
  | [s] => s
  | items => union items

end CharSet

/-! ## Nodes -/

/-- How often something is repeated; without a greatest number there is no bound. -/
structure Repeat where
  least : Nat
  most : Option Nat
  deriving DecidableEq, Repr

/-- What a group is for: it keeps what it matches, or it only holds its parts together and may
switch flags inside. -/
inductive GroupKind where
  | capture
  | plain (change : FlagChange)
  deriving DecidableEq, Repr

namespace GroupKind

/-- The flags that are switched inside the group. -/
def change : GroupKind → FlagChange
  | capture => FlagChange.none
  | plain change => change

end GroupKind

/-- A pattern.  The one without parts is empty. -/
inductive Node where
  | atom (a : Atom)
  | flags (change : FlagChange)
  | set (s : CharSet)
  | repeated (count : Repeat) (body : Node)
  | group (kind : GroupKind) (body : Node)
  | concat (parts : List Node)
  | alternation (branches : List Node)

namespace Node

/-- The parts one after the other; a single one is itself. -/
def ofParts : List Node → Node
  | [n] => n
  | parts => concat parts

/-- One of the branches; a single one is itself. -/
def ofBranches : List Node → Node
  | [n] => n
  | branches => alternation branches

/-- The node can be repeated.  A switch of flags cannot. -/
def isRepeatable : Node → Bool
  | flags _ => false
  | _ => true

end Node

end Pattern
end SeriesQuery
