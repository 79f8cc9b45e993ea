import SeriesQuery.Pattern.Property

/-!
# What a pattern must not do

A pattern whose syntax is right is refused all the same

* if it is nested too deeply — `Node.depth`;
* if it asks for a property of characters that does not exist, or if it could match a part of a
  character — `Node.unicodeBehind`;
* if the machine that matches it is too large — `Node.size`.
-/

namespace SeriesQuery
namespace Pattern

/-! ## Depth -/

mutual

/-- How deeply classes are nested in the set. -/
def CharSet.depth : CharSet → Nat
  | .atom _ => 0
  | .range _ _ => 0
  | .named _ _ => 0
  | .union items => if items.isEmpty then 0 else 1 + CharSet.depthList items
  | .bracket _ inner => 1 + inner.depth
  | .op _ left right => 1 + max left.depth right.depth
termination_by structural s => s

/-- The greatest depth of the sets. -/
def CharSet.depthList : List CharSet → Nat
  | [] => 0
  | s :: rest => max s.depth (CharSet.depthList rest)
termination_by structural s => s

end

mutual

/-- How deeply nodes are nested in the node. -/
def Node.depth : Node → Nat
  | .atom _ => 0
  | .flags _ => 0
  | .set s => s.depth
  | .repeated _ body => 1 + body.depth
  | .group _ body => 1 + body.depth
  | .concat parts => if parts.isEmpty then 0 else 1 + Node.depthList parts
  | .alternation branches => 1 + Node.depthList branches
termination_by structural n => n

/-- The greatest depth of the nodes. -/
def Node.depthList : List Node → Nat
  | [] => 0
  | n :: rest => max n.depth (Node.depthList rest)
termination_by structural n => n

end

/-- The greatest depth of a pattern. -/
def maxDepth : Nat := 250

/-! ## Whole characters

Without the flag `u` a pattern is about bytes.  Of what it then matches, nothing may be a byte
outside ASCII, since that is only a part of a character. -/

/-- The literal is in ASCII. -/
def Literal.isAscii (l : Literal) : Bool :=
  l.char.toNat < 128

/-- The atom may occur on its own. -/
def Atom.isAllowed (unicode : Bool) : Atom → Bool
  | literal l => unicode || l.isAscii || !l.octet
  | letterClass _ negated => unicode || !negated
  | property p _ => unicode && p.isKnown
  | any => unicode
  | place => true

/-- The atom may occur in a set. -/
def Atom.isAllowedInSet (unicode : Bool) : Atom → Bool
  | literal l => unicode || l.isAscii
  | a => a.isAllowed unicode

/-- How an operator acts on the members outside ASCII.  A set of bytes has all of them or none. -/
def SetOp.onOuter : SetOp → Bool → Bool → Bool
  | intersection, a, b => a && b
  | difference, a, b => a && !b
  | symmetricDifference, a, b => a != b

mutual

/-- Whether the set of bytes has the members outside ASCII; nothing if the set is refused. -/
def CharSet.outer (unicode : Bool) : CharSet → Option Bool
  | .atom a => if a.isAllowedInSet unicode then some false else none
  | .range first last =>
      if unicode || (first.isAscii && last.isAscii) then some false else none
  | .named _ negated => some (!unicode && negated)
  | .union items => CharSet.outerList unicode items
  | .bracket negated inner =>
      match inner.outer unicode with
      | none => none
      | some outside =>
          if unicode || outside == negated then some false else none
  | .op o left right =>
      match left.outer unicode, right.outer unicode with
      | some a, some b => some (o.onOuter a b)
      | _, _ => none
termination_by structural s => s

/-- Whether one of the sets has the members outside ASCII; nothing if one is refused. -/
def CharSet.outerList (unicode : Bool) : List CharSet → Option Bool
  | [] => some false
  | s :: rest =>
      match s.outer unicode, CharSet.outerList unicode rest with
      | some a, some b => some (a || b)
      | _, _ => none
termination_by structural s => s

end

mutual

/-- Whether the flag `u` is on behind the node; nothing if the node is refused. -/
def Node.unicodeBehind (unicode : Bool) : Node → Option Bool
  | .atom a => if a.isAllowed unicode then some unicode else none
  | .flags change => some (change.apply .unicode unicode)
  | .set s => (s.outer unicode).map fun _ => unicode
  | .repeated _ body => body.unicodeBehind unicode
  | .group kind body =>
      (body.unicodeBehind (kind.change.apply .unicode unicode)).map fun _ => unicode
  | .concat parts => Node.unicodeBehindList unicode parts
  | .alternation branches => Node.unicodeBehindList unicode branches
termination_by structural n => n

/-- Whether the flag `u` is on behind the nodes; nothing if one of them is refused. -/
def Node.unicodeBehindList (unicode : Bool) : List Node → Option Bool
  | [] => some unicode
  | n :: rest =>
      match n.unicodeBehind unicode with
      | none => none
      | some unicode => Node.unicodeBehindList unicode rest
termination_by structural n => n

end

/-- The node asks for known properties only, and matches whole characters. -/
def Node.matchesCharacters (n : Node) : Bool :=
  (n.unicodeBehind true).isSome

/-! ## Size

A pattern is matched by a machine with a state for each step, and a repeat with a count holds its
body that many times.  The sizes are bytes.  Those of classes of many characters are set down as
they were measured; the size of a class of several members is taken to be that of its members. -/

/-- The size of a state that has one way to go on. -/
def stateSize : Nat := 32

/-- The size of a state where a choice is made. -/
def choiceSize : Nat := 40

/-- The size of one atom. -/
def Atom.size : Atom → Nat
  | literal l => stateSize * l.char.utf8Size
  | letterClass .digit negated => if negated then 11656 else 4640
  | letterClass .space negated => if negated then 1924 else 680
  | letterClass .word negated => if negated then 45064 else 48168
  | property _ _ => 20000
  | any => 1000
  | place => stateSize

/-- The size that a range of characters adds to a set. -/
def rangeSize (first last : Literal) : Nat :=
  if first.isAscii && last.isAscii then 8 else 4 * stateSize

mutual

/-- The size of a set of characters. -/
def CharSet.size : CharSet → Nat
  | .atom (.literal l) => rangeSize l l
  | .atom a => a.size
  | .range first last => rangeSize first last
  | .named _ negated => if negated then 1000 else stateSize
  | .union items => CharSet.sizeList items
  | .bracket negated inner => inner.size + (if negated then 1000 else 2 * stateSize)
  | .op _ left right => left.size + right.size
termination_by structural s => s

/-- The sizes of the sets together. -/
def CharSet.sizeList : List CharSet → Nat
  | [] => 0
  | s :: rest => s.size + CharSet.sizeList rest
termination_by structural s => s

end

mutual

/-- The node takes no character. -/
def Node.takesNothing : Node → Bool
  | .atom a => a == .place
  | .flags _ => true
  | .set _ => false
  | .repeated count body => count.most == some 0 || body.takesNothing
  | .group _ body => body.takesNothing
  | .concat parts => Node.takeNothing parts
  | .alternation branches => Node.takeNothing branches
termination_by structural n => n

/-- None of the nodes takes a character. -/
def Node.takeNothing : List Node → Bool
  | [] => true
  | n :: rest => n.takesNothing && Node.takeNothing rest
termination_by structural n => n

end

/-- The size of a repeat, given that of its body. -/
def Repeat.size (count : Repeat) (body : Nat) : Nat :=
  match count.most with
  | none => max count.least 1 * body + choiceSize
  | some most => count.least * body + (most - count.least) * (body + choiceSize) + stateSize

mutual

/-- The size of the machine for a node.  To repeat what takes no character is to do it once. -/
def Node.size : Node → Nat
  | .atom a => a.size
  | .flags _ => stateSize
  | .set s => s.size
  | .repeated count body =>
      if body.takesNothing then body.size + choiceSize else count.size body.size
  | .group _ body => body.size + 2 * stateSize
  | .concat parts => Node.sizeList parts
  | .alternation branches => Node.sizeList branches + 2 * choiceSize
termination_by structural n => n

/-- The sizes of the nodes together. -/
def Node.sizeList : List Node → Nat
  | [] => 0
  | n :: rest => n.size + Node.sizeList rest
termination_by structural n => n

end

/-- The greatest size of a machine. -/
def maxSize : Nat := 10 * Nat.pow 2 20

end Pattern
end SeriesQuery
