import SeriesQuery.Text.Quoted

/-!
# String expressions

Strings may be put together from literals and from names of templates, as in `"a" + x + "b"`.
Neighbouring literals are joined as they are added.
-/

namespace SeriesQuery

open Text

/-- A part of a string expression. -/
inductive Segment where
  | literal (value : String)
  | ident (name : String)
  deriving DecidableEq, Repr

namespace Segment

/-- The text of the part. -/
def render : Segment → String
  | literal value => quote value
  | ident name => escapeIdent name

end Segment

/-- Parts that are joined to one string. -/
structure StringExpr where
  segments : List Segment
  deriving DecidableEq, Repr

namespace StringExpr

/-! ## Building -/

/-- No parts. -/
def empty : StringExpr := ⟨[]⟩

/-- One literal. -/
def ofLiteral (value : String) : StringExpr := ⟨[.literal value]⟩

/-- One name. -/
def ofIdent (name : String) : StringExpr := ⟨[.ident name]⟩

/-- Puts a literal behind the parts; it joins a literal that is last. -/
def appendLiteral (value : String) : List Segment → List Segment
  | [] => [.literal value]
  | [.literal last] => [.literal (last ++ value)]
  | s :: rest => s :: appendLiteral value rest

/-- Adds a literal at the end. -/
def pushLiteral (e : StringExpr) (value : String) : StringExpr :=
  ⟨appendLiteral value e.segments⟩

/-- Adds a name at the end. -/
def pushIdent (e : StringExpr) (name : String) : StringExpr :=
  ⟨e.segments ++ [.ident name]⟩

/-! ## Reading -/

/-- There are no parts. -/
def isEmpty (e : StringExpr) : Bool :=
  e.segments.isEmpty

/-- No part is a name. -/
def isLiteral (e : StringExpr) : Bool :=
  e.segments.all fun
    | .literal _ => true
    | .ident _ => false

/-- The name, if it is the only part. -/
def ident? (e : StringExpr) : Option String :=
  match e.segments with
  | [.ident name] => some name
  | _ => none

/-- The joined literals of the parts, if no part is a name. -/
def joinLiterals : List Segment → Option String
  | [] => some ""
  | .literal value :: rest => (joinLiterals rest).map (value ++ ·)
  | .ident _ :: _ => none

/-- The string, if no part is a name. -/
def literal? (e : StringExpr) : Option String :=
  joinLiterals e.segments

/-- The joined values of the parts.  `value` gives the value of a name, and `missing` what to say of
a name that has none. -/
def resolveSegments {ε : Type} (missing : String → ε) (value : String → Except ε (Option String)) :
    List Segment → Except ε String
  | [] => .ok ""
  | .literal text :: rest => (text ++ ·) <$> resolveSegments missing value rest
  | .ident name :: rest => do
      match ← value name with
      | some text => (text ++ ·) <$> resolveSegments missing value rest
      | none => .error (missing name)

/-- The string, where `value` gives the value of a name and `missing` says that there is none. -/
def resolve {ε : Type} (e : StringExpr) (missing : String → ε)
    (value : String → Except ε (Option String)) : Except ε String :=
  resolveSegments missing value e.segments

/-- The text of the parts with plus signs between them. -/
def render (e : StringExpr) : String :=
  if e.segments.isEmpty then "\"\"" else String.intercalate " + " (e.segments.map Segment.render)

end StringExpr

end SeriesQuery
