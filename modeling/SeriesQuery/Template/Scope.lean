import SeriesQuery.Syntax.Query

/-!
# Scopes of templates

A scope is a list of frames, the innermost first.  A frame holds the templates of a `with` block, or
the arguments of a call by the names of the parameters.  A template sees what is declared before
it: its scope is the frame cut off there, and the frames around it.
-/

namespace SeriesQuery

/-- The names that one block or one call declares. -/
inductive Frame where
  | templates (ts : List Template)
  /-- Arguments, expanded already. -/
  | arguments (bound : List (String × Expr))

/-- What names stand for, the innermost frame first. -/
abbrev Scope := List Frame

/-- What a name stands for. -/
inductive Meaning where
  /-- A template, with the scope that its body is expanded in. -/
  | template (t : Template) (scope : Scope)
  /-- An argument. -/
  | value (e : Expr)

namespace Frame

/-- What the name stands for in the frame, where `outer` are the frames around it. -/
def lookup (outer : Scope) (name : String) : Frame → Option Meaning
  | templates ts =>
      (ts.find? fun t => t.name == name).map fun t =>
        .template t (templates (ts.takeWhile fun t => t.name != name) :: outer)
  | arguments bound => (bound.find? fun b => b.1 == name).map fun b => .value b.2

end Frame

namespace Scope

/-- What the name stands for. -/
def lookup (name : String) : Scope → Option Meaning
  | [] => none
  | frame :: outer =>
      match frame.lookup outer name with
      | some meaning => some meaning
      | none => lookup name outer

end Scope

/-! ## Templates of every query -/

/-- The expression of a text that is one. -/
def bodyOf (text : String) : Expr :=
  match Expr.ofText text with
  | .ok e => e
  | .error _ => .tuple []

/-- The templates that every query may use: how much of a resource is in use, in percent, and the
time after which it is used up. -/
def builtinTemplates : List Template :=
  [.mk "ru" ["freev", "maxv"]
      (bodyOf "clamp_min(maxv - clamp_min(freev, 0), 0) / clamp_min(maxv, 0) * 100"),
    .mk "ttf" ["freev"]
      (bodyOf ("smooth_exponential(clamp_max(clamp_max(-freev, 0) / " ++
        "clamp_max(deriv_fast(freev), 0), 365*24*3600), clamp_max(step()/300, 1))"))]

/-- The outermost scope of every query. -/
def builtinScope : Scope :=
  [.templates builtinTemplates]

end SeriesQuery
