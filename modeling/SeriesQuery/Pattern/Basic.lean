import SeriesQuery.Pattern.Limits
import SeriesQuery.Pattern.Reading
import SeriesQuery.Text.Shown

/-!
# Patterns

Label filters may compare by a pattern that has to cover the whole value.
-/

namespace SeriesQuery
namespace Pattern

open Text

/-- The pattern is well formed: its syntax is right and it keeps within what patterns may do. -/
def isValid (pattern : String) : Bool :=
  match Node.ofText? pattern with
  | some n => n.depth ≤ maxDepth && n.matchesCharacters && n.size ≤ maxSize
  | none => false

/-- The pattern that covers the whole text where the given one covers it. -/
def anchored (pattern : String) : String :=
  "^(?:" ++ pattern ++ ")$"

/-- What is said about a pattern that is not well formed. -/
def refusal (pattern : String) : String :=
  "cannot parse regexp " ++ shown pattern

end Pattern
end SeriesQuery
