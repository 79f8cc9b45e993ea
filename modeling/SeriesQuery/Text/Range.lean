/-!
# Character tables

A class of characters outside ASCII is written as an increasing table of inclusive ranges of code
points.  `inRanges` is membership in such a table.
-/

namespace SeriesQuery
namespace Text

/-- The character lies in one of the inclusive ranges. -/
def inRanges (table : List (Nat × Nat)) (c : Char) : Bool :=
  table.any fun range => range.1 ≤ c.toNat && c.toNat ≤ range.2

end Text
end SeriesQuery
