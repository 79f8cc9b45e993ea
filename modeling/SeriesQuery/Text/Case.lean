/-!
# ASCII letter case

Keywords, function names and units are read without regard to the case of ASCII letters; other
letters have one case only.
-/

namespace SeriesQuery
namespace Text

/-- The text with its ASCII capitals made small. -/
def lower (s : String) : String :=
  String.ofList (s.toList.map Char.toLower)

/-- The two texts differ at most in the case of ASCII letters. -/
def sameWord (s t : String) : Bool :=
  lower s == lower t

end Text
end SeriesQuery
