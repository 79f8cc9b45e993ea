import SeriesQuery.Label.FilterExpr

/-!
# Selectors

A selector is groups of filters.  It selects the series that pass all filters of one group.  Where
all groups start by fixing the same name, that is the name of the metric and stands before the
braces.
-/

namespace SeriesQuery

open Text

/-! ## The written form -/

/-- The text of a selector: the name, and the groups that are not empty in braces. -/
def renderSelector (name : Option String) (groups : List (List String)) : String :=
  let groups := groups.filter fun g => !g.isEmpty
  let before := (name.map escapeIdent).getD ""
  if groups.isEmpty then
    if name.isNone then "\x7b\x7d" else before
  else
    before ++ "\x7b" ++ String.intercalate " or " (groups.map (String.intercalate ",")) ++ "\x7d"

/-- The name that all the groups start with, where `nameOf` reads the name off a group. -/
def commonName {α : Type} (nameOf : List α → Option String) : List (List α) → Option String
  | [] => none
  | first :: rest =>
      match nameOf first with
      | some name => if rest.all fun g => nameOf g == some name then some name else none
      | none => none

/-! ## Plain selectors -/

/-- Groups of filters. -/
structure Selector where
  groups : List (List LabelFilter)
  deriving DecidableEq, Repr

namespace Selector

/-- The selector of a metric by its name. -/
def ofName (name : String) : Selector :=
  ⟨[[.equal nameLabel name]]⟩

/-- The name that the first filter of a group fixes. -/
def groupName? : List LabelFilter → Option String
  | f :: _ => if f.isNameFilter && !f.value.isEmpty then some f.value else none
  | [] => none

/-- The name of the metric. -/
def name? (s : Selector) : Option String :=
  commonName groupName? s.groups

/-- The selector has no filters. -/
def isEmpty (s : Selector) : Bool :=
  s.groups.all List.isEmpty

/-- The selector is the name of a metric and nothing else. -/
def isOnlyName (s : Selector) : Bool :=
  s.name?.isSome && s.groups.all fun g => g.length == 1

/-- The selector has more than one group. -/
def hasAlternatives (s : Selector) : Bool :=
  1 < s.groups.length

/-- The groups without the filters that fix the name, and without the groups that are left empty. -/
def writtenGroups (s : Selector) : List (List LabelFilter) :=
  let cut := if s.name?.isSome then 1 else 0
  (s.groups.map (List.drop cut)).filter fun g => !g.isEmpty

/-- The text of the selector. -/
def render (s : Selector) : String :=
  renderSelector s.name? (s.writtenGroups.map (List.map LabelFilter.render))

end Selector

/-! ## Selectors with templates -/

/-- Groups of filters that may refer to templates. -/
structure SelectorExpr where
  groups : List (List FilterExpr)
  deriving DecidableEq, Repr

namespace SelectorExpr

/-- The selector of a metric by its name. -/
def ofName (name : String) : SelectorExpr :=
  ⟨[[.named name]]⟩

/-- A plain selector. -/
def ofSelector (s : Selector) : SelectorExpr :=
  ⟨s.groups.map (List.map FilterExpr.ofFilter)⟩

/-- The name that the first filter of a group fixes. -/
def groupName? : List FilterExpr → Option String
  | f :: _ => if f.isNameFilter then f.value.literal?.filter (!·.isEmpty) else none
  | [] => none

/-- The name of the metric. -/
def name? (s : SelectorExpr) : Option String :=
  commonName groupName? s.groups

/-- There are no groups. -/
def isEmpty (s : SelectorExpr) : Bool :=
  s.groups.isEmpty

/-- The selector refers to no template. -/
def isResolved (s : SelectorExpr) : Bool :=
  s.groups.all fun g => g.all FilterExpr.isResolved

/-- The text of the selector. -/
def render (s : SelectorExpr) : String :=
  let cut := if s.name?.isSome then 1 else 0
  renderSelector s.name? (s.groups.map fun g => (g.drop cut).map FilterExpr.render)

/-- The plain selector, if the selector refers to no template. -/
def toSelector (s : SelectorExpr) : Except FilterError Selector :=
  Selector.mk <$> s.groups.mapM fun g => g.mapM FilterExpr.toFilter

end SelectorExpr

end SeriesQuery
