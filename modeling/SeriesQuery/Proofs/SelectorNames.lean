import SeriesQuery.Label.Selector

/-!
# Names of selectors

A selector has a name where each of its groups starts with the filter for it.  So it is
`Selector.named`: groups of filters under one name (`Selector.eq_named`).
-/

namespace SeriesQuery

theorem commonName_eq_some {α : Type} {nameOf : List α → Option String} {gs : List (List α)}
    {n : String} (h : commonName nameOf gs = some n) : gs ≠ [] ∧ ∀ g ∈ gs, nameOf g = some n := by
  cases gs with
  | nil => cases h
  | cons first rest =>
      simp only [commonName] at h
      split at h
      · rename_i name hname
        split at h
        · rename_i hall
          cases h
          refine ⟨List.cons_ne_nil first rest, List.forall_mem_cons.2 ⟨hname, fun g hg => ?_⟩⟩
          exact beq_iff_eq.1 (List.all_eq_true.1 hall g hg)
        · cases h
      · cases h

/-- Lists that are not empty and start with `a` all. -/
theorem map_cons_drop {α : Type} {a : α} {gs : List (List α)} (h : ∀ g ∈ gs, a :: g.drop 1 = g) :
    (gs.map (List.drop 1)).map (a :: ·) = gs := by
  have hall : gs.map (fun g => a :: g.drop 1) = gs.map id := List.map_congr_left h
  rw [List.map_map]
  exact hall.trans (List.map_id gs)

namespace Selector

/-- The selector of a metric by its name, with a group of filters or several. -/
def named (n : String) (rs : List (List LabelFilter)) : Selector :=
  ⟨rs.map (.equal nameLabel n :: ·)⟩

/-- A group that fixes a name starts with the filter for it. -/
theorem cons_of_groupName? {g : List LabelFilter} {n : String} (h : groupName? g = some n) :
    n ≠ "" ∧ .equal nameLabel n :: g.drop 1 = g := by
  unfold groupName? at h
  split at h
  · rename_i f fs
    split at h
    · rename_i hfixes
      cases h
      rcases f with ⟨op, label, value⟩
      simp_all [LabelFilter.isNameFilter, LabelFilter.equal]
    · cases h
  · cases h

/-- A selector with a name is one of its filters under that name. -/
theorem eq_named {s : Selector} {n : String} (h : s.name? = some n) :
    n ≠ "" ∧ s.groups ≠ [] ∧ s = .named n (s.groups.map (List.drop 1)) := by
  rcases commonName_eq_some h with ⟨hsome, hall⟩
  rcases List.exists_mem_of_ne_nil _ hsome with ⟨g, hg⟩
  refine ⟨(cons_of_groupName? (hall g hg)).1, hsome, ?_⟩
  rw [named, map_cons_drop fun g hg => (cons_of_groupName? (hall g hg)).2]

theorem name?_named {n : String} (hne : n ≠ "") {rs : List (List LabelFilter)} (hrs : rs ≠ []) :
    (named n rs).name? = some n := by
  cases rs with
  | nil => exact absurd rfl hrs
  | cons r rs =>
      simp [named, name?, commonName, groupName?, LabelFilter.isNameFilter, LabelFilter.equal, hne]

theorem name?_ofName {name : String} (h : name ≠ "") : (ofName name).name? = some name :=
  name?_named h (List.cons_ne_nil [] [])

end Selector
end SeriesQuery
