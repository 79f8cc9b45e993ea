import SeriesQuery.Proofs.LabelMaps
import SeriesQuery.Proofs.SelectorTexts
import SeriesQuery.Proofs.TokenizedTrees

/-!
# What printed selectors select

The text of a selector is that of the groups that are kept, behind the name of the metric.  A group
that holds only this name, or nothing where there is none, is left out as long as others are kept, and
then the text selects less than the selector: `Selector.printed` is what it does select
(`passes_parse_render`).  Where all groups are kept, or none is, the text selects the same.
-/

namespace SeriesQuery

namespace Selector

/-- The map passes all filters of a group.  Without groups all maps pass. -/
def Passes (fits : String → String → Prop) (s : Selector) (m : LabelMap) : Prop :=
  s.groups = [] ∨ ∃ g ∈ s.groups, ∀ f ∈ g, f.Passes fits m

/-- The selector without the groups that hold its name at most, unless no group would be left. -/
def printed (s : Selector) : Selector :=
  if s.keptGroups.isEmpty then s else ⟨s.keptGroups⟩

variable {fits : String → String → Prop} {s : Selector} {m : LabelMap}

theorem passes_ofName {n : String} :
    (Selector.ofName n).Passes fits m ↔ m nameLabel = n := by
  simp [Passes, ofName, LabelFilter.Passes, LabelFilter.equal]

/-- Where no group is kept, all of them hold the same. -/
theorem eq_of_keptGroups_isEmpty (h : s.keptGroups.isEmpty) {g : List LabelFilter}
    (hg : g ∈ s.groups) : g.drop (if s.name?.isSome then 1 else 0) = [] := by
  have hnone := List.filter_eq_nil_iff.1 (List.isEmpty_iff.1 h) g hg
  simpa [isBare] using hnone

/-- A selector is read back as one that selects what is printed. -/
theorem passes_reread : s.reread.Passes fits m ↔ s.printed.Passes fits m := by
  unfold printed
  cases hname : s.name? with
  | none =>
      rw [reread_of_name?_none hname]
      split
      · rename_i hempty
        have hbare : ∀ g ∈ s.groups, g = [] := fun g hg => by
          simpa [hname] using eq_of_keptGroups_isEmpty hempty hg
        -- A group without filters lets all maps pass, as no groups do.
        have hall : s.Passes fits m := by
          cases hgroups : s.groups with
          | nil => exact .inl hgroups
          | cons g gs =>
              have hmem : g ∈ s.groups := by simp [hgroups]
              exact .inr ⟨g, hmem, by simp [hbare g hmem]⟩
        exact iff_of_true (.inl (List.isEmpty_iff.1 hempty)) hall
      · rfl
  | some n =>
      rw [reread_of_name?_some hname]
      split
      · rename_i hempty
        rcases commonName_eq_some hname with ⟨hsome, hnames⟩
        have hbare : ∀ g ∈ s.groups, g = [.equal nameLabel n] := fun g hg => by
          have hdrop := eq_of_keptGroups_isEmpty hempty hg
          simp only [hname, Option.isSome_some, if_true] at hdrop
          rw [← (cons_of_groupName? (hnames g hg)).2, hdrop]
        rw [passes_ofName]
        constructor
        · intro hpasses
          rcases List.exists_mem_of_ne_nil _ hsome with ⟨g, hg⟩
          refine .inr ⟨g, hg, ?_⟩
          simpa [hbare g hg, LabelFilter.Passes, LabelFilter.equal] using hpasses
        · rintro (hnil | ⟨g, hg, hpasses⟩)
          · exact absurd hnil hsome
          · simpa [hbare g hg, LabelFilter.Passes, LabelFilter.equal] using hpasses
      · rfl

/-- Where all groups are kept, or none is, all of the selector is printed. -/
theorem printed_eq_self (h : s.keptGroups = [] ∨ ∀ g ∈ s.groups, s.isBare g = false) :
    s.printed = s := by
  unfold printed
  split
  · rfl
  · rename_i hsome
    rcases h with hnone | hall
    · simp [hnone] at hsome
    · have hkept : s.keptGroups = s.groups :=
        List.filter_eq_self.2 fun g hg => by simp [hall g hg]
      rw [hkept]

/-- What is printed of a selector selects nothing besides. -/
theorem passes_of_printed (h : s.printed.Passes fits m) : s.Passes fits m := by
  unfold printed at h
  split at h
  · exact h
  · rename_i hsome
    rcases h with hnone | ⟨g, hg, hpasses⟩
    · exact absurd (List.isEmpty_iff.2 hnone) hsome
    · exact .inr ⟨g, (List.mem_filter.1 hg).1, hpasses⟩

end Selector

/-- The text of a selector that is a part of what a query stands for is read as a selector of what is
printed of it. -/
theorem passes_parse_render {query : String} {e : Expr} {s : Selector} (h : parse query = .ok e)
    (hs : Expr.Within (.selector s) e) (hname : s.HasLegibleName) :
    ∃ s', parse s.render = .ok (.selector s') ∧
      ∀ fits m, (s'.Passes fits m ↔ s.printed.Passes fits m) ∧
        (s'.Passes fits m → s.Passes fits m) := by
  have hlabelled := Expr.tokenized_selector.1 ((tokenized_parse query e h).within hs)
  have hvalid : s.Valid := (gives_parse query e h _ hs).expanded
  refine ⟨s.reread, parse_render_selector (Selector.legibleSelector hlabelled hvalid hname), ?_⟩
  intro fits m
  exact ⟨Selector.passes_reread, fun hpasses =>
    Selector.passes_of_printed (Selector.passes_reread.1 hpasses)⟩

/-- A selector is read off a query, found from the characters of the query. -/
theorem parse_selector_of_toList {query : String} {cs : List Char} {s : Selector}
    (hcs : query.toList = cs) (hscan : (Lexeme.texts cs).2)
    (h : ((do
      let (e, feed) ← Reader.expression depthBudget ⟨(Lexeme.texts cs).1, none, 0⟩
      if feed.tokens.isEmpty then e.expandTemplates >>= normalize
      else throw (.leftOver feed.place)) : Except ParseError Expr).toOption.any
        fun e => match e with
          | .selector s' => s' == s
          | _ => false) : parse query = .ok (.selector s) := by
  have hfound : (parse query).toOption.any fun e => match e with
      | .selector s' => s' == s
      | _ => false :=
    parse_of_toList (P := fun x => x.toOption.any fun e => match e with
      | .selector s' => s' == s
      | _ => false) hcs hscan h
  cases hparse : parse query with
  | error cause =>
      rw [hparse] at hfound
      cases hfound
  | ok e =>
      rw [hparse] at hfound
      cases e with
      | selector s' =>
          have heq : s' = s := by simpa [Except.toOption] using hfound
          rw [heq]
      | _ => cases hfound

/-- Filters in three groups under one name; the second holds only the name. -/
def groupedQuery : String :=
  "\x7b__name__=\"a.b\",bar=~\"x|y\" or __name__=\"a.b\" or __name__=\"a.b\",by!=\"\"\x7d"

/-- Groups of filters besides the name, one of them empty. -/
def groupedSelector : Selector :=
  .named "a.b" [[⟨.regex, "bar", "x|y"⟩], [], [⟨.notEqual, "by", ""⟩]]

theorem parse_groupedQuery : parse groupedQuery = .ok (.selector groupedSelector) :=
  parse_selector_of_toList String.toList_ofList (by decide +kernel) (by decide +kernel)

theorem passes_parse_render_groupedQuery :
    parse groupedQuery = .ok (.selector groupedSelector) ∧ groupedSelector.HasLegibleName ∧
      ∃ s', parse groupedSelector.render = .ok (.selector s') ∧
        ∀ fits m, (s'.Passes fits m ↔ groupedSelector.printed.Passes fits m) ∧
          (s'.Passes fits m → groupedSelector.Passes fits m) := by
  have hname : groupedSelector.HasLegibleName := by
    unfold Selector.HasLegibleName
    decide +kernel
  exact ⟨parse_groupedQuery, hname, passes_parse_render parse_groupedQuery .refl hname⟩

/-- A group that is left out may be one that selects more than those that are kept. -/
theorem not_passes_parse_render_bareGroup :
    ∃ s, parse "\x7b__name__=\"a\",bar=\"baz\" or __name__=\"a\"\x7d" = .ok (.selector s) ∧
      ¬∃ s', parse s.render = .ok (.selector s') ∧
        ∀ fits m, s'.Passes fits m ↔ s.Passes fits m := by
  let s : Selector := .named "a" [[.equal "bar" "baz"], []]
  have hparse : parse "\x7b__name__=\"a\",bar=\"baz\" or __name__=\"a\"\x7d" = .ok (.selector s) :=
    parse_selector_of_toList String.toList_ofList (by decide +kernel) (by decide +kernel)
  refine ⟨s, hparse, ?_⟩
  rintro ⟨s', hs', hsame⟩
  have hname : s.HasLegibleName := by
    unfold Selector.HasLegibleName
    decide
  have hlabelled := Expr.tokenized_selector.1 (tokenized_parse _ _ hparse)
  have hvalid : s.Valid := (gives_parse _ _ hparse _ .refl).expanded
  rw [parse_render_selector (Selector.legibleSelector hlabelled hvalid hname)] at hs'
  cases hs'
  have hreread : s.reread = .named "a" [[.equal "bar" "baz"]] := by decide
  -- A series of the metric without the label.
  let m : LabelMap := fun label => if label = nameLabel then "a" else ""
  have hpasses : s.Passes (fun _ _ => True) m := by
    refine .inr ⟨[.equal nameLabel "a"], by decide, ?_⟩
    simp [LabelFilter.Passes, LabelFilter.equal, m]
  have hfails : ¬Selector.Passes (fun _ _ => True) (.named "a" [[.equal "bar" "baz"]]) m := by
    simp [Selector.Passes, Selector.named, LabelFilter.Passes, LabelFilter.equal, m, nameLabel]
  rw [hreread] at hsame
  exact hfails ((hsame _ m).2 hpasses)

end SeriesQuery
