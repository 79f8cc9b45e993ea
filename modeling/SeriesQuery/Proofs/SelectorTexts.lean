import SeriesQuery.Proofs.NormalForms
import SeriesQuery.Proofs.ReadingQueries
import SeriesQuery.Proofs.SelectorNames

/-!
# Texts of selectors

The text of a selector stands for a selector again, as long as its labels and its name can be written
as identifiers and the name is no word for a number: for `Selector.reread`, which is the selector
without the groups that are not written (`parse_render_selector`).

A selector of which all groups are written is `Selector.Decodable`, and its text stands for the
selector itself (`parse_render_of_decodable`).
-/

namespace SeriesQuery

open Text

/-! ## Names -/

theorem notWord_escapeIdent {name word : String} (h : IsLegible name)
    (hword : '\\' ∉ word.toList.map Char.toLower) (hname : sameWord name word = false) :
    sameWord (escapeIdent name) word = false := by
  rw [Bool.eq_false_iff]
  intro hsame
  rw [sameWord_of_escapeIdent h hword hsame] at hname
  cases hname

/-- A name that is no word for a number is not written as one. -/
theorem notNumber_escapeIdent {name : String} (h : IsLegible name)
    (hname : Grammar.isNumberWord name = false) :
    Grammar.isNumberWord (escapeIdent name) = false := by
  simp only [Grammar.isNumberWord, Bool.or_eq_false_iff] at hname ⊢
  exact ⟨notWord_escapeIdent h (by decide) hname.1, notWord_escapeIdent h (by decide) hname.2⟩

/-! ## Groups that are written -/

namespace Selector

variable {s : Selector}

theorem forall_mem_writtenGroups {P : LabelFilter → Prop} (h : ∀ g ∈ s.groups, ∀ f ∈ g, P f) :
    ∀ g ∈ s.writtenGroups, ∀ f ∈ g, P f := by
  intro g hg f hf
  rcases List.mem_map.1 (List.mem_filter.1 hg).1 with ⟨g', hg', rfl⟩
  exact h g' hg' f (List.mem_of_mem_drop hf)

theorem writtenGroups_ofName {name : String} (h : name ≠ "") :
    (Selector.ofName name).writtenGroups = [] := by
  rw [writtenGroups, name?_ofName h]
  rfl

theorem reread_ofName {name : String} (h : name ≠ "") :
    (Selector.ofName name).reread = .ofName name := by
  simp [reread, name?_ofName h, writtenGroups_ofName h]

theorem valid_reread (h : ∀ g ∈ s.writtenGroups, ∀ f ∈ g, f.isValid) : s.reread.Valid := by
  unfold reread
  split
  · exact h
  · rename_i name _
    split
    · exact valid_ofName name
    · intro g hg
      rcases List.mem_map.1 hg with ⟨g', hg', rfl⟩
      exact List.forall_mem_cons.2 ⟨LabelFilter.isValid_equal _ _, h g' hg'⟩

end Selector

/-! ## Reading -/

/-- The text of a selector stands for the selector without the groups that are not written. -/
theorem parse_render_selector {s : Selector} (h : LegibleSelector s) :
    parse s.render = .ok (.selector s.reread) := by
  have hreadable : (Expr.selector s).Readable := (Expr.allNodes_atom rfl).2 h
  have hread : (Expr.selector s).ReadsBack (.tooNested maxDepth = ·) :=
    Expr.readsBack_selector rfl hreadable
  have htext : Expr.ofText s.render = .ok (.selector s.reread) :=
    (hread.ofText_render (Expr.spelled_of_readable hreadable)).1 (by simp only [Expr.cost]; decide)
  have hvalid := Selector.valid_reread fun g hg f hf => (h.groups g hg f hf).valid
  have hsettled : (Expr.selector s.reread).AllNodes Expr.IsSettled :=
    (Expr.allNodes_atom rfl).2 ⟨hvalid, trivial⟩
  have hexpand := Expr.expandTemplates_of_settled hsettled
  unfold parse
  simp only [htext, Bind.bind, Except.bind, hexpand]
  rfl

/-! ## Groups that are kept -/

namespace Selector

/-- Nothing is left of the group behind the name of the selector. -/
def isBare (s : Selector) (g : List LabelFilter) : Bool :=
  (g.drop (if s.name?.isSome then 1 else 0)).isEmpty

/-- The groups of which something is written besides the name. -/
def keptGroups (s : Selector) : List (List LabelFilter) :=
  s.groups.filter fun g => !s.isBare g

variable {s : Selector}

theorem reread_of_name?_none (hname : s.name? = none) : s.reread = ⟨s.keptGroups⟩ := by
  simp only [reread, hname, writtenGroups, keptGroups, isBare, Option.isSome_none,
    Bool.false_eq_true, if_false, List.drop_zero]
  rw [List.map_congr_left fun g _ => List.drop_zero, List.map_id']

theorem reread_of_name?_some {n : String} (hname : s.name? = some n) :
    s.reread = if s.keptGroups.isEmpty then .ofName n else ⟨s.keptGroups⟩ := by
  have hgroups := (commonName_eq_some hname).2
  have hwritten : s.writtenGroups = s.keptGroups.map (List.drop 1) := by
    simp only [writtenGroups, keptGroups, isBare, hname, Option.isSome_some, if_true,
      List.filter_map]
    rfl
  have hkept : s.writtenGroups.map (.equal nameLabel n :: ·) = s.keptGroups := by
    rw [hwritten]
    exact map_cons_drop fun g hg =>
      (cons_of_groupName? (hgroups g (List.mem_filter.1 hg).1)).2
  simp only [reread, hname, hkept]
  rw [hwritten, List.isEmpty_map]

end Selector

/-! ## Decodable selectors -/

/-- The name of the selector, if it has one, is no word for a number, and each of its characters may
stand in an identifier. -/
def Selector.HasLegibleName (s : Selector) : Prop :=
  ∀ n ∈ s.name?, (∀ c ∈ n.toList, c.toNat < 0xF0000) ∧ Grammar.isNumberWord n = false

/-- All groups of the selector are written, and what is written can be read back. -/
structure Selector.Decodable (s : Selector) : Prop where
  full : ∀ g ∈ s.groups, g ≠ []
  labels : ∀ g ∈ s.groups, ∀ f ∈ g, IsLegible f.label
  valid : s.Valid
  name : s.HasLegibleName
  /-- The name stands alone, or before further filters in each group. -/
  besides : ∀ n ∈ s.name?, s = .ofName n ∨ ∀ g ∈ s.groups, 2 ≤ g.length

/-- The labels and the name of the selector are read back from their identifiers. -/
theorem Selector.legibleSelector {s : Selector}
    (hlabels : ∀ g ∈ s.groups, ∀ f ∈ g, IsLegible f.label) (hvalid : s.Valid)
    (hname : s.HasLegibleName) : LegibleSelector s where
  name n hn := by
    have hlegible : IsLegible n := ⟨(eq_named hn).1, (hname n hn).1⟩
    exact ⟨hlegible, notNumber_escapeIdent hlegible (hname n hn).2⟩
  groups := forall_mem_writtenGroups fun g hg f hf => ⟨hlabels g hg f hf, hvalid g hg f hf⟩

/-- No group of a decodable selector is left out. -/
theorem Selector.Decodable.reread_eq {s : Selector} (h : s.Decodable) : s.reread = s := by
  have hall : (∀ g ∈ s.groups, s.isBare g = false) → s.keptGroups = s.groups := by
    intro hfull
    exact List.filter_eq_self.2 fun g hg => by simp [hfull g hg]
  cases hname : s.name? with
  | none =>
      rw [reread_of_name?_none hname, hall fun g hg => ?_]
      simpa [isBare, hname] using h.full g hg
  | some n =>
      rcases eq_named hname with ⟨hne, hgroups, -⟩
      rcases h.besides n hname with hlone | hlong
      · rw [hlone, reread_ofName hne]
      · rw [reread_of_name?_some hname, hall fun g hg => ?_, if_neg (by simpa using hgroups)]
        have hlength := hlong g hg
        simp only [isBare, hname, Option.isSome_some, if_true, List.isEmpty_eq_false_iff,
          ← List.length_pos_iff, List.length_drop]
        omega

/-- The text of a decodable selector stands for that selector. -/
theorem parse_render_of_decodable {s : Selector} (h : s.Decodable) :
    parse s.render = .ok (.selector s) := by
  rw [parse_render_selector (Selector.legibleSelector h.labels h.valid h.name), h.reread_eq]

/-- Two groups under a name that takes escapes, with labels that are words of the language. -/
def escapedSelector : Selector :=
  .named "with (é)"
    [[⟨.notEqual, "or", "a\"\x7d"⟩, ⟨.regex, "a\tb", "x.*|y"⟩], [⟨.notRegex, "by", "z+"⟩]]

theorem parse_render_escapedSelector :
    escapedSelector.Decodable ∧ parse escapedSelector.render = .ok (.selector escapedSelector) := by
  have hdecodable : escapedSelector.Decodable := by
    have hlabels : ∀ g ∈ escapedSelector.groups, ∀ f ∈ g,
        f.label ≠ "" ∧ ∀ c ∈ f.label.toList, c.toNat < 0xF0000 := by
      decide +kernel
    refine ⟨by decide, fun g hg f hf => ?_, ?_, ?_, ?_⟩
    · exact ⟨(hlabels g hg f hf).1, (hlabels g hg f hf).2⟩
    · unfold Selector.Valid
      decide +kernel
    · unfold Selector.HasLegibleName
      decide +kernel
    · exact fun n _ => .inr (by decide)
  exact ⟨hdecodable, parse_render_of_decodable hdecodable⟩

end SeriesQuery
