import Mathlib.Data.List.Basic
import Mathlib.Data.String.Basic
import SeriesQuery.Pushdown.Basic

/-!
# Lists of filters

What it takes for a filter to be in the lists that pushdown computes.  Trimming looks at one filter
at a time: `CarriedBy` says that an operator carries a filter over, and `KeptBy` that an aggregate
does.

* `mem_trimMatching`, `mem_trimGrouping`, `mem_together`, … — membership in the lists;
* `operatorFilters_mono`, `operatorFilters_subset` — bounds for the filters of an operator;
* `Selector.addFilters_eq_self` — filters that are in order already change no selector.
-/

namespace SeriesQuery

/-! ## Repetitions -/

section Repetitions

variable {α : Type} [BEq α] [LawfulBEq α]

theorem nodup_eraseDups (xs : List α) : xs.eraseDups.Nodup := by
  match xs with
  | [] => simp
  | x :: xs =>
      have hlt : (xs.filter fun y => !y == x).length < xs.length + 1 :=
        Nat.lt_succ_of_le (List.length_filter_le _ xs)
      rw [List.eraseDups_cons, List.nodup_cons]
      exact ⟨by simp, nodup_eraseDups _⟩
termination_by xs.length

theorem eraseDups_of_nodup {xs : List α} (h : xs.Nodup) : xs.eraseDups = xs := by
  induction xs with
  | nil => rfl
  | cons x xs ih =>
      rcases List.nodup_cons.1 h with ⟨hx, hxs⟩
      have hfilter : (xs.filter fun y => !y == x) = xs := by
        rw [List.filter_eq_self]
        intro y hy
        have hne : y ≠ x := fun he => hx (he ▸ hy)
        simpa using hne
      rw [List.eraseDups_cons, hfilter, ih hxs]

end Repetitions

/-! ## Trimming -/

/-- An operator with the matching carries the filter over. -/
def CarriedBy (matching : Option Matching) (f : LabelFilter) : Prop :=
  ∀ m ∈ matching,
    match m.kind with
    | .on => f.label ∈ m.labels
    | .ignoring => f.label ∉ m.labels

/-- An aggregate with the grouping carries the filter over. -/
def KeptBy (grouping : Option Grouping) (f : LabelFilter) : Prop :=
  match grouping with
  | none => False
  | some (.by labels) => f.label ∈ labels
  | some (.without labels) => f.label ∉ labels

@[simp]
theorem mem_filtersOn {labels : List String} {filters : List LabelFilter} {f : LabelFilter} :
    f ∈ filtersOn labels filters ↔ f ∈ filters ∧ f.label ∈ labels := by
  simp [filtersOn]

@[simp]
theorem mem_filtersOff {labels : List String} {filters : List LabelFilter} {f : LabelFilter} :
    f ∈ filtersOff labels filters ↔ f ∈ filters ∧ f.label ∉ labels := by
  simp [filtersOff]

@[simp]
theorem mem_trimMatching {matching : Option Matching} {filters : List LabelFilter}
    {f : LabelFilter} :
    f ∈ trimMatching matching filters ↔ f ∈ filters ∧ CarriedBy matching f := by
  cases matching with
  | none => simp [trimMatching, CarriedBy]
  | some m =>
      rcases m with ⟨kind, labels⟩
      cases kind <;> simp [trimMatching, CarriedBy]

@[simp]
theorem mem_trimGrouping {grouping : Option Grouping} {filters : List LabelFilter}
    {f : LabelFilter} :
    f ∈ trimGrouping grouping filters ↔ f ∈ filters ∧ KeptBy grouping f := by
  match grouping with
  | none => simp [trimGrouping, KeptBy]
  | some (.by labels) => simp [trimGrouping, KeptBy]
  | some (.without labels) => simp [trimGrouping, KeptBy]

@[simp]
theorem mem_commonTo {filters others : List LabelFilter} {f : LabelFilter} :
    f ∈ commonTo filters others ↔ f ∈ filters ∧ f ∈ others := by
  simp [commonTo]

@[simp]
theorem mem_together {filters others : List LabelFilter} {f : LabelFilter} :
    f ∈ together filters others ↔ f ∈ filters ∨ f ∈ others := by
  by_cases h : f ∈ filters <;> simp [together, h]

@[simp]
theorem mem_labelFilters {filters : List LabelFilter} {f : LabelFilter} :
    f ∈ labelFilters filters ↔ f ∈ filters ∧ f.label ≠ nameLabel := by
  simp [labelFilters]

/-! ## Operators -/

/-- A filter of the result of an operator is a filter of one of its operands. -/
theorem mem_or_mem_of_mem_operatorFilters {b : BinaryOp} {left right : List LabelFilter}
    {f : LabelFilter} (h : f ∈ operatorFilters b left right) : f ∈ left ∨ f ∈ right := by
  unfold operatorFilters at h
  split at h
  · exact .inl (mem_commonTo.1 (mem_trimMatching.1 h).1).1
  · exact .inl (mem_trimMatching.1 h).1
  · exact .inl (mem_trimMatching.1 h).1
  · exact .inl (mem_trimMatching.1 h).1
  · split at h
    · exact (mem_together.1 h).imp_right fun hr => (mem_trimMatching.1 hr).1
    · exact (mem_together.1 h).imp_left fun hl => (mem_trimMatching.1 hl).1
    · exact mem_together.1 (mem_trimMatching.1 h).1

/-- More filters of the operands give more filters of the result. -/
theorem operatorFilters_mono {b : BinaryOp} {left left' right right' : List LabelFilter}
    (hl : left ⊆ left') (hr : right ⊆ right') :
    operatorFilters b left right ⊆ operatorFilters b left' right' := by
  intro f h
  unfold operatorFilters at h ⊢
  split at h <;> try split at h
  all_goals simp only [mem_trimMatching, mem_commonTo, mem_together] at h ⊢
  all_goals grind

/-- Filters that the operands gain only where the operator carries them over are all that the
result gains. -/
theorem operatorFilters_subset {b : BinaryOp} {filters left left' right right' : List LabelFilter}
    (hl : left' ⊆ left ++ trimMatching b.matching filters)
    (hr : right' ⊆ right ++ trimMatching b.matching filters) :
    operatorFilters b left' right' ⊆ operatorFilters b left right ++ filters := by
  intro f h
  have hl : f ∈ left' → f ∈ left ∨ f ∈ filters := fun hf => by
    simpa using (List.mem_append.1 (hl hf)).imp_right fun h => (mem_trimMatching.1 h).1
  have hr : f ∈ right' → f ∈ right ∨ f ∈ filters := fun hf => by
    simpa using (List.mem_append.1 (hr hf)).imp_right fun h => (mem_trimMatching.1 h).1
  rw [List.mem_append]
  unfold operatorFilters at h ⊢
  split at h <;> try split at h
  all_goals simp only [mem_trimMatching, mem_commonTo, mem_together] at h ⊢
  all_goals grind

/-! ## Order -/

namespace LabelFilter

theorem le_total (f g : LabelFilter) : f.le g || g.le f := by
  simp only [le]
  grind

theorem le_trans (f g h : LabelFilter) (hfg : f.le g) (hgh : g.le h) : f.le h := by
  simp only [le] at *
  grind

theorem leNameFirst_total (f g : LabelFilter) : f.leNameFirst g || g.leNameFirst f := by
  have h := le_total f g
  simp only [leNameFirst]
  grind

theorem leNameFirst_trans (f g h : LabelFilter) (hfg : f.leNameFirst g) (hgh : g.leNameFirst h) :
    f.leNameFirst h := by
  have htrans := le_trans f g h
  simp only [leNameFirst] at *
  grind

/-- The filters are in order, and none is repeated. -/
structure Canonical (filters : List LabelFilter) : Prop where
  nodup : filters.Nodup
  ordered : filters.Pairwise fun f g => f.leNameFirst g

theorem mem_sort_dedup {filters : List LabelFilter} {f : LabelFilter} :
    f ∈ sort (dedup filters) ↔ f ∈ filters := by
  simp [sort, dedup]

theorem canonical_sort_dedup (filters : List LabelFilter) : Canonical (sort (dedup filters)) where
  nodup := (List.mergeSort_perm _ _).nodup_iff.2 (nodup_eraseDups filters)
  ordered := List.pairwise_mergeSort leNameFirst_trans leNameFirst_total _

/-- Filters in order stay as they are when some of them are added. -/
theorem Canonical.sort_dedup_append {group filters : List LabelFilter} (hg : Canonical group)
    (hf : filters ⊆ group) : sort (dedup (group ++ filters)) = group := by
  have hnone : filters.removeAll group = [] := by
    simp only [List.removeAll, List.filter_eq_nil_iff]
    intro f hmem
    simpa using hf hmem
  have hdedup : dedup (group ++ filters) = group := by
    rw [dedup, List.eraseDups_append, hnone, eraseDups_of_nodup hg.nodup, List.eraseDups_nil,
      List.append_nil]
  rw [hdedup, sort, List.mergeSort_of_pairwise hg.ordered]

end LabelFilter

/-! ## Selectors -/

namespace Selector

/-- The common filters of a selector are the filters besides the name in all of its groups. -/
theorem mem_commonFilters {s : Selector} {f : LabelFilter} :
    f ∈ s.commonFilters ↔ s.groups ≠ [] ∧ (∀ g ∈ s.groups, f ∈ g) ∧ f.label ≠ nameLabel := by
  rcases s with ⟨groups⟩
  cases groups with
  | nil => simp [commonFilters]
  | cons g gs =>
      have hfold : ∀ start, f ∈ gs.foldl (fun fs h => commonTo fs (labelFilters h)) start ↔
          f ∈ start ∧ ∀ h ∈ gs, f ∈ labelFilters h := by
        induction gs with
        | nil => simp
        | cons h gs ih =>
            intro start
            simp [ih, and_assoc]
      simp only [commonFilters, hfold, mem_labelFilters, List.forall_mem_cons]
      grind

/-- The groups that filters are added to: a selector without groups has one, without filters. -/
def targets (s : Selector) : List (List LabelFilter) :=
  if s.groups.isEmpty then [[]] else s.groups

theorem targets_of_ne_nil {s : Selector} (h : s.groups ≠ []) : s.targets = s.groups := by
  simp [targets, h]

theorem addFilters_groups (filters : List LabelFilter) (s : Selector) :
    (s.addFilters filters).groups =
      s.targets.map fun g => LabelFilter.sort (LabelFilter.dedup (g ++ filters)) := by
  rfl

theorem addFilters_groups_ne_nil (filters : List LabelFilter) (s : Selector) :
    (s.addFilters filters).groups ≠ [] := by
  rw [addFilters_groups]
  unfold targets
  split <;> simp_all

/-- The groups of a selector that filters were added to. -/
theorem mem_addFilters_groups {filters g : List LabelFilter} {s : Selector}
    (h : g ∈ (s.addFilters filters).groups) :
    LabelFilter.Canonical g ∧ ∃ g' ∈ s.targets, ∀ f, f ∈ g ↔ f ∈ g' ∨ f ∈ filters := by
  rw [addFilters_groups] at h
  rcases List.mem_map.1 h with ⟨g', hg', rfl⟩
  refine ⟨LabelFilter.canonical_sort_dedup _, g', hg', fun f => ?_⟩
  rw [LabelFilter.mem_sort_dedup, List.mem_append]

/-- The only common filters that a selector gains are those that were added. -/
theorem addFilters_commonFilters_subset (filters : List LabelFilter) (s : Selector) :
    (s.addFilters filters).commonFilters ⊆ s.commonFilters ++ filters := by
  intro f hf
  rcases mem_commonFilters.1 hf with ⟨-, hall, hname⟩
  rw [List.mem_append, or_iff_not_imp_right]
  intro hnew
  have hold : ∀ g ∈ s.targets, f ∈ g := by
    intro g hg
    have hmem := hall _ (List.mem_map_of_mem hg)
    rw [LabelFilter.mem_sort_dedup, List.mem_append] at hmem
    exact hmem.resolve_right hnew
  have hne : s.groups ≠ [] := by
    intro hnil
    simp [targets, hnil] at hold
  rw [targets_of_ne_nil hne] at hold
  exact mem_commonFilters.2 ⟨hne, hold, hname⟩

/-- Filters that all groups have, in order, change nothing. -/
theorem addFilters_eq_self {filters : List LabelFilter} {s : Selector} (hne : s.groups ≠ [])
    (hgroups : ∀ g ∈ s.groups, LabelFilter.Canonical g ∧ filters ⊆ g) :
    s.addFilters filters = s := by
  rcases s with ⟨groups⟩
  have hmap : (addFilters filters ⟨groups⟩).groups = groups := by
    rw [addFilters_groups, targets_of_ne_nil hne]
    refine (List.map_congr_left fun g hg => ?_).trans (List.map_id _)
    exact (hgroups g hg).1.sort_dedup_append (hgroups g hg).2
  exact congrArg Selector.mk hmap

end Selector

end SeriesQuery
