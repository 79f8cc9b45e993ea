import SeriesQuery.Proofs.AddedFilters

/-!
# Pushing filters down twice

Of the filters that are pushed only their set counts (`Expr.pushDown_congr`).  A selector keeps its
groups in order and without repetitions, so lists with the same members make the same group, and each
node on the way to a selector looks at one filter at a time.  For the same reasons filters that are
pushed one list after the other do what both lists do together (`Expr.pushDown_append`), and whether
a filter becomes a common one does not depend on those that are pushed with it
(`Expr.mem_commonFilters_pushDown`).
-/

namespace SeriesQuery

variable {filters filters' others : List LabelFilter}

/-! ## Order -/

theorem FilterOp.rank_injective : Function.Injective FilterOp.rank := by
  intro op op' h
  cases op <;> cases op' <;> first | rfl | cases h

namespace LabelFilter

theorem le_antisymm {f g : LabelFilter} (hfg : f.le g) (hgf : g.le f) : f = g := by
  rcases f with ⟨op, label, value⟩
  rcases g with ⟨op', label', value'⟩
  have hrank : op.rank = op'.rank → op = op' := fun h => FilterOp.rank_injective h
  simp only [le] at hfg hgf
  grind

theorem leNameFirst_antisymm {f g : LabelFilter} (hfg : f.leNameFirst g) (hgf : g.leNameFirst f) :
    f = g := by
  have hle : f.le g → g.le f → f = g := le_antisymm
  simp only [leNameFirst] at hfg hgf
  grind

/-- Filters in order, without repetitions, are told by which they are. -/
theorem Canonical.eq_of_mem_iff (h : Canonical filters) (h' : Canonical filters')
    (hmem : ∀ f, f ∈ filters ↔ f ∈ filters') : filters = filters' := by
  have hperm : filters.Perm filters' := (List.perm_ext_iff_of_nodup h.nodup h'.nodup).2 hmem
  exact hperm.eq_of_pairwise (fun _ _ _ _ => leNameFirst_antisymm) h.ordered h'.ordered

theorem sort_dedup_congr (hmem : ∀ f, f ∈ filters ↔ f ∈ filters') :
    sort (dedup filters) = sort (dedup filters') := by
  refine (canonical_sort_dedup _).eq_of_mem_iff (canonical_sort_dedup _) fun f => ?_
  rw [mem_sort_dedup, mem_sort_dedup, hmem]

end LabelFilter

/-! ## Selectors -/

namespace Selector

theorem addFilters_congr (hmem : ∀ f, f ∈ filters ↔ f ∈ filters') (s : Selector) :
    s.addFilters filters = s.addFilters filters' := by
  refine congrArg Selector.mk (List.map_congr_left fun g _ => ?_)
  refine LabelFilter.sort_dedup_congr fun f => ?_
  rw [List.mem_append, List.mem_append, hmem]

/-- Filters that are added one list after the other are added together. -/
theorem addFilters_addFilters (filters others : List LabelFilter) (s : Selector) :
    (s.addFilters filters).addFilters others = s.addFilters (filters ++ others) := by
  have hgroups : ((s.addFilters filters).addFilters others).groups =
      (s.addFilters (filters ++ others)).groups := by
    rw [addFilters_groups, targets_of_ne_nil (addFilters_groups_ne_nil filters s),
      addFilters_groups, addFilters_groups, List.map_map]
    refine List.map_congr_left fun g _ => LabelFilter.sort_dedup_congr fun f => ?_
    simp only [List.mem_append, LabelFilter.mem_sort_dedup, or_assoc]
  exact congrArg Selector.mk hgroups

end Selector

/-! ## Trimming -/

theorem filtersOff_append (labels : List String) (filters others : List LabelFilter) :
    filtersOff labels (filters ++ others) = filtersOff labels filters ++ filtersOff labels others :=
  List.filter_append ..

theorem trimMatching_append (matching : Option Matching) (filters others : List LabelFilter) :
    trimMatching matching (filters ++ others) =
      trimMatching matching filters ++ trimMatching matching others := by
  match matching with
  | none => rfl
  | some ⟨.on, labels⟩ => exact List.filter_append ..
  | some ⟨.ignoring, labels⟩ => exact List.filter_append ..

theorem trimGrouping_append (grouping : Option Grouping) (filters others : List LabelFilter) :
    trimGrouping grouping (filters ++ others) =
      trimGrouping grouping filters ++ trimGrouping grouping others := by
  match grouping with
  | none => rfl
  | some (.by labels) => exact List.filter_append ..
  | some (.without labels) => exact List.filter_append ..

/-! ## Expressions -/

namespace Expr

/-- Lists with the same filters are pushed alike. -/
theorem pushDown_congr (hmem : ∀ f, f ∈ filters ↔ f ∈ filters') (e : Expr) :
    e.pushDown filters = e.pushDown filters' := by
  induction e using Expr.inductionOn generalizing filters filters' with
  | selector s =>
      -- Without filters nothing is added, which is no change even where there are no groups.
      have hnil : filters = [] ↔ filters' = [] := by
        simp only [List.eq_nil_iff_forall_not_mem, hmem]
      by_cases h : filters = []
      · rw [h, hnil.1 h]
      · rw [pushDown_selector h, pushDown_selector (mt hnil.2 h), Selector.addFilters_congr hmem]
  | rollup inner range time ih _ => rw [pushDown_rollup, pushDown_rollup, ih hmem]
  | call name args keepNames ih =>
      rw [pushDown_call, pushDown_call]
      split
      · rfl
      · rename_i i written _
        have harg : ∀ e ∈ args[i]?, e.pushDown (filtersOff written filters) =
            e.pushDown (filtersOff written filters') := fun e he =>
          ih e (List.mem_of_getElem? he) fun f => by rw [mem_filtersOff, mem_filtersOff, hmem]
        rw [modify_congr harg]
  | aggregate a args ih =>
      have hargs : ∀ e ∈ args, e.pushDown (trimGrouping a.grouping filters) =
          e.pushDown (trimGrouping a.grouping filters') := fun e he =>
        ih e he fun f => by rw [mem_trimGrouping, mem_trimGrouping, hmem]
      rw [pushDown_aggregate, pushDown_aggregate]
      split
      · rfl
      · rw [modify_congr fun e he => hargs e (List.mem_of_getElem? he)]
      · rw [List.map_congr_left hargs]
  | binary b l r ihl ihr =>
      have htrim : ∀ f, f ∈ trimMatching b.matching filters ↔
          f ∈ trimMatching b.matching filters' := fun f => by
        rw [mem_trimMatching, mem_trimMatching, hmem]
      rw [pushDown_binary, pushDown_binary, ihl htrim, ihr htrim]
  | _ => simp only [pushDown, ite_self]

/-- Filters that are pushed one list after the other are pushed together. -/
theorem pushDown_append (filters others : List LabelFilter) (e : Expr) :
    (e.pushDown filters).pushDown others = e.pushDown (filters ++ others) := by
  induction e using Expr.inductionOn generalizing filters others with
  | selector s =>
      by_cases h : filters = []
      · rw [h, pushDown_nil, List.nil_append]
      · by_cases h' : others = []
        · rw [h', pushDown_nil, List.append_nil]
        · rw [pushDown_selector h, pushDown_selector h', Selector.addFilters_addFilters,
            pushDown_selector (List.append_ne_nil_of_left_ne_nil h others)]
  | rollup inner range time ih _ =>
      rw [pushDown_rollup, pushDown_rollup, pushDown_rollup, ih]
  | call name args keepNames ih =>
      rw [pushDown_call filters, pushDown_call (filters ++ others)]
      -- The second list goes to the same argument, as pushing keeps what it is.
      cases hsource : callSource? name args with
      | none => simp only [pushDown_call, hsource]
      | some source =>
          rcases source with ⟨i, written⟩
          simp only [pushDown_call, callSource?_modify_pushDown, hsource, filtersOff_append,
            List.modify_modify_eq]
          have harg : ∀ e ∈ args[i]?,
              (pushDown (filtersOff written others) ∘ pushDown (filtersOff written filters)) e =
                e.pushDown (filtersOff written filters ++ filtersOff written others) :=
            fun e he => ih e (List.mem_of_getElem? he) _ _
          rw [modify_congr harg]
  | aggregate a args ih =>
      have hargs : ∀ e ∈ args,
          (pushDown (trimGrouping a.grouping others) ∘
            pushDown (trimGrouping a.grouping filters)) e =
            e.pushDown (trimGrouping a.grouping filters ++ trimGrouping a.grouping others) :=
        fun e he => ih e he _ _
      rw [pushDown_aggregate filters, pushDown_aggregate (filters ++ others)]
      cases hsource : aggregateSource a.name args.length with
      | nowhere => simp only [pushDown_aggregate, hsource]
      | argument i =>
          simp only [pushDown_aggregate, List.length_modify, hsource, trimGrouping_append,
            List.modify_modify_eq]
          rw [modify_congr fun e he => hargs e (List.mem_of_getElem? he)]
      | everywhere =>
          simp only [pushDown_aggregate, List.length_map, hsource, trimGrouping_append,
            List.map_map]
          rw [List.map_congr_left hargs]
  | binary b l r ihl ihr =>
      rw [pushDown_binary, pushDown_binary, pushDown_binary, ihl, ihr, trimMatching_append]
  | _ => simp only [pushDown, ite_self]

/-- Pushing one list after the other is pushing both together, and neither the order of the filters
nor their repetition makes a difference. -/
theorem pushDown_pushDown (e : Expr) (filters others : List LabelFilter) :
    (e.pushDown filters).pushDown others = e.pushDown (filters ++ others) ∧
      ∀ filters', (∀ f, f ∈ filters' ↔ f ∈ filters) →
        e.pushDown filters' = e.pushDown filters :=
  ⟨pushDown_append filters others e, fun _ hmem => pushDown_congr hmem e⟩

/-- Two filters in the other order, one of them twice, are pushed into
`sum(foo or {}) by(a) + bar` as they are without the repetition, or one behind the other. -/
theorem pushDown_pushDown_repeated :
    let f : LabelFilter := .equal "a" "b"
    let g : LabelFilter := ⟨.notEqual, "c", "d"⟩
    let sum : Expr := .aggregate ⟨"sum", some (.by ["a"]), 0⟩
      [.binary (.plain .or) (.selector (.ofName "foo")) (.selector ⟨[]⟩)]
    let query : Expr := .binary (.plain .add) sum (.selector (.ofName "bar"))
    (∀ h, h ∈ [g, f, g] ↔ h ∈ [f, g]) ∧ (query.pushDown [f]).pushDown [g] = query.pushDown [f, g] ∧
      query.pushDown [g, f, g] = query.pushDown [f, g] := by
  intro f g sum query
  have hmem : ∀ h, h ∈ [g, f, g] ↔ h ∈ [f, g] := by
    intro h
    simp only [List.mem_cons, List.not_mem_nil]
    tauto
  exact ⟨hmem, (pushDown_pushDown query [f] [g]).1,
    (pushDown_pushDown query [f, g] []).2 [g, f, g] hmem⟩

/-! ## Common filters -/

/-- A filter that is pushed becomes a common one just if it does so on its own. -/
theorem mem_commonFilters_pushDown {f : LabelFilter} (hf : f ∈ filters) (e : Expr) :
    f ∈ (e.pushDown filters).commonFilters ↔ f ∈ (e.pushDown [f]).commonFilters := by
  have hfirst : ∀ others, (∀ g, g ∈ [f] ++ others ↔ g ∈ filters) →
      e.pushDown filters = (e.pushDown [f]).pushDown others := fun others hmem =>
    (pushDown_congr (fun g => (hmem g).symm) e).trans (pushDown_append [f] others e).symm
  constructor
  · intro h
    -- Pushed behind the filter, the others cannot add it.
    rw [hfirst (filters.filter (· != f)) fun g => by by_cases hg : g = f <;> simp [hg, hf]] at h
    have hor := List.mem_append.1 (pushDown_commonFilters_subset _ _ h)
    exact hor.resolve_right (by simp)
  · intro h
    rw [hfirst filters fun g => by by_cases hg : g = f <;> simp [hg, hf]]
    exact commonFilters_subset_pushDown filters _ h

/-- Pushing filters keeps the common filters.  The only new ones are among those that are pushed, and
each of these becomes a common one just if it does so on its own.  Common filters are filters of
selectors, but never those on the name of a metric. -/
theorem commonFilters_pushDown (filters : List LabelFilter) (e : Expr) :
    e.commonFilters ⊆ (e.pushDown filters).commonFilters ∧
      (e.pushDown filters).commonFilters ⊆ e.commonFilters ++ filters ∧
      (∀ f ∈ filters,
        f ∈ (e.pushDown filters).commonFilters ↔ f ∈ (e.pushDown [f]).commonFilters) ∧
      ∀ f ∈ e.commonFilters, f.label ≠ nameLabel ∧ f.OccursIn e :=
  ⟨commonFilters_subset_pushDown filters e, pushDown_commonFilters_subset filters e,
    fun _ hf => mem_commonFilters_pushDown hf e,
    fun _ hf => ⟨label_ne_nameLabel hf, occursIn_of_mem_commonFilters hf⟩⟩

end Expr
end SeriesQuery
