import SeriesQuery.Proofs.Filters
import SeriesQuery.Proofs.Tree

/-!
# Common filters and pushing

How `Expr.pushDown` goes through the nodes of a tree, and what it does to the common filters: none is
lost, and only those that were pushed may be new.

* `Expr.commonFilters_subset_pushDown`, `Expr.pushDown_commonFilters_subset` — the two bounds;
* `Expr.exists_selector_of_mem_commonFilters` — common filters are those of selectors;
* `Expr.label_ne_nameLabel` — common filters are never on the name of a metric.
-/

namespace SeriesQuery

/-! ## Lists with some members changed -/

section Lists

variable {α : Type} {g : α → α} {xs : List α}

theorem mem_getElem?_modify {i : Nat} {y : α} :
    y ∈ (xs.modify i g)[i]? ↔ ∃ x ∈ xs[i]?, g x = y := by
  simp

theorem map_eq_self (h : ∀ x ∈ xs, g x = x) : xs.map g = xs :=
  (List.map_congr_left h).trans (List.map_id xs)

theorem modify_congr {g' : α → α} {i : Nat} (h : ∀ x ∈ xs[i]?, g x = g' x) :
    xs.modify i g = xs.modify i g' := by
  refine List.ext_getElem? fun j => ?_
  rw [List.getElem?_modify, List.getElem?_modify]
  by_cases hij : i = j
  · subst hij
    cases hx : xs[i]? with
    | none => rfl
    | some x => simp [h x hx]
  · simp [hij]

theorem modify_eq_self {i : Nat} (h : ∀ x ∈ xs[i]?, g x = x) : xs.modify i g = xs :=
  (modify_congr h).trans (List.modify_id i xs)

theorem forall_mem_modify {Q : α → Prop} {i : Nat} (h : ∀ x ∈ xs, Q x)
    (hg : ∀ x ∈ xs, Q (g x)) : ∀ y ∈ xs.modify i g, Q y := by
  intro y hy
  rcases List.mem_iff_getElem?.1 hy with ⟨j, hj⟩
  rw [List.getElem?_modify] at hj
  rcases Option.map_eq_some_iff.1 hj with ⟨x, hx, rfl⟩
  have hmem := List.mem_of_getElem? hx
  split
  · exact hg x hmem
  · exact h x hmem

end Lists

/-! ## Label arguments -/

theorem labelsAt_congr {args args' : List Expr} (positions : List Nat)
    (h : args.map labelArgument? = args'.map labelArgument?) :
    labelsAt args positions = labelsAt args' positions := by
  have hjoin : ∀ o : Option Expr, o.bind labelArgument? = (o.map labelArgument?).join := by
    intro o
    cases o <;> rfl
  have hi : ∀ i : Nat, args[i]?.bind labelArgument? = args'[i]?.bind labelArgument? := by
    intro i
    rw [hjoin, hjoin, ← List.getElem?_map, h, List.getElem?_map]
  simp only [labelsAt, hi]

/-- The source of the labels of a call depends on the arguments only by the strings among them. -/
theorem callSource?_congr (name : String) {args args' : List Expr}
    (h : args.map labelArgument? = args'.map labelArgument?) :
    callSource? name args = callSource? name args' := by
  have hlen : args.length = args'.length := by simpa using congrArg List.length h
  have hempty : args.isEmpty = args'.isEmpty := by
    rw [Bool.eq_iff_iff, List.isEmpty_iff_length_eq_zero, List.isEmpty_iff_length_eq_zero, hlen]
  have hlabels : labelsAt args = labelsAt args' := funext fun ps => labelsAt_congr ps h
  simp only [callSource?, writtenLabels?, hlen, hempty, hlabels]

namespace Expr

/-! ## Functions on lists of expressions -/

theorem optimizeList_eq_map (es : List Expr) : optimizeList es = es.map optimize := by
  induction es with
  | nil => rfl
  | cons e es ih => simp [optimizeList, ih]

theorem optimizeOption_eq_map (time : Option Expr) : optimizeOption time = time.map optimize := by
  cases time <;> rfl

theorem pushDownAll_eq_map (filters : List LabelFilter) (es : List Expr) :
    pushDownAll filters es = es.map (pushDown filters) := by
  induction es with
  | nil => rfl
  | cons e es ih => simp [pushDownAll, ih]

theorem pushDownAt_eq_modify (filters : List LabelFilter) (i : Nat) (es : List Expr) :
    pushDownAt filters i es = es.modify i (pushDown filters) := by
  induction es generalizing i with
  | nil => cases i <;> rfl
  | cons e es ih =>
      cases i with
      | zero => rfl
      | succ i => simp [pushDownAt, ih]

/-- The filters that all results of one of the expressions pass. -/
theorem mem_commonFiltersAt {f : LabelFilter} {i : Nat} {es : List Expr} :
    f ∈ commonFiltersAt i es ↔ ∃ e ∈ es[i]?, f ∈ commonFilters e := by
  induction es generalizing i with
  | nil => cases i <;> simp [commonFiltersAt]
  | cons e es ih =>
      cases i with
      | zero => simp [commonFiltersAt]
      | succ i => simp [commonFiltersAt, ih]

/-- The filters that all results of all the expressions pass, where there are any. -/
theorem mem_commonFiltersAll {f : LabelFilter} {es : List Expr} :
    f ∈ commonFiltersAll es ↔ es ≠ [] ∧ ∀ e ∈ es, f ∈ commonFilters e := by
  induction es with
  | nil => simp [commonFiltersAll]
  | cons e es ih =>
      cases es with
      | nil => simp [commonFiltersAll]
      | cons e' es => simp [commonFiltersAll, commonTo, ih]

/-! ## Pushing through nodes -/

@[simp]
theorem pushDown_nil (e : Expr) : pushDown [] e = e := by
  unfold pushDown
  simp

theorem pushDown_selector {filters : List LabelFilter} (h : filters ≠ []) (s : Selector) :
    pushDown filters (selector s) = selector (s.addFilters filters) := by
  simp [pushDown, h]

@[simp]
theorem pushDown_rollup (filters : List LabelFilter) (inner : Expr) (range : Range)
    (time : Option Expr) :
    pushDown filters (rollup inner range time) = rollup (pushDown filters inner) range time := by
  cases filters <;> simp [pushDown]

@[simp]
theorem pushDown_binary (filters : List LabelFilter) (b : BinaryOp) (l r : Expr) :
    pushDown filters (binary b l r) =
      binary b (pushDown (trimMatching b.matching filters) l)
        (pushDown (trimMatching b.matching filters) r) := by
  cases filters with
  | nil =>
      have hnil : trimMatching b.matching [] = [] := List.eq_nil_iff_forall_not_mem.2 (by simp)
      simp [hnil]
  | cons f fs => simp [pushDown]

theorem pushDown_call (filters : List LabelFilter) (name : String) (args : List Expr)
    (keepNames : Bool) :
    pushDown filters (call name args keepNames) =
      match callSource? name args with
      | none => call name args keepNames
      | some (i, written) =>
          call name (args.modify i (pushDown (filtersOff written filters))) keepNames := by
  cases filters with
  | nil =>
      have hid : pushDown [] = id := funext pushDown_nil
      split <;> simp [filtersOff, hid]
  | cons f fs =>
      cases hsource : callSource? name args <;> simp [pushDown, hsource, pushDownAt_eq_modify]

theorem pushDown_aggregate (filters : List LabelFilter) (a : Aggregation) (args : List Expr) :
    pushDown filters (aggregate a args) =
      match aggregateSource a.name args.length with
      | .nowhere => aggregate a args
      | .argument i => aggregate a (args.modify i (pushDown (trimGrouping a.grouping filters)))
      | .everywhere => aggregate a (args.map (pushDown (trimGrouping a.grouping filters))) := by
  cases filters with
  | nil =>
      have hnil : trimGrouping a.grouping [] = [] := List.eq_nil_iff_forall_not_mem.2 (by simp)
      have hid : pushDown [] = id := funext pushDown_nil
      split <;> simp [hnil, hid]
  | cons f fs =>
      cases hsource : aggregateSource a.name args.length <;>
        simp [pushDown, hsource, pushDownAt_eq_modify, pushDownAll_eq_map]

/-- Strings among the arguments stay. -/
@[simp]
theorem labelArgument?_pushDown (filters : List LabelFilter) (e : Expr) :
    labelArgument? (pushDown filters e) = labelArgument? e := by
  unfold pushDown
  split
  · rfl
  · split <;> try rfl
    all_goals split <;> rfl

theorem callSource?_modify_pushDown (filters : List LabelFilter) (name : String) (i : Nat)
    (args : List Expr) :
    callSource? name (args.modify i (pushDown filters)) = callSource? name args := by
  refine callSource?_congr name (List.ext_getElem? fun j => ?_)
  rw [List.getElem?_map, List.getElem?_map, List.getElem?_modify]
  cases args[j]? with
  | none => rfl
  | some e =>
      by_cases h : i = j <;> simp [h]

/-! ## Common filters of nodes -/

theorem mem_commonFilters_call {name : String} {args : List Expr} {keepNames : Bool}
    {f : LabelFilter} :
    f ∈ commonFilters (call name args keepNames) ↔
      match callSource? name args with
      | none => False
      | some (i, written) => (∃ e ∈ args[i]?, f ∈ commonFilters e) ∧ f.label ∉ written := by
  rw [commonFilters]
  cases callSource? name args with
  | none => simp
  | some source => simp [mem_commonFiltersAt]

theorem mem_commonFilters_aggregate {a : Aggregation} {args : List Expr} {f : LabelFilter} :
    f ∈ commonFilters (aggregate a args) ↔
      KeptBy a.grouping f ∧
        match aggregateSource a.name args.length with
        | .nowhere => False
        | .argument i => ∃ e ∈ args[i]?, f ∈ commonFilters e
        | .everywhere => args ≠ [] ∧ ∀ e ∈ args, f ∈ commonFilters e := by
  rw [commonFilters, mem_trimGrouping, and_comm]
  cases aggregateSource a.name args.length with
  | nowhere => simp
  | argument i => simp [mem_commonFiltersAt]
  | everywhere => simp [mem_commonFiltersAll]

/-! ## Bounds -/

/-- Pushing filters loses no common filter. -/
theorem commonFilters_subset_pushDown (filters : List LabelFilter) (e : Expr) :
    e.commonFilters ⊆ (pushDown filters e).commonFilters := by
  induction e using Expr.inductionOn generalizing filters with
  | selector s =>
      by_cases h : filters = []
      · simp [h]
      · intro f hf
        rw [pushDown_selector h, commonFilters, Selector.mem_commonFilters]
        rcases Selector.mem_commonFilters.1 hf with ⟨hne, hall, hname⟩
        refine ⟨Selector.addFilters_groups_ne_nil filters s, fun g hg => ?_, hname⟩
        -- Each group with added filters comes from a group of before, and has all its filters.
        rcases Selector.mem_addFilters_groups hg with ⟨-, g', hg', hmem⟩
        rw [Selector.targets_of_ne_nil hne] at hg'
        exact (hmem f).2 (.inl (hall g' hg'))
  | rollup inner range time ih _ => simpa [commonFilters] using ih filters
  | call name args keepNames ih =>
      intro f hf
      rw [mem_commonFilters_call] at hf
      rw [pushDown_call]
      cases hsource : callSource? name args with
      | none => simp [hsource] at hf
      | some source =>
          simp only [hsource] at hf ⊢
          rcases hf with ⟨⟨e, he, hfe⟩, hwritten⟩
          simp only [mem_commonFilters_call, callSource?_modify_pushDown, hsource]
          refine ⟨⟨pushDown (filtersOff source.2 filters) e, ?_, ?_⟩, hwritten⟩
          · simp [Option.mem_def.1 he]
          · exact ih e (List.mem_of_getElem? he) _ hfe
  | aggregate a args ih =>
      intro f hf
      rw [mem_commonFilters_aggregate] at hf
      rcases hf with ⟨hkept, hf⟩
      rw [pushDown_aggregate]
      cases hsource : aggregateSource a.name args.length with
      | nowhere => simp [hsource] at hf
      | argument i =>
          simp only [hsource] at hf ⊢
          rcases hf with ⟨e, he, hfe⟩
          simp only [mem_commonFilters_aggregate, List.length_modify, hsource]
          refine ⟨hkept, pushDown (trimGrouping a.grouping filters) e, ?_, ?_⟩
          · simp [Option.mem_def.1 he]
          · exact ih e (List.mem_of_getElem? he) _ hfe
      | everywhere =>
          simp only [hsource] at hf ⊢
          rcases hf with ⟨hne, hall⟩
          simp only [mem_commonFilters_aggregate, List.length_map, hsource]
          refine ⟨hkept, by simpa using hne, fun e' he' => ?_⟩
          rcases List.mem_map.1 he' with ⟨e, he, rfl⟩
          exact ih e he _ (hall e he)
  | binary b l r ihl ihr =>
      simpa [commonFilters] using operatorFilters_mono (ihl _) (ihr _)
  | _ => simp [commonFilters]

/-- The only common filters that pushing may add are those that are pushed. -/
theorem pushDown_commonFilters_subset (filters : List LabelFilter) (e : Expr) :
    (pushDown filters e).commonFilters ⊆ e.commonFilters ++ filters := by
  induction e using Expr.inductionOn generalizing filters with
  | selector s =>
      by_cases h : filters = []
      · simp [h]
      · rw [pushDown_selector h]
        exact Selector.addFilters_commonFilters_subset filters s
  | rollup inner range time ih _ => simpa [commonFilters] using ih filters
  | call name args keepNames ih =>
      intro f hf
      rw [pushDown_call] at hf
      rw [List.mem_append]
      cases hsource : callSource? name args with
      | none => exact .inl (by simpa [hsource] using hf)
      | some source =>
          simp only [hsource, mem_commonFilters_call, callSource?_modify_pushDown] at hf ⊢
          rcases hf with ⟨⟨e', he', hfe⟩, hwritten⟩
          rcases mem_getElem?_modify.1 he' with ⟨e, he, rfl⟩
          have hor := List.mem_append.1 (ih e (List.mem_of_getElem? he) _ hfe)
          exact hor.imp (fun h => ⟨⟨e, he, h⟩, hwritten⟩) fun h => (mem_filtersOff.1 h).1
  | aggregate a args ih =>
      intro f hf
      rw [pushDown_aggregate] at hf
      rw [List.mem_append]
      cases hsource : aggregateSource a.name args.length with
      | nowhere => exact .inl (by simpa [hsource] using hf)
      | argument i =>
          simp only [hsource, mem_commonFilters_aggregate, List.length_modify] at hf ⊢
          rcases hf with ⟨hkept, e', he', hfe⟩
          rcases mem_getElem?_modify.1 he' with ⟨e, he, rfl⟩
          have hor := List.mem_append.1 (ih e (List.mem_of_getElem? he) _ hfe)
          exact hor.imp (fun h => ⟨hkept, e, he, h⟩) fun h => (mem_trimGrouping.1 h).1
      | everywhere =>
          simp only [hsource, mem_commonFilters_aggregate, List.length_map] at hf ⊢
          rcases hf with ⟨hkept, hne, hall⟩
          -- A filter that is not pushed has to come from every argument.
          by_cases hnew : f ∈ filters
          · exact .inr hnew
          · refine .inl ⟨hkept, by simpa using hne, fun e he => ?_⟩
            have hor := ih e he _ (hall _ (List.mem_map_of_mem he))
            exact (List.mem_append.1 hor).resolve_right fun h => hnew (mem_trimGrouping.1 h).1
  | binary b l r ihl ihr =>
      simpa [commonFilters] using operatorFilters_subset (ihl _) (ihr _)
  | _ => simp [commonFilters, pushDown]

/-- Each common filter is one of a selector in the expression. -/
theorem exists_selector_of_mem_commonFilters {e : Expr} {f : LabelFilter}
    (h : f ∈ e.commonFilters) : ∃ s, Within (.selector s) e ∧ f ∈ s.commonFilters := by
  induction e using Expr.inductionOn with
  | selector s => exact ⟨s, .refl, h⟩
  | rollup inner range time ih _ =>
      rcases ih h with ⟨s, hs, hf⟩
      exact ⟨s, .inner hs, hf⟩
  | call name args keepNames ih =>
      rw [mem_commonFilters_call] at h
      split at h
      · exact h.elim
      · rcases h with ⟨⟨e, he, hfe⟩, -⟩
        have hmem := List.mem_of_getElem? he
        rcases ih e hmem hfe with ⟨s, hs, hf⟩
        exact ⟨s, .call hmem hs, hf⟩
  | aggregate a args ih =>
      -- Where the filter is common to all arguments, any of them will do.
      have harg : ∃ e ∈ args, f ∈ e.commonFilters := by
        rw [mem_commonFilters_aggregate] at h
        rcases h with ⟨-, h⟩
        split at h
        · exact h.elim
        · rcases h with ⟨e, he, hfe⟩
          exact ⟨e, List.mem_of_getElem? he, hfe⟩
        · rcases List.exists_mem_of_ne_nil args h.1 with ⟨e, he⟩
          exact ⟨e, he, h.2 e he⟩
      rcases harg with ⟨e, he, hfe⟩
      rcases ih e he hfe with ⟨s, hs, hf⟩
      exact ⟨s, .aggregate he hs, hf⟩
  | binary b l r ihl ihr =>
      rcases mem_or_mem_of_mem_operatorFilters h with hl | hr
      · rcases ihl hl with ⟨s, hs, hf⟩
        exact ⟨s, .left hs, hf⟩
      · rcases ihr hr with ⟨s, hs, hf⟩
        exact ⟨s, .right hs, hf⟩
  | _ => simp [commonFilters] at h

/-- No common filter is on the name of a metric. -/
theorem label_ne_nameLabel {e : Expr} {f : LabelFilter} (h : f ∈ e.commonFilters) :
    f.label ≠ nameLabel := by
  rcases exists_selector_of_mem_commonFilters h with ⟨s, -, hf⟩
  exact (Selector.mem_commonFilters.1 hf).2.2

end Expr
end SeriesQuery
