import Mathlib.Data.Option.Basic
import SeriesQuery.Proofs.Pushing

/-!
# Pushing filters down once is enough

A filter pushed into a tree reaches some of its selectors (`Expr.Reaches`), and which ones it
reaches does not depend on the other filters that are pushed with it.  It is settled where pushing
it changes nothing (`Expr.Settled`).  A tree is optimal where the common filters of all its
operators are settled; `Expr.optimize` makes trees optimal, and leaves optimal trees as they are.
-/

namespace SeriesQuery

namespace Expr

variable {f : LabelFilter} {filters : List LabelFilter} {e : Expr}

/-! ## Reaching selectors -/

/-- The filter, pushed into the expression, comes to the selector. -/
inductive Reaches (f : LabelFilter) : Expr → Selector → Prop where
  | selector (s : Selector) : Reaches f (.selector s) s
  | rollup {inner : Expr} {range : Range} {time : Option Expr} {s : Selector} :
      Reaches f inner s → Reaches f (.rollup inner range time) s
  | call {name : String} {args : List Expr} {keepNames : Bool} {i : Nat} {written : List String}
      {e : Expr} {s : Selector} :
      callSource? name args = some (i, written) → f.label ∉ written → e ∈ args[i]? →
        Reaches f e s → Reaches f (.call name args keepNames) s
  | argument {a : Aggregation} {args : List Expr} {i : Nat} {e : Expr} {s : Selector} :
      aggregateSource a.name args.length = .argument i → KeptBy a.grouping f → e ∈ args[i]? →
        Reaches f e s → Reaches f (.aggregate a args) s
  | everywhere {a : Aggregation} {args : List Expr} {e : Expr} {s : Selector} :
      aggregateSource a.name args.length = .everywhere → KeptBy a.grouping f → e ∈ args →
        Reaches f e s → Reaches f (.aggregate a args) s
  | left {b : BinaryOp} {l r : Expr} {s : Selector} :
      CarriedBy b.matching f → Reaches f l s → Reaches f (.binary b l r) s
  | right {b : BinaryOp} {l r : Expr} {s : Selector} :
      CarriedBy b.matching f → Reaches f r s → Reaches f (.binary b l r) s

/-- A selector that a filter comes to behind other filters was there before them, and the filter is
among those that came to it if it was among those that were pushed. -/
theorem Reaches.of_pushDown {s : Selector} (h : Reaches f (pushDown filters e) s) :
    ∃ s' arrived, Reaches f e s' ∧ (f ∈ filters → f ∈ arrived) ∧
      pushDown arrived (.selector s') = .selector s := by
  -- On the way down filters are left out, so the induction is for any filters.
  induction e using Expr.inductionOn generalizing filters with
  | selector s' =>
      refine ⟨s', filters, .selector s', id, ?_⟩
      by_cases hnil : filters = []
      · rw [hnil, pushDown_nil] at h ⊢
        cases h
        rfl
      · rw [pushDown_selector hnil] at h ⊢
        cases h
        rfl
  | rollup inner range time ih _ =>
      rw [pushDown_rollup] at h
      cases h with
      | rollup h =>
          rcases ih h with ⟨s', arrived, hreach, hmem, heq⟩
          exact ⟨s', arrived, .rollup hreach, hmem, heq⟩
  | call name args keepNames ih =>
      rw [pushDown_call] at h
      cases hsource : callSource? name args with
      | none =>
          simp only [hsource] at h
          cases h with
          | call hsource' => rw [hsource] at hsource'; cases hsource'
      | some source =>
          rcases source with ⟨i, written⟩
          simp only [hsource] at h
          cases h with
          | call hsource' hwritten he' h =>
              -- Pushing filters into an argument leaves it the one that filters come to.
              rw [callSource?_modify_pushDown, hsource] at hsource'
              cases hsource'
              rcases mem_getElem?_modify.1 he' with ⟨e, he, rfl⟩
              rcases ih e (List.mem_of_getElem? he) h with ⟨s', arrived, hreach, hmem, heq⟩
              refine ⟨s', arrived, .call hsource hwritten he hreach, fun hf => hmem ?_, heq⟩
              exact mem_filtersOff.2 ⟨hf, hwritten⟩
  | aggregate a args ih =>
      rw [pushDown_aggregate] at h
      cases hsource : aggregateSource a.name args.length with
      | nowhere =>
          simp only [hsource] at h
          cases h with
          | argument hsource' => rw [hsource] at hsource'; cases hsource'
          | everywhere hsource' => rw [hsource] at hsource'; cases hsource'
      | argument i =>
          simp only [hsource] at h
          cases h with
          | argument hsource' hkept he' h =>
              rw [List.length_modify, hsource] at hsource'
              cases hsource'
              rcases mem_getElem?_modify.1 he' with ⟨e, he, rfl⟩
              rcases ih e (List.mem_of_getElem? he) h with ⟨s', arrived, hreach, hmem, heq⟩
              refine ⟨s', arrived, .argument hsource hkept he hreach, fun hf => hmem ?_, heq⟩
              exact mem_trimGrouping.2 ⟨hf, hkept⟩
          | everywhere hsource' =>
              rw [List.length_modify, hsource] at hsource'
              cases hsource'
      | everywhere =>
          simp only [hsource] at h
          cases h with
          | argument hsource' =>
              rw [List.length_map, hsource] at hsource'
              cases hsource'
          | everywhere hsource' hkept he' h =>
              rcases List.mem_map.1 he' with ⟨e, he, rfl⟩
              rcases ih e he h with ⟨s', arrived, hreach, hmem, heq⟩
              refine ⟨s', arrived, .everywhere hsource hkept he hreach, fun hf => hmem ?_, heq⟩
              exact mem_trimGrouping.2 ⟨hf, hkept⟩
  | binary b l r ihl ihr =>
      rw [pushDown_binary] at h
      cases h with
      | left hcarried h =>
          rcases ihl h with ⟨s', arrived, hreach, hmem, heq⟩
          exact ⟨s', arrived, .left hcarried hreach,
            fun hf => hmem (mem_trimMatching.2 ⟨hf, hcarried⟩), heq⟩
      | right hcarried h =>
          rcases ihr h with ⟨s', arrived, hreach, hmem, heq⟩
          exact ⟨s', arrived, .right hcarried hreach,
            fun hf => hmem (mem_trimMatching.2 ⟨hf, hcarried⟩), heq⟩
  | _ =>
      simp only [pushDown, ite_self] at h
      cases h

/-! ## Settled filters -/

/-- Pushing the filter changes nothing: the selectors that it comes to have it in all their groups,
which are in order. -/
def Settled (f : LabelFilter) (e : Expr) : Prop :=
  ∀ s, Reaches f e s → s.groups ≠ [] ∧ ∀ g ∈ s.groups, LabelFilter.Canonical g ∧ f ∈ g

/-- Settled filters change nothing. -/
theorem pushDown_eq_self (h : ∀ f ∈ filters, Settled f e) : pushDown filters e = e := by
  induction e using Expr.inductionOn generalizing filters with
  | selector s =>
      by_cases hnil : filters = []
      · simp [hnil]
      · -- One of the filters shows that there are groups, and all of them are in each group.
        rcases List.exists_mem_of_ne_nil filters hnil with ⟨f, hf⟩
        have hgroups := h f hf s (.selector s)
        rw [pushDown_selector hnil, Selector.addFilters_eq_self hgroups.1]
        intro g hg
        exact ⟨(hgroups.2 g hg).1, fun f' hf' => ((h f' hf' s (.selector s)).2 g hg).2⟩
  | rollup inner range time ih _ =>
      rw [pushDown_rollup, ih fun f hf s hs => h f hf s (.rollup hs)]
  | call name args keepNames ih =>
      rw [pushDown_call]
      cases hsource : callSource? name args with
      | none => rfl
      | some source =>
          rcases source with ⟨i, written⟩
          dsimp only
          rw [modify_eq_self]
          intro e he
          -- A filter that comes to a selector of the argument comes to it through the call.
          refine ih e (List.mem_of_getElem? he) fun f hf s hs => ?_
          rcases mem_filtersOff.1 hf with ⟨hmem, hwritten⟩
          exact h f hmem s (.call hsource hwritten he hs)
  | aggregate a args ih =>
      rw [pushDown_aggregate]
      cases hsource : aggregateSource a.name args.length with
      | nowhere => rfl
      | argument i =>
          dsimp only
          rw [modify_eq_self]
          intro e he
          refine ih e (List.mem_of_getElem? he) fun f hf s hs => ?_
          rcases mem_trimGrouping.1 hf with ⟨hmem, hkept⟩
          exact h f hmem s (.argument hsource hkept he hs)
      | everywhere =>
          dsimp only
          rw [map_eq_self]
          intro e he
          refine ih e he fun f hf s hs => ?_
          rcases mem_trimGrouping.1 hf with ⟨hmem, hkept⟩
          exact h f hmem s (.everywhere hsource hkept he hs)
  | binary b l r ihl ihr =>
      rw [pushDown_binary, ihl, ihr]
      · intro f hf s hs
        rcases mem_trimMatching.1 hf with ⟨hmem, hcarried⟩
        exact h f hmem s (.right hcarried hs)
      · intro f hf s hs
        rcases mem_trimMatching.1 hf with ⟨hmem, hcarried⟩
        exact h f hmem s (.left hcarried hs)
  | _ => simp [pushDown]

/-- Filters that were pushed are settled, and filters that were settled stay so. -/
theorem settled_pushDown (h : f ∈ filters ∨ Settled f e) : Settled f (pushDown filters e) := by
  intro s hs
  rcases hs.of_pushDown with ⟨s', arrived, hreach, hmem, heq⟩
  by_cases hnil : arrived = []
  · rw [hnil, pushDown_nil] at heq
    cases heq
    have hsettled := h.resolve_left fun hf => by simpa [hnil] using hmem hf
    exact hsettled s hreach
  · rw [pushDown_selector hnil] at heq
    cases heq
    refine ⟨Selector.addFilters_groups_ne_nil arrived s', fun g hg => ?_⟩
    rcases Selector.mem_addFilters_groups hg with ⟨hcanonical, g', hg', hiff⟩
    refine ⟨hcanonical, (hiff f).2 ?_⟩
    cases h with
    | inl hf => exact .inr (hmem hf)
    | inr hsettled =>
        rcases hsettled s' hreach with ⟨hne, hall⟩
        rw [Selector.targets_of_ne_nil hne] at hg'
        exact .inl (hall g' hg').2

/-! ## Optimal trees -/

/-- The common filters of the operator are settled. -/
def IsShared (n : Expr) : Prop :=
  n.isBinary → ∀ f ∈ n.commonFilters, Settled f n

/-- The common filters of all operators are settled. -/
def Optimal (e : Expr) : Prop :=
  AllNodes IsShared e

theorem isShared_of_not_isBinary (h : e.isBinary = false) : IsShared e := by
  intro h'
  rw [h] at h'
  cases h'

/-- An operator shares its filters behind a push if they were settled before, or are pushed. -/
theorem isShared_pushDown (h : ∀ f ∈ e.commonFilters, f ∈ filters ∨ Settled f e) :
    IsShared (pushDown filters e) := by
  intro _ f hf
  cases List.mem_append.1 (pushDown_commonFilters_subset filters e hf) with
  | inl hcommon => exact settled_pushDown (h f hcommon)
  | inr hpushed => exact settled_pushDown (.inl hpushed)

/-- Pushing filters keeps a tree optimal. -/
theorem Optimal.pushDown (h : Optimal e) (filters : List LabelFilter) :
    Optimal (e.pushDown filters) := by
  induction e using Expr.inductionOn generalizing filters with
  | selector s =>
      by_cases hnil : filters = []
      · simpa [hnil] using h
      · rw [pushDown_selector hnil]
        exact (allNodes_atom rfl).2 (isShared_of_not_isBinary rfl)
  | rollup inner range time ih _ =>
      rcases allNodes_rollup.1 h with ⟨-, hinner, htime⟩
      rw [pushDown_rollup]
      exact allNodes_rollup.2 ⟨isShared_of_not_isBinary rfl, ih hinner filters, htime⟩
  | call name args keepNames ih =>
      rw [pushDown_call]
      split
      · exact h
      · rcases allNodes_call.1 h with ⟨-, hargs⟩
        refine allNodes_call.2 ⟨isShared_of_not_isBinary rfl, ?_⟩
        exact forall_mem_modify hargs fun e he => ih e he (hargs e he) _
  | aggregate a args ih =>
      rw [pushDown_aggregate]
      rcases allNodes_aggregate.1 h with ⟨-, hargs⟩
      split
      · exact h
      · refine allNodes_aggregate.2 ⟨isShared_of_not_isBinary rfl, ?_⟩
        exact forall_mem_modify hargs fun e he => ih e he (hargs e he) _
      · refine allNodes_aggregate.2 ⟨isShared_of_not_isBinary rfl, ?_⟩
        exact List.forall_mem_map.2 fun e he => ih e he (hargs e he) _
  | binary b l r ihl ihr =>
      rcases allNodes_binary.1 h with ⟨hself, hl, hr⟩
      -- The common filters of the operator are settled in it, as it is optimal.
      have hshared : IsShared (Expr.pushDown filters (.binary b l r)) :=
        isShared_pushDown fun f hf => .inr (hself rfl f hf)
      rw [pushDown_binary] at hshared ⊢
      exact allNodes_binary.2 ⟨hshared, ihl hl _, ihr hr _⟩
  | _ => simpa [Expr.pushDown] using h

/-- Optimization makes trees optimal. -/
theorem optimal_optimize (e : Expr) : Optimal e.optimize := by
  induction e using Expr.inductionOn with
  | rollup inner range time ih ihtime =>
      rw [optimize, optimizeOption_eq_map]
      exact allNodes_rollup.2 ⟨isShared_of_not_isBinary rfl, ih, Option.forall_mem_map.2 ihtime⟩
  | call name args keepNames ih =>
      rw [optimize, optimizeList_eq_map]
      exact allNodes_call.2 ⟨isShared_of_not_isBinary rfl, List.forall_mem_map.2 ih⟩
  | aggregate a args ih =>
      rw [optimize, optimizeList_eq_map]
      exact allNodes_aggregate.2 ⟨isShared_of_not_isBinary rfl, List.forall_mem_map.2 ih⟩
  | tuple items ih =>
      rw [optimize, optimizeList_eq_map]
      exact allNodes_tuple.2 ⟨isShared_of_not_isBinary rfl, List.forall_mem_map.2 ih⟩
  | binary b l r ihl ihr =>
      rw [optimize, shareFilters]
      have hshared := isShared_pushDown fun (f : LabelFilter)
        (hf : f ∈ (binary b (optimize l) (optimize r)).commonFilters) => .inl hf
      rw [pushDown_binary] at hshared ⊢
      exact allNodes_binary.2 ⟨hshared, ihl.pushDown _, ihr.pushDown _⟩
  | _ => exact (allNodes_atom rfl).2 (isShared_of_not_isBinary rfl)

/-- Optimization leaves optimal trees as they are. -/
theorem Optimal.optimize_eq (h : Optimal e) : e.optimize = e := by
  induction e using Expr.inductionOn with
  | rollup inner range time ih ihtime =>
      rcases allNodes_rollup.1 h with ⟨-, hinner, htime⟩
      rw [optimize, optimizeOption_eq_map, ih hinner]
      cases time with
      | none => rfl
      | some e => rw [Option.map_some, ihtime e rfl (htime e rfl)]
  | call name args keepNames ih =>
      rcases allNodes_call.1 h with ⟨-, hargs⟩
      rw [optimize, optimizeList_eq_map, map_eq_self fun e he => ih e he (hargs e he)]
  | aggregate a args ih =>
      rcases allNodes_aggregate.1 h with ⟨-, hargs⟩
      rw [optimize, optimizeList_eq_map, map_eq_self fun e he => ih e he (hargs e he)]
  | tuple items ih =>
      rcases allNodes_tuple.1 h with ⟨-, hitems⟩
      rw [optimize, optimizeList_eq_map, map_eq_self fun e he => ih e he (hitems e he)]
  | binary b l r ihl ihr =>
      rcases allNodes_binary.1 h with ⟨hself, hl, hr⟩
      rw [optimize, ihl hl, ihr hr]
      exact pushDown_eq_self (hself rfl)
  | _ => rfl

/-- Optimizing twice is no different from optimizing once. -/
theorem optimize_optimize (e : Expr) : e.optimize.optimize = e.optimize :=
  (optimal_optimize e).optimize_eq

end Expr
end SeriesQuery
