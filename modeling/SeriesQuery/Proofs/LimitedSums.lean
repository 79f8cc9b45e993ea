import Mathlib.Data.Set.Card
import SeriesQuery.Proofs.Meaning

/-!
# Sums with a limit

A sum with a limit gives the first of its groups in some order.  Optimization pushes the filters of
the other operand below the sum, so the groups that do not pass them are left out before the limit is
applied and not behind it (`World.denote_optimize_sum`).  No result is lost that way, but there are
more where a group with a match takes the place of one that is left out
(`World.denote_optimize_limited`); the result is then another one
(`World.not_denote_optimize_limited`).
-/

namespace SeriesQuery

/-! ## First members -/

/-- The first `n` members of the set in the order. -/
def firstOf (before : LabelMap → LabelMap → Prop) (n : Nat) (A : Set LabelMap) : Set LabelMap :=
  {k | k ∈ A ∧ {m | m ∈ A ∧ before m k}.encard < n}

section FirstOf

variable {before : LabelMap → LabelMap → Prop} {n : Nat} {A B : Set LabelMap}

theorem firstOf_subset : firstOf before n A ⊆ A :=
  fun _ hk => hk.1

/-- The first members of a set are among the first of each part of it that they belong to. -/
theorem mem_firstOf_of_subset (hsub : B ⊆ A) {k : LabelMap} (hk : k ∈ firstOf before n A)
    (hB : k ∈ B) : k ∈ firstOf before n B := by
  refine ⟨hB, lt_of_le_of_lt (Set.encard_le_encard ?_) hk.2⟩
  exact fun m hm => ⟨hsub hm.1, hm.2⟩

/-- The only first member has no member before it. -/
theorem not_mem_firstOf_one {k m : LabelMap} (hm : m ∈ A) (hbefore : before m k) :
    k ∉ firstOf before 1 A := by
  rintro ⟨-, hcard⟩
  rw [Nat.cast_one, Set.encard_lt_one] at hcard
  exact Set.notMem_empty m (hcard ▸ ⟨hm, hbefore⟩)

end FirstOf

/-! ## Sums -/

/-- A sum of what the selector selects, by labels and with a limit. -/
def limitedSum (labels : List String) (limit : Nat) (s : Selector) : Expr :=
  .aggregate ⟨"sum", some (.by labels), limit⟩ [.selector s]

namespace World

/-- The world with these series, where aggregates with a limit give the first groups of their
argument in the order. -/
def limiting (before : LabelMap → LabelMap → Prop) (series : Set LabelMap)
    (fits : String → String → Prop) : World where
  series := series
  fits := fits
  constant _ := ∅
  call _ _ _ := ∅
  aggregate a args :=
    match args with
    | [.series maps] => firstOf before a.limit {k | ∃ m ∈ maps, a.group m = k}
    | _ => ∅
  tuple _ := ∅

/-- The groups of what a selector selects. -/
def groups (w : World) (labels : List String) (s : Selector) : Set LabelMap :=
  {k | ∃ m ∈ w.select s, m.restrict (groupLabels (some (.by labels))) = k}

/-- The groups that pass those of the filters that are on the labels of the groups. -/
def passingGroups (w : World) (labels : List String) (s : Selector) (filters : List LabelFilter) :
    Set LabelMap :=
  {k | k ∈ w.groups labels s ∧ w.PassesAll (filtersOn labels filters) k}

/-- A map that the selector selects has the same key. -/
def Matched (w : World) (b : BinaryOp) (s : Selector) (k : LabelMap) : Prop :=
  ∃ m ∈ w.select s, b.key m = b.key k

section

variable {before : LabelMap → LabelMap → Prop} {series : Set LabelMap}
  {fits : String → String → Prop} {labels : List String} {n : Nat} {op : Operator}
  {s t : Selector} {filters : List LabelFilter} {k m : LabelMap}

theorem groups_subset {w : World} : w.passingGroups labels s filters ⊆ w.groups labels s :=
  fun _ hk => hk.1

/-! ## Selectors with filters added -/

theorem passesAll_commonFilters {w : World} (hm : m ∈ w.select s) :
    w.PassesAll s.commonFilters m := by
  intro f hf
  rcases Selector.mem_commonFilters.1 hf with ⟨hne, hall, -⟩
  rcases hm.2.resolve_left hne with ⟨g, hg, hpass⟩
  exact hpass f (hall g hg)

/-- A selector with filters pushed into it selects the maps that pass them. -/
theorem denote_pushDown_selector (w : World) (filters : List LabelFilter) (s : Selector) :
    w.denote ((Expr.selector s).pushDown filters) =
      {m | m ∈ w.select s ∧ w.PassesAll filters m} := by
  by_cases hnil : filters = []
  · ext m
    simp [hnil, denote, PassesAll]
  · rw [Expr.pushDown_selector hnil, denote]
    ext m
    constructor
    · intro hm
      have hpass : w.PassesAll filters m := by
        intro f hf
        rcases hm.2.resolve_left (Selector.addFilters_groups_ne_nil filters s) with ⟨g, hg, hall⟩
        rcases Selector.mem_addFilters_groups hg with ⟨-, _, -, hiff⟩
        exact hall f ((hiff f).2 (.inr hf))
      exact ⟨(agree_addFilters s m hpass).1 hm, hpass⟩
    · rintro ⟨hm, hpass⟩
      exact (agree_addFilters s m hpass).2 hm

theorem mem_select_ofName {w : World} {name : String} :
    m ∈ w.select (.ofName name) ↔ m ∈ w.series ∧ m nameLabel = name := by
  simp [select, Selector.ofName, LabelFilter.Passes, LabelFilter.equal]

/-! ## What is denoted -/

theorem denote_plain (w : World) (hop : op.kind = .arithmetic) (l r : Expr) :
    w.denote (.binary (.plain op) l r) =
      {k | (∃ m ∈ w.denote l, (BinaryOp.plain op).key m = k) ∧
        ∃ m ∈ w.denote r, (BinaryOp.plain op).key m = k} := by
  rw [denote]
  cases op <;> first | rfl | cases hop

theorem denote_limited (hn : 0 < n) (arg : Expr) (harg : arg.isConstant = false) :
    (limiting before series fits).denote (.aggregate ⟨"sum", some (.by labels), n⟩ [arg]) =
      firstOf before n {k | ∃ m ∈ (limiting before series fits).denote arg,
        m.restrict (groupLabels (some (.by labels))) = k} := by
  have hlimit : (n == 0) = false := beq_eq_false_iff_ne.2 hn.ne'
  have hsum : Aggregation.isSum ⟨"sum", some (.by labels), n⟩ = false := by
    simp only [Aggregation.isSum, hlimit, Bool.and_false]
  rw [denote, if_neg (by rw [hsum]; exact Bool.false_ne_true), arguments, arguments, harg]
  rfl

/-- What optimization makes of a sum beside a selector. -/
theorem optimize_sum (op : Operator) (labels : List String) (n : Nat) (s t : Selector) :
    (Expr.binary (.plain op) (limitedSum labels n s) (.selector t)).optimize =
      (let filters := (Expr.binary (.plain op) (limitedSum labels n s) (.selector t)).commonFilters
       .binary (.plain op)
        (.aggregate ⟨"sum", some (.by labels), n⟩
          [(Expr.selector s).pushDown (filtersOn labels filters)])
        ((Expr.selector t).pushDown filters)) := by
  have hsource : aggregateSource "sum" 1 = .argument 0 := by decide
  rw [Expr.optimize, Expr.shareFilters, Expr.pushDown_binary]
  simp only [limitedSum, Expr.optimize, Expr.optimizeList, Expr.pushDown_aggregate, trimMatching,
    BinaryOp.plain, List.length_singleton, hsource, trimGrouping]
  rfl

theorem mem_commonFilters_sum (hop : op.kind = .arithmetic) {f : LabelFilter} :
    f ∈ (Expr.binary (.plain op) (limitedSum labels n s) (.selector t)).commonFilters ↔
      f ∈ s.commonFilters ∧ f.label ∈ labels ∨ f ∈ t.commonFilters := by
  have hsource : aggregateSource "sum" 1 = .argument 0 := by decide
  have hfilters : ∀ left right, operatorFilters (.plain op) left right = together left right := by
    intro left right
    cases op <;> first | rfl | cases hop
  have hsum : (limitedSum labels n s).commonFilters = filtersOn labels s.commonFilters := by
    simp only [limitedSum, Expr.commonFilters, Expr.commonFiltersAt, List.length_singleton, hsource,
      trimGrouping]
  rw [Expr.commonFilters, hfilters, mem_together, hsum, mem_filtersOn, Expr.commonFilters]

theorem denote_sum (hn : 0 < n) (hop : op.kind = .arithmetic) :
    (limiting before series fits).denote
        (.binary (.plain op) (limitedSum labels n s) (.selector t)) =
      {κ | (∃ k ∈ firstOf before n ((limiting before series fits).groups labels s),
          (BinaryOp.plain op).key k = κ) ∧
        ∃ m ∈ (limiting before series fits).select t, (BinaryOp.plain op).key m = κ} := by
  rw [denote_plain _ hop, limitedSum, denote_limited hn _ rfl]
  rfl

/-! ## Filters and groups -/

theorem passes_restrict_iff {f : LabelFilter} (hf : f.label ∈ labels) :
    f.Passes fits (m.restrict (groupLabels (some (.by labels)))) ↔ f.Passes fits m :=
  passes_congr (LabelMap.restrict_apply (by simpa [groupLabels] using hf) m)

/-- Groups pass the filters of their selector that are on labels of the groups. -/
theorem passes_of_mem_groups {w : World} (hk : k ∈ w.groups labels s) {f : LabelFilter}
    (hf : f ∈ s.commonFilters) (hlabel : f.label ∈ labels) : f.Passes w.fits k := by
  rcases hk with ⟨m, hm, rfl⟩
  exact (passes_restrict_iff hlabel).2 (passesAll_commonFilters hm f hf)

/-- A map with the key of another one passes a filter if the other one does. -/
theorem passes_of_key_eq {f : LabelFilter} (hname : f.label ≠ nameLabel)
    (hkey : (BinaryOp.plain op).key m = (BinaryOp.plain op).key k) (h : f.Passes fits k) :
    f.Passes fits m := by
  have hcarried : CarriedBy (BinaryOp.plain op).matching f := fun _ h => by cases h
  exact (passes_iff_of_key_eq hname hcarried hkey).2 h

/-- A group with a match passes the filters of the selector that it is matched by. -/
theorem mem_passingGroups_of_matched {w : World} (hk : k ∈ w.groups labels s)
    (hmatched : w.Matched (.plain op) t k) : k ∈ w.passingGroups labels s t.commonFilters := by
  rcases hmatched with ⟨m, hm, hkey⟩
  refine ⟨hk, fun f hf => ?_⟩
  rcases mem_filtersOn.1 hf with ⟨hmem, -⟩
  have hname := (Selector.mem_commonFilters.1 hmem).2.2
  exact passes_of_key_eq hname hkey.symm (passesAll_commonFilters hm f hmem)

/-- The groups of what is left of a selector with filters pushed into it. -/
theorem groups_pushDown (w : World) (hop : op.kind = .arithmetic) :
    {k | ∃ m ∈ w.denote ((Expr.selector s).pushDown (filtersOn labels
        (Expr.binary (.plain op) (limitedSum labels n s) (.selector t)).commonFilters)),
        m.restrict (groupLabels (some (.by labels))) = k} =
      w.passingGroups labels s t.commonFilters := by
  rw [denote_pushDown_selector]
  ext k
  constructor
  · rintro ⟨m, ⟨hm, hpass⟩, rfl⟩
    refine ⟨⟨m, hm, rfl⟩, fun f hf => ?_⟩
    rcases mem_filtersOn.1 hf with ⟨hmem, hlabel⟩
    have hshared : f ∈ (Expr.binary (.plain op) (limitedSum labels n s)
        (.selector t)).commonFilters :=
      (mem_commonFilters_sum hop).2 (.inr hmem)
    exact (passes_restrict_iff hlabel).2 (hpass f (mem_filtersOn.2 ⟨hshared, hlabel⟩))
  · rintro ⟨⟨m, hm, rfl⟩, hpass⟩
    refine ⟨m, ⟨hm, fun f hf => ?_⟩, rfl⟩
    rcases mem_filtersOn.1 hf with ⟨hshared, hlabel⟩
    rcases (mem_commonFilters_sum hop).1 hshared with ⟨hmem, -⟩ | hmem
    · exact passesAll_commonFilters hm f hmem
    · exact (passes_restrict_iff hlabel).1 (hpass f (mem_filtersOn.2 ⟨hmem, hlabel⟩))

/-! ## Optimization -/

/-- Optimization applies the limit behind the filters of the other operand. -/
theorem denote_optimize_sum (hn : 0 < n) (hop : op.kind = .arithmetic) :
    (limiting before series fits).denote
        (Expr.binary (.plain op) (limitedSum labels n s) (.selector t)).optimize =
      {κ | (∃ k ∈ firstOf before n
          ((limiting before series fits).passingGroups labels s t.commonFilters),
          (BinaryOp.plain op).key k = κ) ∧
        ∃ m ∈ (limiting before series fits).select t, (BinaryOp.plain op).key m = κ} := by
  have hconstant : ((Expr.selector s).pushDown (filtersOn labels (Expr.binary (.plain op)
      (limitedSum labels n s) (.selector t)).commonFilters)).isConstant = false :=
    isConstant_pushDown _ _
  rw [optimize_sum, denote_plain _ hop, denote_limited hn _ hconstant, groups_pushDown _ hop,
    denote_pushDown_selector]
  ext κ
  refine and_congr_right ?_
  rintro ⟨k, hk, rfl⟩
  refine exists_congr fun m => and_congr_left fun hkey => ?_
  refine and_iff_left_of_imp fun hm f hf => ?_
  rcases (mem_commonFilters_sum hop).1 hf with ⟨hmem, hlabel⟩ | hmem
  · have hname := (Selector.mem_commonFilters.1 hmem).2.2
    exact passes_of_key_eq hname hkey (passes_of_mem_groups (firstOf_subset hk).1 hmem hlabel)
  · exact passesAll_commonFilters hm f hmem

/-- Optimization loses no result of a sum with a limit.  The results are the same just when each group
with a match, of the first groups that pass the filters of the other operand, is one of the first of
all groups, or has the key of one. -/
theorem denote_optimize_limited (before : LabelMap → LabelMap → Prop) (series : Set LabelMap)
    (fits : String → String → Prop) (s t : Selector) (labels : List String) {n : Nat} (hn : 0 < n)
    {op : Operator} (hop : op.kind = .arithmetic) :
    let w := limiting before series fits
    let e := Expr.binary (.plain op) (limitedSum labels n s) (.selector t)
    w.denote e ⊆ w.denote e.optimize ∧
      (w.denote e.optimize = w.denote e ↔
        ∀ k ∈ firstOf before n (w.passingGroups labels s t.commonFilters),
          w.Matched (.plain op) t k → ∃ k' ∈ firstOf before n (w.groups labels s),
            (BinaryOp.plain op).key k' = (BinaryOp.plain op).key k) := by
  intro w e
  -- A group that counts and has a match passes the filters, and counts among fewer groups.
  have hsub : w.denote e ⊆ w.denote e.optimize := by
    rw [denote_sum hn hop, denote_optimize_sum hn hop]
    rintro _ ⟨⟨k, hk, rfl⟩, hmatched⟩
    have hpassing := mem_passingGroups_of_matched (firstOf_subset hk) hmatched
    exact ⟨⟨k, mem_firstOf_of_subset groups_subset hk hpassing, rfl⟩, hmatched⟩
  refine ⟨hsub, ?_, ?_⟩
  · intro heq k hk hmatched
    have hresult : (BinaryOp.plain op).key k ∈ w.denote e.optimize := by
      rw [denote_optimize_sum hn hop]
      exact ⟨⟨k, hk, rfl⟩, hmatched⟩
    rw [heq, denote_sum hn hop] at hresult
    exact hresult.1
  · intro hkept
    refine Set.Subset.antisymm ?_ hsub
    rw [denote_sum hn hop, denote_optimize_sum hn hop]
    rintro _ ⟨⟨k, hk, rfl⟩, hmatched⟩
    exact ⟨hkept k hk hmatched, hmatched⟩

end

/-! ## Two groups and a limit -/

/-- The order by the value of a label. -/
def orderBy (label : String) (m k : LabelMap) : Prop :=
  m label < k label ∨ m label = k label ∧ WellOrderingRel m k

instance (label : String) : IsStrictTotalOrder LabelMap (orderBy label) where
  trichotomous m k hmk hkm := by
    rcases lt_trichotomy (m label) (k label) with hlt | heq | hgt
    · exact absurd (.inl hlt) hmk
    · have hnone : ¬WellOrderingRel m k ∧ ¬WellOrderingRel k m :=
        ⟨fun h => hmk (.inr ⟨heq, h⟩), fun h => hkm (.inr ⟨heq.symm, h⟩)⟩
      exact (trichotomous_of WellOrderingRel m k).resolve_left hnone.1 |>.resolve_right hnone.2
    · exact absurd (.inl hgt) hkm
  irrefl m h := h.elim (lt_irrefl _) fun h => irrefl_of WellOrderingRel m h.2
  trans m k l hmk hkl := by
    rcases hmk with hlt | ⟨heq, hrel⟩ <;> rcases hkl with hlt' | ⟨heq', hrel'⟩
    · exact .inl (hlt.trans hlt')
    · exact .inl (heq' ▸ hlt)
    · exact .inl (heq ▸ hlt')
    · exact .inr ⟨heq.trans heq', trans_of WellOrderingRel hrel hrel'⟩

/-- The series of a metric with this value of `a`. -/
def seriesWith (metric value : String) : LabelMap :=
  fun label => if label = nameLabel then metric else if label = "a" then value else ""

/-- Two series of `foo` and one of `bar`. -/
def threeSeries : Set LabelMap :=
  {seriesWith "foo" "1", seriesWith "foo" "2", seriesWith "bar" "2"}

/-- The groups of `foo` by `a`. -/
def groupWith (value : String) : LabelMap :=
  (seriesWith "foo" value).restrict (groupLabels (some (.by ["a"])))

/-- The selector of `bar` with `a="2"`. -/
def barWith : Selector :=
  ⟨[[.equal nameLabel "bar", .equal "a" "2"]]⟩

/-- The world with the three series, where groups come in the order of `a`. -/
def threeSeriesWorld : World :=
  limiting (orderBy "a") threeSeries Eq

theorem mem_groups_foo {k : LabelMap} :
    k ∈ threeSeriesWorld.groups ["a"] (.ofName "foo") ↔ k = groupWith "1" ∨ k = groupWith "2" := by
  constructor
  · rintro ⟨m, hm, rfl⟩
    rcases mem_select_ofName.1 hm with ⟨rfl | rfl | rfl, hname⟩
    · exact .inl rfl
    · exact .inr rfl
    · exact absurd hname (by decide)
  · rintro (rfl | rfl)
    · exact ⟨_, mem_select_ofName.2 ⟨.inl rfl, rfl⟩, rfl⟩
    · exact ⟨_, mem_select_ofName.2 ⟨.inr (.inl rfl), rfl⟩, rfl⟩

theorem orderBy_groupWith (v v' : String) (h : v < v') :
    orderBy "a" (groupWith v) (groupWith v') :=
  .inl h

theorem not_orderBy_groupWith (v : String) : ¬orderBy "a" (groupWith v) (groupWith v) :=
  irrefl_of (orderBy "a") _

/-- The second group has the key of the series of `bar`. -/
theorem matched_groupWith : threeSeriesWorld.Matched (.plain .add) barWith (groupWith "2") := by
  refine ⟨seriesWith "bar" "2", ⟨.inr (.inr rfl), .inr ?_⟩, ?_⟩
  · refine ⟨_, List.mem_singleton_self _, fun f hf => ?_⟩
    rcases List.mem_pair.1 hf with rfl | rfl <;> rfl
  · refine LabelMap.restrict_eq_restrict.2 fun label hkey => ?_
    have hname : label ≠ nameLabel := by simpa [keyLabels, BinaryOp.plain] using hkey
    by_cases ha : label = "a"
    · subst ha
      rfl
    · simp [groupWith, groupLabels, LabelMap.restrict, seriesWith, hname, ha]

/-- With a limit of two the sum keeps both of its groups, and optimization keeps the result. -/
theorem denote_optimize_limited_two :
    let e := Expr.binary (.plain .add) (limitedSum ["a"] 2 (.ofName "foo")) (.selector barWith)
    0 < 2 ∧ Operator.add.kind = .arithmetic ∧
      threeSeriesWorld.denote e.optimize = threeSeriesWorld.denote e ∧
        (BinaryOp.plain .add).key (groupWith "2") ∈ threeSeriesWorld.denote e := by
  intro e
  have hkept : ∀ k ∈ threeSeriesWorld.groups ["a"] (.ofName "foo"),
      k ∈ firstOf (orderBy "a") 2 (threeSeriesWorld.groups ["a"] (.ofName "foo")) := by
    intro k hk
    refine ⟨hk, ?_⟩
    have hsub : {m | m ∈ threeSeriesWorld.groups ["a"] (.ofName "foo") ∧ orderBy "a" m k} ⊆
        {groupWith "1"} := by
      rintro m ⟨hm, hbefore⟩
      rcases mem_groups_foo.1 hm with rfl | rfl
      · rfl
      · -- Nothing is behind the second group.
        rcases mem_groups_foo.1 hk with rfl | rfl
        · exact absurd (trans_of (orderBy "a") hbefore (orderBy_groupWith "1" "2" (by decide)))
            (not_orderBy_groupWith "2")
        · exact absurd hbefore (not_orderBy_groupWith "2")
    refine lt_of_le_of_lt (Set.encard_le_encard hsub) ?_
    rw [Set.encard_singleton]
    decide
  have hmain := denote_optimize_limited (orderBy "a") threeSeries Eq (.ofName "foo") barWith ["a"]
    (show 0 < 2 by decide) (show Operator.add.kind = .arithmetic from rfl)
  refine ⟨by decide, rfl, hmain.2.2 fun k hk _ => ?_, ?_⟩
  · exact ⟨k, hkept k (firstOf_subset hk).1, rfl⟩
  · have hsecond := hkept (groupWith "2") (mem_groups_foo.2 (.inr rfl))
    rw [threeSeriesWorld, denote_sum (by decide) rfl]
    exact ⟨⟨_, hsecond, rfl⟩, matched_groupWith⟩

/-- With a limit of one the sum gives the first group, which has no match; optimization leaves it out
before it counts, and the second group is found. -/
theorem not_denote_optimize_limited :
    ¬ ∀ (before : LabelMap → LabelMap → Prop) [IsStrictTotalOrder LabelMap before]
      (series : Set LabelMap) (fits : String → String → Prop) (s t : Selector)
      (labels : List String) (n : Nat) (op : Operator), 0 < n → op.kind = .arithmetic →
      let w := limiting before series fits
      let e := Expr.binary (.plain op) (limitedSum labels n s) (.selector t)
      w.denote e.optimize = w.denote e := by
  intro hsame
  have heq := hsame (orderBy "a") threeSeries Eq (.ofName "foo") barWith ["a"] 1 .add (by decide) rfl
  have hfirst : groupWith "1" ∈ threeSeriesWorld.groups ["a"] (.ofName "foo") :=
    mem_groups_foo.2 (.inl rfl)
  have hsecond : groupWith "2" ∈ threeSeriesWorld.groups ["a"] (.ofName "foo") :=
    mem_groups_foo.2 (.inr rfl)
  have hpassing := mem_passingGroups_of_matched hsecond matched_groupWith
  have hresult : (BinaryOp.plain .add).key (groupWith "2") ∈ threeSeriesWorld.denote
      (Expr.binary (.plain .add) (limitedSum ["a"] 1 (.ofName "foo")) (.selector barWith)).optimize := by
    rw [threeSeriesWorld, denote_optimize_sum (by decide) rfl]
    refine ⟨⟨_, ⟨hpassing, ?_⟩, rfl⟩, matched_groupWith⟩
    -- Among the groups that pass the filters the second group is the first.
    rw [Nat.cast_one, Set.encard_lt_one, Set.eq_empty_iff_forall_notMem]
    rintro m ⟨⟨hm, hpass⟩, hbefore⟩
    rcases mem_groups_foo.1 hm with rfl | rfl
    · have hvalue : groupWith "1" "a" = "2" := hpass (.equal "a" "2") (by decide)
      exact absurd hvalue (by decide)
    · exact not_orderBy_groupWith "2" hbefore
  rw [threeSeriesWorld, heq, denote_sum (by decide) rfl] at hresult
  rcases hresult with ⟨⟨k, hk, hkey⟩, -⟩
  have hlabel : k "a" = "2" := congrFun hkey "a"
  rcases mem_groups_foo.1 (firstOf_subset hk) with rfl | rfl
  · exact absurd hlabel (by decide)
  · exact not_mem_firstOf_one hfirst (orderBy_groupWith "1" "2" (by decide)) hk

end World
end SeriesQuery
