import Mathlib.Data.Option.Basic
import SeriesQuery.Proofs.LabelMaps

/-!
# Pushing filters down keeps the meaning of queries

Two facts carry the proof.  The maps that an expression denotes pass its common filters
(`World.passes_of_mem_denote`).  Pushing filters into an expression changes nothing for the maps that
pass them (`World.agree_pushDown`), although an operator such as `unless` may come to give more maps
where its right operand gives fewer.
-/

namespace SeriesQuery
namespace World

variable {w : World} {e : Expr} {filters : List LabelFilter}

/-! ## Passing filters -/

/-- The map passes all the filters. -/
def PassesAll (w : World) (filters : List LabelFilter) (m : LabelMap) : Prop :=
  ∀ f ∈ filters, f.Passes w.fits m

/-- No filter is on the name of a metric. -/
def NameFree (filters : List LabelFilter) : Prop :=
  ∀ f ∈ filters, f.label ≠ nameLabel

/-- Maps with the same value of its label pass a filter alike. -/
theorem passes_congr {fits : String → String → Prop} {f : LabelFilter} {m n : LabelMap}
    (h : m f.label = n f.label) : f.Passes fits m ↔ f.Passes fits n := by
  unfold LabelFilter.Passes
  rw [h]

theorem keyLabels_of_carriedBy {matching : Option Matching} {f : LabelFilter}
    (hname : f.label ≠ nameLabel) (h : CarriedBy matching f) : keyLabels matching f.label := by
  cases matching with
  | none => simpa [keyLabels] using hname
  | some m =>
      rcases m with ⟨kind, labels⟩
      have hm := h _ rfl
      cases kind <;> simpa [keyLabels, hname] using hm

theorem groupLabels_of_keptBy {grouping : Option Grouping} {f : LabelFilter}
    (hname : f.label ≠ nameLabel) (h : KeptBy grouping f) : groupLabels grouping f.label := by
  match grouping with
  | some (.by labels) => simpa [groupLabels, KeptBy] using h
  | some (.without labels) => simpa [groupLabels, KeptBy, hname] using h

/-- The filters that an operator carries over only look at the key of a map. -/
theorem passes_iff_of_key_eq {fits : String → String → Prop} {b : BinaryOp} {f : LabelFilter}
    {m n : LabelMap} (hname : f.label ≠ nameLabel) (hf : CarriedBy b.matching f)
    (h : b.key m = b.key n) : f.Passes fits m ↔ f.Passes fits n :=
  passes_congr (LabelMap.restrict_eq_restrict.1 h _ (keyLabels_of_carriedBy hname hf))

theorem passes_key {b : BinaryOp} {f : LabelFilter} (hname : f.label ≠ nameLabel)
    (hf : CarriedBy b.matching f) (m : LabelMap) :
    f.Passes w.fits (b.key m) ↔ f.Passes w.fits m :=
  passes_congr (LabelMap.restrict_apply (keyLabels_of_carriedBy hname hf) m)

theorem passes_group {a : Aggregation} {f : LabelFilter} (hname : f.label ≠ nameLabel)
    (hf : KeptBy a.grouping f) (m : LabelMap) :
    f.Passes w.fits (a.group m) ↔ f.Passes w.fits m :=
  passes_congr (LabelMap.restrict_apply (groupLabels_of_keptBy hname hf) m)

/-! ## Operators -/

section Operators

variable {b : BinaryOp} {A A' B B' : Set LabelMap} {m n : LabelMap}

/-- The result of an operator passes the filters that it has from its operands. -/
theorem passes_combine (hjoin : b.join = none) (hop : b.op ≠ .fallback)
    {left right : List LabelFilter} (hA : ∀ m ∈ A, w.PassesAll left m)
    (hB : ∀ m ∈ B, w.PassesAll right m) {f : LabelFilter} (hname : f.label ≠ nameLabel)
    (hf : f ∈ operatorFilters b left right) (hm : m ∈ b.combine A B) : f.Passes w.fits m := by
  -- A map and its match pass the same filters on the labels that they are matched by.
  have hmatched : CarriedBy b.matching f → f ∈ left ∨ f ∈ right →
      m ∈ A ∧ (∃ n ∈ B, b.key n = b.key m) → f.Passes w.fits m := by
    rintro hcarried hor ⟨hmA, n, hnB, hkey⟩
    cases hor with
    | inl hl => exact hA m hmA f hl
    | inr hr => exact (passes_iff_of_key_eq hname hcarried hkey).1 (hB n hnB f hr)
  unfold BinaryOp.combine at hm
  split at hm
  case h_1 hb =>
    have hparts : (f ∈ left ∨ f ∈ right) ∧ CarriedBy b.matching f := by
      simpa [operatorFilters, hb, hjoin] using hf
    rcases hparts with ⟨hor, hcarried⟩
    exact hmatched hcarried hor hm
  case h_2 hb =>
    have hparts : (f ∈ left ∨ f ∈ right) ∧ CarriedBy b.matching f := by
      simpa [operatorFilters, hb, hjoin] using hf
    rcases hparts with ⟨hor, hcarried⟩
    exact hmatched hcarried hor hm
  case h_3 hb =>
    have hl : f ∈ left ∧ CarriedBy b.matching f := by simpa [operatorFilters, hb] using hf
    exact hA m hm.1 f hl.1
  case h_4 hb =>
    have hl : f ∈ left ∧ CarriedBy b.matching f := by simpa [operatorFilters, hb] using hf
    exact hA m hm.1 f hl.1
  -- A result may come from either side, so that the filter has to be one of both.
  case h_5 hb =>
    have hparts : (f ∈ left ∧ f ∈ right) ∧ CarriedBy b.matching f := by
      simpa [operatorFilters, hb] using hf
    rcases hparts with ⟨⟨hl, hr⟩, -⟩
    cases hm with
    | inl hmA => exact hA m hmA f hl
    | inr hmB => exact hB m hmB.1 f hr
  case h_6 hand hif hunless hifnot hor =>
    have hparts : (f ∈ left ∨ f ∈ right) ∧ CarriedBy b.matching f := by
      simpa [operatorFilters, hjoin] using hf
    rcases hparts with ⟨hlr, hcarried⟩
    -- The result has the labels that are matched by and no others.
    rcases hm with ⟨⟨m', hmA, rfl⟩, n, hnB, hkey⟩
    cases hlr with
    | inl hl => exact (passes_key hname hcarried m').2 (hA m' hmA f hl)
    | inr hr =>
        rw [← hkey]
        exact (passes_key hname hcarried n).2 (hB n hnB f hr)

/-- The sets have the same maps among those that pass the filters. -/
def Agree (w : World) (filters : List LabelFilter) (A B : Set LabelMap) : Prop :=
  ∀ m, w.PassesAll filters m → (m ∈ A ↔ m ∈ B)

theorem Agree.refl (A : Set LabelMap) : w.Agree filters A A :=
  fun _ _ => Iff.rfl

/-- Operands that agree where the filters that are carried over hold give results that agree where
all of the filters hold. -/
theorem agree_combine (hfree : NameFree filters)
    (hA : w.Agree (trimMatching b.matching filters) A A')
    (hB : w.Agree (trimMatching b.matching filters) B B') :
    w.Agree filters (b.combine A B) (b.combine A' B') := by
  intro m hm
  -- Maps with the key of `m`, or with `m` for a key, pass the filters that are carried over.
  have hsame : ∀ n, b.key n = b.key m → w.PassesAll (trimMatching b.matching filters) n := by
    intro n hkey f hf
    rcases mem_trimMatching.1 hf with ⟨hmem, hcarried⟩
    exact (passes_iff_of_key_eq (hfree f hmem) hcarried hkey).2 (hm f hmem)
  have hkeyed : ∀ n, b.key n = m → w.PassesAll (trimMatching b.matching filters) n := by
    rintro n rfl f hf
    rcases mem_trimMatching.1 hf with ⟨hmem, hcarried⟩
    exact (passes_key (hfree f hmem) hcarried n).1 (hm f hmem)
  have hself : (m ∈ A ↔ m ∈ A') ∧ (m ∈ B ↔ m ∈ B') := ⟨hA m (hsame m rfl), hB m (hsame m rfl)⟩
  have hrightMatch : (∃ n ∈ B, b.key n = b.key m) ↔ ∃ n ∈ B', b.key n = b.key m :=
    exists_congr fun n => and_congr_left fun hkey => hB n (hsame n hkey)
  have hleftMatch : (∃ n ∈ A, b.key n = b.key m) ↔ ∃ n ∈ A', b.key n = b.key m :=
    exists_congr fun n => and_congr_left fun hkey => hA n (hsame n hkey)
  unfold BinaryOp.combine
  split
  · exact and_congr hself.1 hrightMatch
  · exact and_congr hself.1 hrightMatch
  · exact and_congr hself.1 (by simpa using not_congr hrightMatch)
  · exact and_congr hself.1 (by simpa using not_congr hrightMatch)
  · exact or_congr hself.1 (and_congr hself.2 (by simpa using not_congr hleftMatch))
  · refine and_congr (exists_congr fun n => ?_) (exists_congr fun n => ?_)
    · exact and_congr_left fun hkey => hA n (hkeyed n hkey)
    · exact and_congr_left fun hkey => hB n (hkeyed n hkey)

end Operators

/-! ## Selectors and sums -/

/-- Adding filters to a selector selects the same maps among those that pass them. -/
theorem agree_addFilters (s : Selector) :
    w.Agree filters (w.select (s.addFilters filters)) (w.select s) := by
  intro m hm
  refine and_congr_right fun _ => ?_
  have hpasses : ∀ g, (∀ f ∈ LabelFilter.sort (LabelFilter.dedup (g ++ filters)),
      f.Passes w.fits m) ↔ ∀ f ∈ g, f.Passes w.fits m := by
    intro g
    simp only [LabelFilter.mem_sort_dedup, List.mem_append]
    exact ⟨fun h f hf => h f (.inl hf), fun h f hf => hf.elim (h f) (hm f)⟩
  have hgroups : (∃ g ∈ (s.addFilters filters).groups, ∀ f ∈ g, f.Passes w.fits m) ↔
      ∃ g ∈ s.targets, ∀ f ∈ g, f.Passes w.fits m := by
    rw [Selector.addFilters_groups]
    constructor
    · rintro ⟨g, hg, hpass⟩
      rcases List.mem_map.1 hg with ⟨g', hg', rfl⟩
      exact ⟨g', hg', (hpasses g').1 hpass⟩
    · rintro ⟨g, hg, hpass⟩
      exact ⟨_, List.mem_map_of_mem hg, (hpasses g).2 hpass⟩
  rw [hgroups, or_iff_right (Selector.addFilters_groups_ne_nil filters s)]
  by_cases hnil : s.groups = []
  · simp [Selector.targets, hnil]
  · rw [Selector.targets_of_ne_nil hnil, or_iff_right hnil]

/-- A sum has one of its series in each of its groups. -/
theorem agree_group {a : Aggregation} (hfree : NameFree filters) {A B : Set LabelMap}
    (h : w.Agree (trimGrouping a.grouping filters) A B) :
    w.Agree filters {k | ∃ m ∈ A, a.group m = k} {k | ∃ m ∈ B, a.group m = k} := by
  intro k hk
  refine exists_congr fun m => and_congr_left ?_
  rintro rfl
  refine h m fun f hf => ?_
  rcases mem_trimGrouping.1 hf with ⟨hmem, hkept⟩
  exact (passes_group (hfree f hmem) hkept m).1 (hk f hmem)

theorem aggregateSource_of_isSum {a : Aggregation} (h : a.isSum) (count : Nat) :
    aggregateSource a.name count = if 1 < count then .everywhere else .argument 0 := by
  have hname : Text.lower a.name = "sum" := by
    simp only [Aggregation.isSum, Bool.and_eq_true, beq_iff_eq] at h
    exact h.1
  have hfind : Builtin.find? a.name = some ⟨"sum", .aggregate⟩ := by
    rw [Builtin.find?, hname]
    rfl
  have hsource : Builtin.labelSource? ⟨"sum", .aggregate⟩ count = some 0 := rfl
  simp [aggregateSource, hfind, hsource]

/-- The filters of a sum are those of all its arguments. -/
theorem mem_commonFilters_of_isSum {a : Aggregation} (h : a.isSum) {args : List Expr}
    {f : LabelFilter} (hf : f ∈ (Expr.aggregate a args).commonFilters) :
    KeptBy a.grouping f ∧ ∀ e ∈ args, f ∈ e.commonFilters := by
  rcases Expr.mem_commonFilters_aggregate.1 hf with ⟨hkept, hf⟩
  refine ⟨hkept, ?_⟩
  rw [aggregateSource_of_isSum h] at hf
  match args with
  | [] => simp
  | [e] => simpa using hf
  | e :: e' :: args => simpa using hf

/-- Filters are pushed into all arguments of a sum. -/
theorem pushDown_of_isSum {a : Aggregation} (h : a.isSum) (filters : List LabelFilter)
    (args : List Expr) :
    (Expr.aggregate a args).pushDown filters =
      .aggregate a (args.map (Expr.pushDown (trimGrouping a.grouping filters))) := by
  rw [Expr.pushDown_aggregate, aggregateSource_of_isSum h]
  match args with
  | [] => rfl
  | [e] => rfl
  | e :: e' :: args => simp

/-! ## Calls -/

section Calls

variable {name : String} {keepNames : Bool} {args : List Expr} {i : Nat} {written : List String}

theorem Agree.call {arguments : List Argument}
    (h : w.CallsAlong name keepNames arguments i written) (hfree : NameFree filters)
    {A B : Set LabelMap} (hAB : w.Agree (filtersOff written filters) A B) :
    w.Agree filters (w.call name keepNames (arguments.set i (.series A)))
      (w.call name keepNames (arguments.set i (.series B))) := by
  rcases h with ⟨results, hlabels, hcall⟩
  intro n hn
  rw [hcall, hcall]
  refine exists_congr fun m => and_congr_left fun hmn => hAB m fun f hf => ?_
  rcases mem_filtersOff.1 hf with ⟨hmem, hwritten⟩
  exact (passes_congr (hlabels m n hmn _ hwritten (hfree f hmem))).1 (hn f hmem)

/-- A call whose argument is series is the call with these series for its argument. -/
theorem arguments_modify (g : Expr → Expr) {e : Expr} (he : e ∈ args[i]?)
    (hconstant : (g e).isConstant = false) :
    w.arguments (args.modify i g) = (w.arguments args).set i (.series (w.denote (g e))) := by
  simp only [arguments_eq_map]
  refine List.ext_getElem? fun j => ?_
  rw [List.getElem?_map, List.getElem?_modify, List.getElem?_set, List.getElem?_map]
  by_cases hij : i = j
  · subst hij
    rcases List.getElem?_eq_some_iff.1 he with ⟨hi, rfl⟩
    simp [hi, argument, hconstant]
  · simp [hij]

/-- Nothing else changes when the argument at the position is put in another one's place. -/
theorem arguments_modify_set (g : Expr → Expr) (argument : Argument) :
    (w.arguments (args.modify i g)).set i argument = (w.arguments args).set i argument := by
  simp only [arguments_eq_map]
  refine List.ext_getElem? fun j => ?_
  rw [List.getElem?_set, List.getElem?_set, List.getElem?_map, List.getElem?_modify,
    List.getElem?_map]
  by_cases hij : i = j
  · simp [hij]
  · simp [hij]

theorem arguments_set_self {e : Expr} (he : e ∈ args[i]?) (hconstant : e.isConstant = false) :
    (w.arguments args).set i (.series (w.denote e)) = w.arguments args := by
  have hid := arguments_modify (w := w) id he hconstant
  rw [List.modify_id] at hid
  exact hid.symm

theorem commonFilters_of_isConstant {e : Expr} (h : e.isConstant) : e.commonFilters = [] := by
  cases e <;> first | rfl | simp [Expr.isConstant] at h

theorem pushDown_of_isConstant {e : Expr} (h : e.isConstant) (filters : List LabelFilter) :
    e.pushDown filters = e := by
  cases e <;> first | simp [Expr.pushDown]; done | simp [Expr.isConstant] at h

theorem isConstant_pushDown (filters : List LabelFilter) (e : Expr) :
    (e.pushDown filters).isConstant = e.isConstant := by
  unfold Expr.pushDown
  split
  · rfl
  · split <;> try rfl
    all_goals split <;> rfl

end Calls

/-! ## Common filters -/

/-- The maps that an expression denotes pass its common filters. -/
theorem passes_of_mem_denote (hcovers : e.AllNodes w.Covers) {m : LabelMap}
    (hm : m ∈ w.denote e) : w.PassesAll e.commonFilters m := by
  induction e using Expr.inductionOn generalizing m with
  | selector s =>
      intro f hf
      rcases Selector.mem_commonFilters.1 hf with ⟨hne, hall, -⟩
      rcases hm.2.resolve_left hne with ⟨g, hg, hpass⟩
      exact hpass f (hall g hg)
  | rollup inner range time ih _ => exact ih (Expr.allNodes_rollup.1 hcovers).2.1 hm
  | call name args keepNames ih =>
      rcases Expr.allNodes_call.1 hcovers with ⟨hself, hargs⟩
      intro f hf
      have hname := Expr.label_ne_nameLabel hf
      rw [Expr.mem_commonFilters_call] at hf
      cases hsource : callSource? name args with
      | none => simp [hsource] at hf
      | some source =>
          rcases source with ⟨i, written⟩
          simp only [hsource] at hf
          rcases hf with ⟨⟨e, he, hfe⟩, hwritten⟩
          -- An argument with common filters is no constant, so the call is given its label maps.
          have hconstant : e.isConstant = false := by
            rw [Bool.eq_false_iff]
            intro h
            simp [commonFilters_of_isConstant h] at hfe
          rcases hself i written hsource with ⟨results, hlabels, hcall⟩
          rw [denote, ← arguments_set_self he hconstant, hcall] at hm
          rcases hm with ⟨m', hm', hresult⟩
          have hmem := List.mem_of_getElem? he
          exact (passes_congr (hlabels m' m hresult _ hwritten hname)).2
            (ih e hmem (hargs e hmem) hm' f hfe)
  | aggregate a args ih =>
      rcases Expr.allNodes_aggregate.1 hcovers with ⟨hself, hargs⟩
      intro f hf
      have hname := Expr.label_ne_nameLabel hf
      -- Other aggregates than sums have no common filters.
      rcases hself with hsum | hnone | hnowhere
      · rcases mem_commonFilters_of_isSum hsum hf with ⟨hkept, hall⟩
        rw [denote, if_pos hsum] at hm
        rcases hm with ⟨m', hm', rfl⟩
        rcases w.mem_denoteUnion.1 hm' with ⟨e, he, hme⟩
        exact (passes_group hname hkept m').2 (ih e he (hargs e he) hme f (hall e he))
      · rcases Expr.mem_commonFilters_aggregate.1 hf with ⟨hkept, -⟩
        rw [hnone] at hkept
        exact hkept.elim
      · rcases Expr.mem_commonFilters_aggregate.1 hf with ⟨-, hf⟩
        rw [hnowhere] at hf
        exact hf.elim
  | binary b l r ihl ihr =>
      rcases Expr.allNodes_binary.1 hcovers with ⟨⟨hjoin, hop⟩, hl, hr⟩
      intro f hf
      exact passes_combine hjoin hop (fun m hm => ihl hl hm) (fun m hm => ihr hr hm)
        (Expr.label_ne_nameLabel hf) hf hm
  | _ =>
      intro f hf
      simp [Expr.commonFilters] at hf

/-! ## Pushing -/

theorem NameFree.of_subset {filters filters' : List LabelFilter} (h : NameFree filters)
    (hsub : filters' ⊆ filters) : NameFree filters' :=
  fun f hf => h f (hsub hf)

/-- An aggregate that is no sum lets no filters pass. -/
theorem pushDown_of_unlinked {a : Aggregation} {args : List Expr}
    (h : a.grouping = none ∨ aggregateSource a.name args.length = .nowhere)
    (filters : List LabelFilter) :
    (Expr.aggregate a args).pushDown filters = .aggregate a args := by
  rw [Expr.pushDown_aggregate]
  cases h with
  | inl hnone =>
      have hid : Expr.pushDown [] = id := funext Expr.pushDown_nil
      split <;> simp [hnone, trimGrouping, hid]
  | inr hnowhere => rw [hnowhere]

/-- Pushing filters changes nothing for the maps that pass them. -/
theorem agree_pushDown (hcovers : e.AllNodes w.Covers) (hfree : NameFree filters) :
    w.Agree filters (w.denote (e.pushDown filters)) (w.denote e) := by
  induction e using Expr.inductionOn generalizing filters with
  | selector s =>
      by_cases hnil : filters = []
      · rw [hnil, Expr.pushDown_nil]
        exact .refl _
      · rw [Expr.pushDown_selector hnil]
        exact agree_addFilters s
  | rollup inner range time ih _ =>
      rw [Expr.pushDown_rollup]
      exact ih (Expr.allNodes_rollup.1 hcovers).2.1 hfree
  | call name args keepNames ih =>
      rcases Expr.allNodes_call.1 hcovers with ⟨hself, hargs⟩
      rw [Expr.pushDown_call]
      cases hsource : callSource? name args with
      | none => exact .refl _
      | some source =>
          rcases source with ⟨i, written⟩
          dsimp only
          -- An argument that changes is no constant, so the call is given its label maps.
          by_cases hsame : args.modify i (Expr.pushDown (filtersOff written filters)) = args
          · rw [hsame]
            exact .refl _
          · have hparts : ∃ e ∈ args[i]?, e.pushDown (filtersOff written filters) ≠ e := by
              by_contra hnone
              exact hsame (modify_eq_self fun e he => by_contra fun hne => hnone ⟨e, he, hne⟩)
            rcases hparts with ⟨e, he, hne⟩
            have hconstant : e.isConstant = false := by
              rw [Bool.eq_false_iff]
              exact fun h => hne (pushDown_of_isConstant h _)
            have hmem := List.mem_of_getElem? he
            have hsub : filtersOff written filters ⊆ filters := fun f hf => (mem_filtersOff.1 hf).1
            have hagree := ih e hmem (hargs e hmem) (hfree.of_subset hsub)
            have hcall := Agree.call (hself i written hsource) hfree hagree
            rw [denote, denote, ← arguments_set_self he hconstant,
              arguments_modify _ he ((isConstant_pushDown _ e).trans hconstant)]
            exact hcall
  | aggregate a args ih =>
      rcases Expr.allNodes_aggregate.1 hcovers with ⟨hself, hargs⟩
      cases hself with
      | inr hunlinked =>
          rw [pushDown_of_unlinked hunlinked]
          exact .refl _
      | inl hsum =>
          rw [pushDown_of_isSum hsum, denote, denote, if_pos hsum, if_pos hsum]
          -- The members of a group agree on the filters that come through the grouping.
          refine agree_group hfree fun m hm => ?_
          have hsub : trimGrouping a.grouping filters ⊆ filters :=
            fun f hf => (mem_trimGrouping.1 hf).1
          rw [mem_denoteUnion, mem_denoteUnion]
          constructor
          · rintro ⟨e', he', hme⟩
            rcases List.mem_map.1 he' with ⟨e, he, rfl⟩
            exact ⟨e, he, (ih e he (hargs e he) (hfree.of_subset hsub) m hm).1 hme⟩
          · rintro ⟨e, he, hme⟩
            exact ⟨_, List.mem_map_of_mem he,
              (ih e he (hargs e he) (hfree.of_subset hsub) m hm).2 hme⟩
  | binary b l r ihl ihr =>
      rcases Expr.allNodes_binary.1 hcovers with ⟨-, hl, hr⟩
      rw [Expr.pushDown_binary]
      have hsub : trimMatching b.matching filters ⊆ filters := fun f hf => (mem_trimMatching.1 hf).1
      exact agree_combine hfree (ihl hl (hfree.of_subset hsub)) (ihr hr (hfree.of_subset hsub))
  | _ =>
      simp only [Expr.pushDown, ite_self]
      exact .refl _

/-- Pushing filters leaves it open what each node denotes, as it was. -/
theorem covers_pushDown (hcovers : e.AllNodes w.Covers) (filters : List LabelFilter) :
    (e.pushDown filters).AllNodes w.Covers := by
  induction e using Expr.inductionOn generalizing filters with
  | selector s =>
      by_cases hnil : filters = []
      · rwa [hnil, Expr.pushDown_nil]
      · rw [Expr.pushDown_selector hnil]
        exact (Expr.allNodes_atom rfl).2 trivial
  | rollup inner range time ih _ =>
      rcases Expr.allNodes_rollup.1 hcovers with ⟨-, hinner, htime⟩
      rw [Expr.pushDown_rollup]
      exact Expr.allNodes_rollup.2 ⟨trivial, ih hinner filters, htime⟩
  | call name args keepNames ih =>
      rcases Expr.allNodes_call.1 hcovers with ⟨hself, hargs⟩
      rw [Expr.pushDown_call]
      cases hsource : callSource? name args with
      | none => exact hcovers
      | some source =>
          refine Expr.allNodes_call.2 ⟨?_, forall_mem_modify hargs fun e he => ih e he (hargs e he) _⟩
          intro i written hsource'
          rw [Expr.callSource?_modify_pushDown, hsource] at hsource'
          cases hsource'
          -- The call is covered whatever its argument denotes, so another one may stand there.
          rcases hself i written hsource with ⟨results, hlabels, hcall⟩
          refine ⟨results, hlabels, fun maps => ?_⟩
          rw [arguments_modify_set]
          exact hcall maps
  | aggregate a args ih =>
      rcases Expr.allNodes_aggregate.1 hcovers with ⟨hself, hargs⟩
      cases hself with
      | inr hunlinked => rwa [pushDown_of_unlinked hunlinked]
      | inl hsum =>
          rw [pushDown_of_isSum hsum]
          refine Expr.allNodes_aggregate.2 ⟨.inl hsum, ?_⟩
          exact List.forall_mem_map.2 fun e he => ih e he (hargs e he) _
  | binary b l r ihl ihr =>
      rcases Expr.allNodes_binary.1 hcovers with ⟨hself, hl, hr⟩
      rw [Expr.pushDown_binary]
      exact Expr.allNodes_binary.2 ⟨hself, ihl hl _, ihr hr _⟩
  | _ => simpa only [Expr.pushDown, ite_self] using hcovers

/-! ## Optimization -/

theorem isConstant_optimize (e : Expr) : e.optimize.isConstant = e.isConstant := by
  cases e with
  | binary b l r => rw [Expr.optimize, Expr.shareFilters, isConstant_pushDown]; rfl
  | _ => rfl

theorem labelArgument?_optimize (e : Expr) : labelArgument? e.optimize = labelArgument? e := by
  cases e with
  | binary b l r => rw [Expr.optimize, Expr.shareFilters, Expr.labelArgument?_pushDown]; rfl
  | _ => rfl

theorem callSource?_map_optimize (name : String) (args : List Expr) :
    callSource? name (args.map Expr.optimize) = callSource? name args := by
  refine callSource?_congr name ?_
  rw [List.map_map]
  exact List.map_congr_left fun e _ => labelArgument?_optimize e

theorem argument_optimize (h : w.denote e.optimize = w.denote e) :
    w.argument e.optimize = w.argument e := by
  unfold argument
  rw [isConstant_optimize, h]
  split
  next hconstant => cases e <;> first | rfl | simp [Expr.isConstant] at hconstant
  next => rfl

theorem arguments_map_optimize {args : List Expr}
    (h : ∀ e ∈ args, w.denote e.optimize = w.denote e) :
    w.arguments (args.map Expr.optimize) = w.arguments args := by
  rw [arguments_eq_map, arguments_eq_map, List.map_map]
  exact List.map_congr_left fun e he => argument_optimize (h e he)

theorem denoteUnion_map_optimize {args : List Expr}
    (h : ∀ e ∈ args, w.denote e.optimize = w.denote e) :
    w.denoteUnion (args.map Expr.optimize) = w.denoteUnion args := by
  induction args with
  | nil => rfl
  | cons e es ih =>
      rcases List.forall_mem_cons.1 h with ⟨he, hes⟩
      rw [List.map_cons, denoteUnion, denoteUnion, he, ih hes]

/-- Pushing the common filters of an expression into it keeps what it denotes. -/
theorem denote_shareFilters (hcovers : e.AllNodes w.Covers) :
    w.denote e.shareFilters = w.denote e := by
  have hfree : NameFree e.commonFilters := fun f hf => Expr.label_ne_nameLabel hf
  have hagree := agree_pushDown hcovers hfree
  ext m
  constructor
  · intro hm
    have hpass := passes_of_mem_denote (covers_pushDown hcovers _) hm
    have hsub := Expr.commonFilters_subset_pushDown e.commonFilters e
    exact (hagree m fun f hf => hpass f (hsub hf)).1 hm
  · intro hm
    exact (hagree m (passes_of_mem_denote hcovers hm)).2 hm

/-- Optimization leaves it open what each node denotes, and keeps what the expression denotes. -/
theorem covers_and_denote_optimize (hcovers : e.AllNodes w.Covers) :
    e.optimize.AllNodes w.Covers ∧ w.denote e.optimize = w.denote e := by
  -- Both are shown together: operands are covered when filters are shared over them.
  induction e using Expr.inductionOn with
  | rollup inner range time ih ihtime =>
      rcases Expr.allNodes_rollup.1 hcovers with ⟨-, hinner, htime⟩
      rcases ih hinner with ⟨hcov, hden⟩
      rw [Expr.optimize, Expr.optimizeOption_eq_map]
      refine ⟨Expr.allNodes_rollup.2 ⟨trivial, hcov, ?_⟩, hden⟩
      exact Option.forall_mem_map.2 fun e he => (ihtime e he (htime e he)).1
  | call name args keepNames ih =>
      rcases Expr.allNodes_call.1 hcovers with ⟨hself, hargs⟩
      have hsame := arguments_map_optimize fun e he => (ih e he (hargs e he)).2
      rw [Expr.optimize, Expr.optimizeList_eq_map]
      refine ⟨Expr.allNodes_call.2 ⟨fun i written hsource => ?_, ?_⟩, ?_⟩
      · rw [callSource?_map_optimize] at hsource
        rw [hsame]
        exact hself i written hsource
      · exact List.forall_mem_map.2 fun e he => (ih e he (hargs e he)).1
      · rw [denote, denote, hsame]
  | aggregate a args ih =>
      rcases Expr.allNodes_aggregate.1 hcovers with ⟨hself, hargs⟩
      have hsame := arguments_map_optimize fun e he => (ih e he (hargs e he)).2
      rw [Expr.optimize, Expr.optimizeList_eq_map]
      refine ⟨Expr.allNodes_aggregate.2 ⟨by simpa [Covers] using hself, ?_⟩, ?_⟩
      · exact List.forall_mem_map.2 fun e he => (ih e he (hargs e he)).1
      · rw [denote, denote, hsame, denoteUnion_map_optimize fun e he => (ih e he (hargs e he)).2]
  | tuple items ih =>
      rcases Expr.allNodes_tuple.1 hcovers with ⟨-, hitems⟩
      have hsame := arguments_map_optimize fun e he => (ih e he (hitems e he)).2
      rw [Expr.optimize, Expr.optimizeList_eq_map]
      refine ⟨Expr.allNodes_tuple.2 ⟨trivial, ?_⟩, ?_⟩
      · exact List.forall_mem_map.2 fun e he => (ih e he (hitems e he)).1
      · rw [denote, denote, hsame]
  | binary b l r ihl ihr =>
      rcases Expr.allNodes_binary.1 hcovers with ⟨hself, hl, hr⟩
      rcases ihl hl with ⟨hcovl, hdenl⟩
      rcases ihr hr with ⟨hcovr, hdenr⟩
      have hcov : (Expr.binary b l.optimize r.optimize).AllNodes w.Covers :=
        Expr.allNodes_binary.2 ⟨hself, hcovl, hcovr⟩
      rw [Expr.optimize]
      refine ⟨covers_pushDown hcov _, ?_⟩
      rw [denote_shareFilters hcov, denote, denote, hdenl, hdenr]
  | _ => exact ⟨hcovers, rfl⟩

/-- Optimization keeps what an expression denotes, in every world. -/
theorem denote_optimize (w : World) (e : Expr) (hcovers : e.AllNodes w.Covers) :
    w.denote e.optimize = w.denote e :=
  (covers_and_denote_optimize hcovers).2

/-- The world in which functions drop the name of a metric and keep the other labels of their first
argument. -/
def droppingNames (series : Set LabelMap) : World where
  series := series
  fits := Eq
  constant _ := ∅
  call _ _ args :=
    match args with
    | .series maps :: _ => {n | ∃ m ∈ maps, n ∈ ({m.restrict (· != nameLabel)} : Set LabelMap)}
    | _ => ∅
  aggregate _ _ := ∅
  tuple _ := ∅

/-- The query `sum(foo{a="b" or a="b",c="d"} unless on(a) abs(bar)) by(a) or {}` means the same
behind optimization, where `a="b"` is pushed into `abs`. -/
theorem denote_optimize_unless_abs :
    let foo : Expr := .selector ⟨[[.equal nameLabel "foo", .equal "a" "b"],
      [.equal nameLabel "foo", .equal "a" "b", .equal "c" "d"]]⟩
    let bar : Expr := .call "abs" [.selector (.ofName "bar")] false
    let difference : Expr :=
      .binary { BinaryOp.plain .andNot with matching := some ⟨.on, ["a"]⟩ } foo bar
    let query : Expr :=
      .binary (.plain .or) (.aggregate ⟨"sum", some (.by ["a"]), 0⟩ [difference]) (.selector ⟨[]⟩)
    query.AllNodes (droppingNames Set.univ).Covers ∧
      (droppingNames Set.univ).denote query.optimize = (droppingNames Set.univ).denote query := by
  intro foo bar difference query
  have hbar : bar.AllNodes (droppingNames Set.univ).Covers := by
    refine Expr.allNodes_call.2 ⟨fun i written hsource => ?_, ?_⟩
    · have habs : callSource? "abs" [.selector (.ofName "bar")] = some (0, []) := by decide +kernel
      rw [habs] at hsource
      cases hsource
      refine ⟨fun m => {m.restrict (· != nameLabel)}, ?_, fun maps => rfl⟩
      rintro m n rfl label - hname
      exact LabelMap.restrict_apply (by simpa using hname) m
    · simpa using (Expr.allNodes_atom rfl).2 trivial
  have hcovers : query.AllNodes (droppingNames Set.univ).Covers := by
    refine Expr.allNodes_binary.2 ⟨⟨rfl, by decide⟩, Expr.allNodes_aggregate.2 ⟨.inl ?_, ?_⟩, ?_⟩
    · decide +kernel
    · rw [List.forall_mem_singleton]
      exact Expr.allNodes_binary.2 ⟨⟨rfl, by decide⟩, (Expr.allNodes_atom rfl).2 trivial, hbar⟩
    · exact (Expr.allNodes_atom rfl).2 trivial
  exact ⟨hcovers, denote_optimize (droppingNames Set.univ) query hcovers⟩

end World
end SeriesQuery
