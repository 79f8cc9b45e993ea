import Mathlib.Data.List.Forall2
import SeriesQuery.Proofs.Pushing

/-!
# What optimization adds

`Expr.Gains` compares an expression with one that has more filters in the selectors that stand under
binary operators and is the same everywhere else.  An operator collects its common filters from the
selectors under it (`Expr.occursIn_of_mem_commonFilters`) and pushes them to selectors under it
(`Expr.Gains.pushDown`), so filters are neither invented nor lost, nor do they come to a selector
that is not under the operator (`Expr.gains_optimize`).
-/

namespace SeriesQuery

/-! ## Lists side by side -/

section

variable {α β : Type} {R : α → β → Prop} {xs : List α} {ys : List β}

theorem exists_of_forall₂ (h : List.Forall₂ R xs ys) {y : β} (hy : y ∈ ys) : ∃ x ∈ xs, R x y := by
  induction h with
  | nil => cases hy
  | cons hhead _ ih =>
      rcases List.mem_cons.1 hy with rfl | htail
      · exact ⟨_, List.mem_cons_self, hhead⟩
      · rcases ih htail with ⟨x, hx, hxy⟩
        exact ⟨x, List.mem_cons_of_mem _ hx, hxy⟩

theorem forall₂_map_right (h : List.Forall₂ R xs ys) {g : β → β}
    (hg : ∀ x ∈ xs, ∀ y, R x y → R x (g y)) : List.Forall₂ R xs (ys.map g) := by
  induction h with
  | nil => exact .nil
  | cons hhead _ ih =>
      rcases List.forall_mem_cons.1 hg with ⟨hfirst, hrest⟩
      exact .cons (hfirst _ hhead) (ih hrest)

theorem forall₂_modify_right (h : List.Forall₂ R xs ys) {g : β → β}
    (hg : ∀ x ∈ xs, ∀ y, R x y → R x (g y)) (i : Nat) : List.Forall₂ R xs (ys.modify i g) := by
  induction h generalizing i with
  | nil => cases i <;> exact .nil
  | cons hhead htail ih =>
      rcases List.forall_mem_cons.1 hg with ⟨hfirst, hrest⟩
      cases i with
      | zero => exact .cons (hfirst _ hhead) htail
      | succ i => exact .cons hhead (ih hrest i)

end

/-! ## The relation -/

/-- The groups of the second selector are those of the first one with more filters, all of which have
the property.  No groups count as a single one without filters. -/
def Selector.Gains (P : LabelFilter → Prop) (s s' : Selector) : Prop :=
  List.Forall₂ (fun g g' => g ⊆ g' ∧ ∀ f ∈ g', f ∈ g ∨ P f) s.targets s'.targets

namespace Selector

variable {P : LabelFilter → Prop} {s s' : Selector}

theorem gains_refl (P : LabelFilter → Prop) (s : Selector) : s.Gains P s :=
  List.forall₂_same.2 fun _ _ => ⟨List.Subset.refl _, fun _ hf => .inl hf⟩

/-- A filter of the selector that has gained filters was there before, or has the property. -/
theorem Gains.mem_or {f : LabelFilter} (h : s.Gains P s') (hf : ∃ g ∈ s'.groups, f ∈ g) :
    (∃ g ∈ s.groups, f ∈ g) ∨ P f := by
  rcases hf with ⟨g', hg', hf⟩
  have hne : s'.groups ≠ [] := List.ne_nil_of_mem hg'
  unfold Gains at h
  rw [targets_of_ne_nil hne] at h
  rcases exists_of_forall₂ h hg' with ⟨g, hg, -, hall⟩
  refine (hall f hf).imp_left fun hold => ⟨g, ?_, hold⟩
  by_cases hnil : s.groups = []
  · simp only [targets, hnil, List.isEmpty_nil, if_true, List.mem_singleton] at hg
    rw [hg] at hold
    cases hold
  · rwa [targets_of_ne_nil hnil] at hg

/-- More filters with the property may be added. -/
theorem Gains.addFilters {filters : List LabelFilter} (h : s.Gains P s')
    (hfilters : ∀ f ∈ filters, P f) : s.Gains P (s'.addFilters filters) := by
  unfold Gains
  rw [targets_of_ne_nil (addFilters_groups_ne_nil filters s'), addFilters_groups,
    List.forall₂_map_right_iff]
  refine List.Forall₂.imp (fun g g' hg => ?_) h
  constructor
  · intro f hf
    exact LabelFilter.mem_sort_dedup.2 (List.mem_append_left _ (hg.1 hf))
  · intro f hf
    rcases List.mem_append.1 (LabelFilter.mem_sort_dedup.1 hf) with hold | hnew
    · exact hg.2 f hold
    · exact .inr (hfilters f hnew)

end Selector

/-- The filter is in a selector of the expression. -/
def LabelFilter.OccursIn (f : LabelFilter) (e : Expr) : Prop :=
  ∃ s, Expr.Within (.selector s) e ∧ ∃ g ∈ s.groups, f ∈ g

/-- The filter is one that a selector under the operator may gain. -/
def LabelFilter.MayJoin (top : Expr) (f : LabelFilter) : Prop :=
  f.label ≠ nameLabel ∧ f.OccursIn top

namespace Expr

mutual

/-- The second expression is the first one, where selectors under binary operators may have gained
filters.  `around` is the outermost operator around both of them, if there is one; the time of a
rollup is looked at on its own. -/
inductive Gains : Option Expr → Expr → Expr → Prop where
  | atom {around : Option Expr} {e : Expr} : e.isAtom → Gains around e e
  | selector {top : Expr} {s s' : Selector} :
      s.Gains (LabelFilter.MayJoin top) s' → Gains (some top) (.selector s) (.selector s')
  | call {around : Option Expr} {name : String} {args args' : List Expr} {keepNames : Bool} :
      GainsEach around args args' →
        Gains around (.call name args keepNames) (.call name args' keepNames)
  | aggregate {around : Option Expr} {a : Aggregation} {args args' : List Expr} :
      GainsEach around args args' → Gains around (.aggregate a args) (.aggregate a args')
  | binary {around : Option Expr} {b : BinaryOp} {l l' r r' : Expr} :
      Gains (some (around.getD (.binary b l r))) l l' →
        Gains (some (around.getD (.binary b l r))) r r' →
          Gains around (.binary b l r) (.binary b l' r')
  | rollup {around : Option Expr} {inner inner' : Expr} {range : Range} {time time' : Option Expr} :
      Gains around inner inner' → GainsEach none time.toList time'.toList →
        Gains around (.rollup inner range time) (.rollup inner' range time')
  | tuple {around : Option Expr} {items items' : List Expr} :
      GainsEach around items items' → Gains around (.tuple items) (.tuple items')

/-- The relation holds between the members of two lists, one by one. -/
inductive GainsEach : Option Expr → List Expr → List Expr → Prop where
  | nil {around : Option Expr} : GainsEach around [] []
  | cons {around : Option Expr} {e e' : Expr} {es es' : List Expr} :
      Gains around e e' → GainsEach around es es' → GainsEach around (e :: es) (e' :: es')

end

variable {around : Option Expr} {f : LabelFilter} {filters : List LabelFilter} {e e' top : Expr}

/-! ## Lists -/

theorem gainsEach_iff {es es' : List Expr} :
    GainsEach around es es' ↔ List.Forall₂ (Gains around) es es' := by
  induction es generalizing es' with
  | nil =>
      rw [List.forall₂_nil_left_iff]
      constructor
      · intro h
        cases h
        rfl
      · rintro rfl
        exact .nil
  | cons e es ih =>
      rw [List.forall₂_cons_left_iff]
      constructor
      · intro h
        cases h with
        | cons he hes => exact ⟨_, _, he, ih.1 hes, rfl⟩
      · rintro ⟨e', es', he, hes, rfl⟩
        exact .cons he (ih.2 hes)

theorem GainsEach.exists_of_mem {es es' : List Expr} (h : GainsEach around es es') (he' : e' ∈ es') :
    ∃ e ∈ es, Gains around e e' :=
  exists_of_forall₂ (gainsEach_iff.1 h) he'

section Changes

variable {es es' : List Expr} {g : Expr → Expr} (h : GainsEach around es es')
  (hg : ∀ e ∈ es, ∀ e', Gains around e e' → Gains around e (g e'))
include h hg

theorem GainsEach.map : GainsEach around es (es'.map g) :=
  gainsEach_iff.2 (forall₂_map_right (gainsEach_iff.1 h) hg)

theorem GainsEach.modify (i : Nat) : GainsEach around es (es'.modify i g) :=
  gainsEach_iff.2 (forall₂_modify_right (gainsEach_iff.1 h) hg i)

end Changes

theorem gainsEach_map {es : List Expr} {g : Expr → Expr} (h : ∀ e ∈ es, Gains around e (g e)) :
    GainsEach around es (es.map g) := by
  rw [gainsEach_iff, List.forall₂_map_right_iff, List.forall₂_same]
  exact h

/-! ## Where filters occur -/

theorem Within.trans {n m e : Expr} (hn : Within n m) (hm : Within m e) : Within n e := by
  induction hm with
  | refl => exact hn
  | call he _ ih => exact .call he ih
  | aggregate he _ ih => exact .aggregate he ih
  | left _ ih => exact .left ih
  | right _ ih => exact .right ih
  | inner _ ih => exact .inner ih
  | time he _ ih => exact .time he ih
  | tuple he _ ih => exact .tuple he ih

theorem occursIn_of_within {n : Expr} (h : f.OccursIn n) (hn : Within n e) : f.OccursIn e := by
  rcases h with ⟨s, hs, hf⟩
  exact ⟨s, hs.trans hn, hf⟩

/-- What comes from an operand or from the operator around it comes from the node that the operand is
of, or from the operator around that node. -/
theorem occursIn_of_operand {n : Expr}
    (h : f.OccursIn n ∨ ∃ top ∈ some (around.getD e), f.OccursIn top) (hn : Within n e) :
    f.OccursIn e ∨ ∃ top ∈ around, f.OccursIn top := by
  rcases h with hold | ⟨top, hsome, htop⟩
  · exact .inl (occursIn_of_within hold hn)
  · cases hsome
    cases around with
    | none => exact .inl htop
    | some top => exact .inr ⟨top, rfl, htop⟩

/-- Common filters are collected from selectors. -/
theorem occursIn_of_mem_commonFilters (h : f ∈ e.commonFilters) : f.OccursIn e := by
  rcases exists_selector_of_mem_commonFilters h with ⟨s, hs, hf⟩
  rcases Selector.mem_commonFilters.1 hf with ⟨hne, hall, -⟩
  rcases List.exists_mem_of_ne_nil s.groups hne with ⟨g, hg⟩
  exact ⟨s, hs, g, hg, hall g hg⟩

/-- A filter of an expression that has gained filters was there before, or is from the operator
around it. -/
theorem Gains.occursIn (h : Gains around e e') (hf : f.OccursIn e') :
    f.OccursIn e ∨ ∃ top ∈ around, f.OccursIn top := by
  rcases hf with ⟨s', hs', hf⟩
  -- The induction is on the way to the selector; at each node the relation goes the same way.
  induction hs' generalizing around e with
  | refl =>
      cases h with
      | atom _ => exact .inl ⟨s', .refl, hf⟩
      | selector hgain =>
          rcases hgain.mem_or hf with hold | hnew
          · exact .inl ⟨_, .refl, hold⟩
          · exact .inr ⟨_, rfl, hnew.2⟩
  | call he' hs ih =>
      cases h with
      | atom hatom => cases hatom
      | call hargs =>
          rcases hargs.exists_of_mem he' with ⟨e, he, hgain⟩
          exact (ih hgain).imp_left fun h => occursIn_of_within h (.call he .refl)
  | aggregate he' hs ih =>
      cases h with
      | atom hatom => cases hatom
      | aggregate hargs =>
          rcases hargs.exists_of_mem he' with ⟨e, he, hgain⟩
          exact (ih hgain).imp_left fun h => occursIn_of_within h (.aggregate he .refl)
  | left hs ih =>
      cases h with
      | atom hatom => cases hatom
      | binary hl _ => exact occursIn_of_operand (ih hl) (.left .refl)
  | right hs ih =>
      cases h with
      | atom hatom => cases hatom
      | binary _ hr => exact occursIn_of_operand (ih hr) (.right .refl)
  | inner hs ih =>
      cases h with
      | atom hatom => cases hatom
      | rollup hinner _ =>
          exact (ih hinner).imp_left fun h => occursIn_of_within h (.inner .refl)
  | time he' hs ih =>
      cases h with
      | atom hatom => cases hatom
      | rollup _ htime =>
          rcases htime.exists_of_mem (Option.mem_toList.2 he') with ⟨e, he, hgain⟩
          rcases ih hgain with hold | ⟨top, htop, -⟩
          · exact .inl (occursIn_of_within hold (.time (Option.mem_toList.1 he) .refl))
          · cases htop
  | tuple he' hs ih =>
      cases h with
      | atom hatom => cases hatom
      | tuple hitems =>
          rcases hitems.exists_of_mem he' with ⟨e, he, hgain⟩
          exact (ih hgain).imp_left fun h => occursIn_of_within h (.tuple he .refl)

/-! ## Pushing -/

/-- Filters that selectors under the operator may gain can be pushed to any of them. -/
theorem Gains.pushDown (h : Gains (some top) e e') (hfilters : ∀ f ∈ filters, f.MayJoin top) :
    Gains (some top) e (e'.pushDown filters) := by
  -- The induction is on the tree of before; what it has gained so far is arbitrary.
  induction e using Expr.inductionOn generalizing filters e' with
  | selector s =>
      by_cases hnil : filters = []
      · rwa [hnil, pushDown_nil]
      · cases h with
        | atom hatom =>
            rw [pushDown_selector hnil]
            exact .selector ((Selector.gains_refl _ s).addFilters hfilters)
        | selector hgain =>
            rw [pushDown_selector hnil]
            exact .selector (hgain.addFilters hfilters)
  | rollup inner range time ih _ =>
      cases h with
      | atom hatom => cases hatom
      | rollup hinner htime =>
          rw [pushDown_rollup]
          exact .rollup (ih hinner hfilters) htime
  | call name args keepNames ih =>
      cases h with
      | atom hatom => cases hatom
      | call hargs =>
          rw [pushDown_call]
          split
          · exact .call hargs
          · rename_i i written _
            -- Fewer filters come to the arguments, and they may join what all may join.
            have hpush : ∀ e ∈ args, ∀ e', Gains (some top) e e' →
                Gains (some top) e (e'.pushDown (filtersOff written filters)) :=
              fun e he e' hgain => ih e he hgain fun f hf => hfilters f (mem_filtersOff.1 hf).1
            exact .call (hargs.modify hpush i)
  | aggregate a args ih =>
      cases h with
      | atom hatom => cases hatom
      | aggregate hargs =>
          have hpush : ∀ e ∈ args, ∀ e', Gains (some top) e e' →
              Gains (some top) e (e'.pushDown (trimGrouping a.grouping filters)) :=
            fun e he e' hgain => ih e he hgain fun f hf => hfilters f (mem_trimGrouping.1 hf).1
          rw [pushDown_aggregate]
          split
          · exact .aggregate hargs
          · exact .aggregate (hargs.modify hpush _)
          · exact .aggregate (hargs.map hpush)
  | binary b l r ihl ihr =>
      cases h with
      | atom hatom => cases hatom
      | binary hl hr =>
          have htrim : ∀ f ∈ trimMatching b.matching filters, f.MayJoin top :=
            fun f hf => hfilters f (mem_trimMatching.1 hf).1
          rw [pushDown_binary]
          exact .binary (ihl hl htrim) (ihr hr htrim)
  | tuple items _ =>
      cases h with
      | atom hatom => cases hatom
      | tuple hitems =>
          simp only [Expr.pushDown, ite_self]
          exact .tuple hitems
  | _ =>
      cases h with
      | atom hatom =>
          simp only [Expr.pushDown, ite_self]
          exact .atom hatom

/-! ## Optimization -/

/-- The operator may push its common filters, even when its operands have gained some. -/
theorem mayJoin_of_mem_commonFilters {b : BinaryOp} {l l' r r' : Expr}
    (hl : Gains (some top) l l') (hr : Gains (some top) r r') (htop : Within (.binary b l r) top)
    (hf : f ∈ (Expr.binary b l' r').commonFilters) : f.MayJoin top := by
  refine ⟨label_ne_nameLabel hf, ?_⟩
  have hoperand : ∀ {e e' : Expr}, Gains (some top) e e' → Within e top → f ∈ e'.commonFilters →
      f.OccursIn top := by
    intro e e' hgain hwithin hmem
    rcases hgain.occursIn (occursIn_of_mem_commonFilters hmem) with hold | ⟨_, hsome, hnew⟩
    · exact occursIn_of_within hold hwithin
    · cases hsome
      exact hnew
  rcases mem_or_mem_of_mem_operatorFilters hf with hmem | hmem
  · exact hoperand hl (.trans (.left .refl) htop) hmem
  · exact hoperand hr (.trans (.right .refl) htop) hmem

theorem gains_optimize_of_within (e : Expr) (haround : ∀ top ∈ around, Within e top) :
    Gains around e e.optimize := by
  induction e using Expr.inductionOn generalizing around with
  | rollup inner range time ih ihtime =>
      rw [optimize, optimizeOption_eq_map]
      refine .rollup (ih fun top htop => .trans (.inner .refl) (haround top htop)) ?_
      rw [Option.toList_map]
      refine gainsEach_map fun e he => ?_
      -- The time does not belong to the operator around it, and is optimized by itself.
      exact ihtime e (Option.mem_toList.1 he) fun top htop => by cases htop
  | call name args keepNames ih =>
      rw [optimize, optimizeList_eq_map]
      exact .call (gainsEach_map fun e he => ih e he fun top htop =>
        .trans (.call he .refl) (haround top htop))
  | aggregate a args ih =>
      rw [optimize, optimizeList_eq_map]
      exact .aggregate (gainsEach_map fun e he => ih e he fun top htop =>
        .trans (.aggregate he .refl) (haround top htop))
  | tuple items ih =>
      rw [optimize, optimizeList_eq_map]
      exact .tuple (gainsEach_map fun e he => ih e he fun top htop =>
        .trans (.tuple he .refl) (haround top htop))
  | binary b l r ihl ihr =>
      rw [optimize, shareFilters, pushDown_binary]
      -- The topmost operator around is the one given, or else this one.
      have htop : Within (.binary b l r) (around.getD (.binary b l r)) := by
        cases around with
        | none => exact .refl
        | some top => exact haround top rfl
      have hl : Gains (some (around.getD (.binary b l r))) l l.optimize := ihl fun _ h => by
        cases h
        exact .trans (.left .refl) htop
      have hr : Gains (some (around.getD (.binary b l r))) r r.optimize := ihr fun _ h => by
        cases h
        exact .trans (.right .refl) htop
      have hshared : ∀ f ∈ trimMatching b.matching
          (Expr.binary b l.optimize r.optimize).commonFilters,
          f.MayJoin (around.getD (.binary b l r)) := fun f hf =>
        mayJoin_of_mem_commonFilters hl hr htop (mem_trimMatching.1 hf).1
      exact .binary (hl.pushDown hshared) (hr.pushDown hshared)
  | _ => exact .atom rfl

/-- Optimization adds filters to selectors under binary operators and changes nothing else.  They
are filters of selectors under the same operator, and none is on the name of a metric. -/
theorem gains_optimize (e : Expr) : Gains none e e.optimize :=
  gains_optimize_of_within e fun top htop => by cases htop

end Expr
end SeriesQuery
