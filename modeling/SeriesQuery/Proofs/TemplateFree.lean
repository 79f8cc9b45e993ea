import SeriesQuery.Proofs.CountedDepth
import SeriesQuery.Proofs.LeftOperands

/-!
# How deep queries without templates are

Expansion puts nothing into a tree that neither defines templates nor calls one of every query
(`Expr.TemplateFree.gives_expandWith_depth`).  So what it gives is over the budget for depth by what
has not been counted where the query was read at most, less what a leaf costs there
(`exceeds_expandTemplates`).  Nested functions with ranges are over it, though the query is read
(`not_exceeds_of_templateFree`).
-/

namespace SeriesQuery

open SeriesQuery.Expr

/-! ## Expansion -/

namespace Expr

theorem depthList_le {es : List Expr} {n : Nat} : depthList es ≤ n ↔ ∀ e ∈ es, e.depth ≤ n := by
  induction es with
  | nil => simp [depthList]
  | cons e es ih => simp [depthList, ih]

theorem depthOption_le {time : Option Expr} {n : Nat} :
    depthOption time ≤ n ↔ ∀ e ∈ time, e.depth ≤ n := by
  cases time <;> simp [depthOption]

/-- The node defines no templates, and calls none of every query. -/
def IsTemplateFree (e : Expr) : Prop :=
  e.IsForeign ∧ ∀ ts body, e ≠ withTemplates ts body

/-- No node defines templates or calls one of every query. -/
abbrev TemplateFree : Expr → Prop :=
  AllNodes IsTemplateFree

section

variable {enter : Enter}

theorem gives_expandListWith_depth {es : List Expr}
    (h : ∀ e ∈ es, Gives (fun e' => e'.depth ≤ e.depth) (expandWith enter builtinScope e)) :
    Gives (fun es' => depthList es' ≤ depthList es) (expandListWith enter builtinScope es) := by
  have hall := depthList_le.1 (Nat.le_refl (depthList es))
  have hes := gives_expandListWith (P := fun e' => e'.depth ≤ depthList es) fun e he =>
    (h e he).imp fun _ hle => hle.trans (hall e he)
  exact hes.imp fun _ => depthList_le.2

theorem gives_expandOptionWith_depth {time : Option Expr}
    (h : ∀ e ∈ time, Gives (fun e' => e'.depth ≤ e.depth) (expandWith enter builtinScope e)) :
    Gives (fun time' => depthOption time' ≤ depthOption time)
      (expandOptionWith enter builtinScope time) := by
  have hall := depthOption_le.1 (Nat.le_refl (depthOption time))
  have htime := gives_expandOptionWith (P := fun e' => e'.depth ≤ depthOption time) fun e he =>
    (h e he).imp fun _ hle => hle.trans (hall e he)
  exact htime.imp fun _ => depthOption_le.2

/-- Without templates expansion puts no nodes into a tree. -/
theorem TemplateFree.gives_expandWith_depth {e : Expr} (h : e.TemplateFree) :
    Gives (fun e' => e'.depth ≤ e.depth) (expandWith enter builtinScope e) := by
  induction e using Expr.inductionOn with
  | number _ => exact gives_ok (Nat.le_refl _)
  | duration _ => exact gives_ok (Nat.le_refl _)
  | string _ => exact gives_ok (Nat.le_refl _)
  | concat s => exact (gives_true _).map fun _ _ => Nat.zero_le _
  | selector s =>
      rw [expandWith, expandName_builtinScope]
      exact gives_ok (Nat.le_refl _)
  | selectorExpr s =>
      refine gives_bind_any fun groups => ?_
      rw [expandName_builtinScope]
      exact gives_ok (Nat.le_refl _)
  | call name args keepNames ih =>
      have hparts := allNodes_call.1 h
      refine (gives_expandListWith_depth fun e he => ih e he (hparts.2 e he)).bind
        fun args' hargs' => ?_
      rw [expandCall_builtinScope hparts.1.1]
      exact gives_ok (Nat.add_le_add_left hargs' _)
  | aggregate a args ih =>
      have hparts := allNodes_aggregate.1 h
      refine (gives_expandListWith_depth fun e he => ih e he (hparts.2 e he)).bind
        fun args' hargs' => ?_
      simp only [expandAggregate, lookup_builtinScope_eq_none.2 hparts.1.1]
      -- The labels of the grouping are expanded, and are on no path.
      split
      · exact gives_ok (Nat.add_le_add_left hargs' _)
      · exact gives_bind_any fun labels => gives_ok (Nat.add_le_add_left hargs' _)
  | binary b l r ihl ihr =>
      have hparts := allNodes_binary.1 h
      refine (ihl hparts.2.1).bind fun l' hl' => (ihr hparts.2.2).bind fun r' hr' => ?_
      exact gives_bind_any fun b' => gives_ok (Nat.add_le_add_left (max_le_max hl' hr') _)
  | rollup inner range time ih iht =>
      have hparts := allNodes_rollup.1 h
      have htime := gives_expandOptionWith_depth fun e he => iht e he (hparts.2.2 e he)
      refine (ih hparts.2.1).bind fun inner' hinner' => gives_bind_any fun range' => ?_
      exact htime.bind fun time' htime' =>
        gives_ok (Nat.add_le_add_left (max_le_max hinner' htime') _)
  | tuple items ih =>
      have hparts := allNodes_tuple.1 h
      have hitems := gives_expandListWith_depth fun e he => ih e he (hparts.2 e he)
      -- Around a single expression the parentheses are dropped.
      exact hitems.map fun items' hitems' =>
        (depth_ofItems_le items').trans (Nat.add_le_add_left hitems' _)
  | withTemplates ts body _ _ => exact absurd rfl (h.self.2 ts body)

end

end Expr

/-- A query without templates is over the budget where its templates are expanded by what is not
counted where it is read, less what a leaf costs there.  So it is within the budget if that is no
more than a leaf costs. -/
theorem exceeds_expandTemplates {query : String} {e e' : Expr} (hread : Expr.ofText query = .ok e)
    (hfree : e.TemplateFree) (hexpand : e.expandTemplates = .ok e') :
    e'.exceeds (depthBudget + (e.uncounted - Expr.nestingCost)) = false := by
  have hcounted : e.counted 0 ≤ depthBudget := gives_ofText_counted query e hread
  have hexpanded : e'.depth ≤ e.depth := hfree.gives_expandWith_depth e' hexpand
  have hdepth := e.depth_add_le
  rw [Bool.eq_false_iff, ne_eq, exceeds_iff, Nat.not_lt]
  omega

/-! ## Functions of ranges -/

/-- A window of five minutes. -/
def fiveMinutes : Range :=
  ⟨some ⟨"5m", false⟩, none, none, false⟩

/-- A function of a metric with a range behind it, and so on: `abs(abs(foo)[5m])[5m]`. -/
def ranged : Nat → Expr
  | 0 => .ofMetric "foo"
  | n + 1 => .rollup (.call "abs" [ranged n] false) fiveMinutes none

example : (ranged 2).render = "abs(abs(foo)[5m])[5m]" := by decide +kernel

theorem readable_ranged (n : Nat) : (ranged n).Readable := by
  induction n with
  | zero => exact (OverMetrics.metric (isMetricName_of_plain (by simp))).readable
  | succ n ih =>
      have hwindow : LegibleWindow fiveMinutes := by
        refine ⟨?_, by simp [fiveMinutes]⟩
        rintro d ⟨⟩
        exact legibleDuration_of_positive (by decide)
      have hname : "abs" ≠ "" ∧ ∀ c ∈ "abs".toList, c.toNat < 0xF0000 := by decide
      have hcall : (Expr.call "abs" [ranged n] false).Readable :=
        allNodes_call.2 ⟨⟨⟨hname.1, hname.2⟩, by decide, by decide⟩, by simpa using ih⟩
      exact allNodes_rollup.2 ⟨⟨hwindow, by simp [fiveMinutes], by simp [fiveMinutes], by decide,
        rfl, by simp⟩, hcall, by simp⟩

theorem written_ranged (n : Nat) : (ranged n).written = ranged n := by
  induction n with
  | zero => exact congrArg Expr.selector (Selector.reread_ofName (by decide))
  | succ n ih =>
      simp [ranged, written, writtenList, writtenOption, inParens, innerNeedsParens, ih,
        Range.reread, fiveMinutes]

/-- Where it is read, each of the functions costs an operand. -/
theorem cost_ranged (n : Nat) : (ranged n).cost = 4 * n + 4 := by
  induction n with
  | zero => rfl
  | succ n ih =>
      have hnode : (ranged (n + 1)).cost = 4 + (ranged n).cost := by
        simp [ranged, cost, costList, costOption, parenCost, innerNeedsParens, nestingCost]
      rw [hnode, ih]
      omega

/-- In the tree the ranges cost as much as the functions. -/
theorem depth_ranged (n : Nat) : (ranged n).depth = 8 * n := by
  induction n with
  | zero => rfl
  | succ n ih =>
      have hnode : (ranged (n + 1)).depth = 8 + (ranged n).depth := by
        simp [ranged, depth, depthList, depthOption, nestingCost]
        omega
      rw [hnode, ih]
      omega

/-- What the ranges cost is not counted where they are read. -/
theorem uncounted_ranged (n : Nat) : (ranged n).uncounted = 4 * n := by
  induction n with
  | zero => rfl
  | succ n ih =>
      have hnode : (ranged (n + 1)).uncounted = 4 + (ranged n).uncounted := by
        simp [ranged, uncounted, uncountedList, uncountedOption, nestingCost]
      rw [hnode, ih]
      omega

theorem ofText_ranged {n : Nat} (h : n ≤ 63) : Expr.ofText (ranged n).render = .ok (ranged n) := by
  have hreadable := readable_ranged n
  have hback : (ranged n).ReadsBack ParseError.OfNesting :=
    readsBack .tooNested (fun _ => .atExpr) hreadable
  have hcost : (ranged n).cost ≤ depthBudget := by
    rw [cost_ranged]
    simp only [depthBudget, maxDepth, nestingCost]
    omega
  have htext := (hback.ofText_render (spelled_of_readable hreadable)).1 hcost
  rwa [written_ranged] at htext

theorem settled_ranged (n : Nat) : AllNodes IsSettled (ranged n) := by
  induction n with
  | zero => exact (allNodes_atom rfl).2 ⟨Selector.valid_ofName "foo", trivial⟩
  | succ n ih =>
      have hrange : fiveMinutes.Resolved := by
        refine ⟨?_, by simp [Duration.Resolved, fiveMinutes],
          by simp [Duration.Resolved, fiveMinutes]⟩
        rintro d ⟨⟩
        rfl
      have hname : isAggregateName "abs" = false ∧ "abs" ∉ builtinNames := by decide
      have hcall : AllNodes IsSettled (.call "abs" [ranged n] false) :=
        allNodes_call.2 ⟨hname, by simpa using ih⟩
      exact allNodes_rollup.2 ⟨⟨hrange, trivial⟩, hcall, by simp⟩

theorem dropParens_ranged (n : Nat) : (ranged n).dropParens = ranged n := by
  induction n with
  | zero => rfl
  | succ n ih => simp [ranged, dropParens, dropParensList, dropParensOption, ih]

theorem expandTemplates_ranged (n : Nat) : (ranged n).expandTemplates = .ok (ranged n) := by
  rw [expandTemplates_of_settled (settled_ranged n), dropParens_ranged]

theorem templateFree_ranged (n : Nat) : (ranged n).TemplateFree := by
  induction n with
  | zero => exact (allNodes_atom rfl).2 ⟨trivial, by rintro _ _ ⟨⟩⟩
  | succ n ih =>
      have hname : "abs" ∉ builtinNames := by decide
      have hcall : TemplateFree (.call "abs" [ranged n] false) :=
        allNodes_call.2 ⟨⟨hname, by rintro _ _ ⟨⟩⟩, by simpa using ih⟩
      exact allNodes_rollup.2 ⟨⟨trivial, by rintro _ _ ⟨⟩⟩, hcall, by simp⟩

/-- A query with 63 functions, the most that are read, is as deep as it may be. -/
theorem exceeds_expandTemplates_ranged :
    let e := ranged 63
    Expr.ofText e.render = .ok e ∧ e.TemplateFree ∧ e.expandTemplates = .ok e ∧
      e.exceeds (depthBudget + (e.uncounted - Expr.nestingCost)) = false ∧
      e.exceeds (depthBudget + (e.uncounted - Expr.nestingCost) - 1) = true := by
  intro e
  have hread : Expr.ofText e.render = .ok e := ofText_ranged (Nat.le_refl 63)
  have hfree : e.TemplateFree := templateFree_ranged 63
  have hexpand : e.expandTemplates = .ok e := expandTemplates_ranged 63
  refine ⟨hread, hfree, hexpand, exceeds_expandTemplates hread hfree hexpand, ?_⟩
  rw [exceeds_iff, depth_ranged, uncounted_ranged]
  decide

/-- The ranges of 33 functions are over the budget, though the query has no templates. -/
theorem not_exceeds_of_templateFree :
    ¬∀ (query : String) (e e' : Expr), Expr.ofText query = .ok e → e.TemplateFree →
      e.expandTemplates = .ok e' → e'.exceeds (4 * maxDepth) = false := by
  intro hclaim
  have hfits := hclaim (ranged 33).render (ranged 33) (ranged 33) (ofText_ranged (by decide))
    (templateFree_ranged 33) (expandTemplates_ranged 33)
  have hexceeds : (ranged 33).exceeds (4 * maxDepth) := by
    rw [exceeds_iff, depth_ranged]
    decide
  rw [hexceeds] at hfits
  cases hfits

end SeriesQuery
