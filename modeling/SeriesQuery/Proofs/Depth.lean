import Mathlib.Data.List.Basic
import SeriesQuery.Proofs.WellFormed

/-!
# How deep the results of queries are

`Expr.depth` is the largest cost of a path from the root of a tree, where binary operators cost one
and other nodes with operands `nestingCost`.  It is what the budget for depth is compared with
(`Expr.exceeds_iff`), once for each path.

A query is checked between the expansion of its templates and its simplification.  Simplification
only takes nodes out of a path (`Expr.depth_dropParens_le`, `Expr.depth_foldConstants_le`), so the
result is within the budget too (`depth_parse_le`).
-/

namespace SeriesQuery
namespace Expr

mutual

/-- The largest cost of a path from the root.  The time of a rollup is on a path of its own, and
bodies of templates are on none. -/
def depth : Expr → Nat
  | number _ => 0
  | duration _ => 0
  | string _ => 0
  | concat _ => 0
  | selector _ => 0
  | selectorExpr _ => 0
  | call _ args _ => nestingCost + depthList args
  | aggregate _ args => nestingCost + depthList args
  | binary _ l r => 1 + max (depth l) (depth r)
  | rollup inner _ time => nestingCost + max (depth inner) (depthOption time)
  | tuple items => nestingCost + depthList items
  | withTemplates _ body => nestingCost + depth body

/-- The depth of the deepest of the trees. -/
def depthList : List Expr → Nat
  | [] => 0
  | e :: es => max (depth e) (depthList es)

/-- The depth of the tree, if there is one. -/
def depthOption : Option Expr → Nat
  | none => 0
  | some e => depth e

end

/-! ## The budget -/

theorem exceedsList_iff {budget : Nat} {es : List Expr}
    (h : ∀ e ∈ es, e.exceeds budget ↔ budget < e.depth) :
    exceedsList budget es ↔ budget < depthList es := by
  induction es with
  | nil => simp [exceedsList, depthList]
  | cons e es ih =>
      have hparts := List.forall_mem_cons.1 h
      rw [exceedsList, depthList, Bool.or_eq_true, lt_max_iff]
      exact or_congr hparts.1 (ih hparts.2)

theorem exceedsOption_iff {budget : Nat} {time : Option Expr}
    (h : ∀ e ∈ time, e.exceeds budget ↔ budget < e.depth) :
    exceedsOption budget time ↔ budget < depthOption time := by
  cases time with
  | none => simp [exceedsOption, depthOption]
  | some e => exact h e rfl

/-- What a node costs is taken from the budget before its operands are looked at. -/
theorem exceeds_operands_iff {budget cost depth : Nat} {exceeds : Bool}
    (h : exceeds ↔ budget - cost < depth) :
    (decide (budget < cost) || exceeds) ↔ budget < cost + depth := by
  rw [Bool.or_eq_true, decide_eq_true_iff, h]
  omega

/-- The budget is exceeded by the trees that are deeper. -/
theorem exceeds_iff {budget : Nat} {e : Expr} : e.exceeds budget ↔ budget < e.depth := by
  -- What is left of the budget differs from node to node, so the induction is for any budget.
  induction e using Expr.inductionOn generalizing budget with
  | call name args keepNames ih =>
      exact exceeds_operands_iff (exceedsList_iff fun e he => ih e he)
  | aggregate a args ih =>
      exact exceeds_operands_iff (exceedsList_iff fun e he => ih e he)
  | tuple items ih =>
      exact exceeds_operands_iff (exceedsList_iff fun e he => ih e he)
  | withTemplates ts body _ ih =>
      exact exceeds_operands_iff ih
  | binary b l r ihl ihr =>
      have hoperands : (l.exceeds (budget - 1) || r.exceeds (budget - 1)) ↔
          budget - 1 < max l.depth r.depth := by
        rw [Bool.or_eq_true, lt_max_iff]
        exact or_congr ihl ihr
      rw [exceeds, Bool.or_assoc]
      exact exceeds_operands_iff hoperands
  | rollup inner range time ih iht =>
      have hoperands : (inner.exceeds (budget - nestingCost) ||
          exceedsOption (budget - nestingCost) time) ↔
          budget - nestingCost < max inner.depth (depthOption time) := by
        rw [Bool.or_eq_true, lt_max_iff]
        exact or_congr ih (exceedsOption_iff fun e he => iht e he)
      rw [exceeds, Bool.or_assoc]
      exact exceeds_operands_iff hoperands
  | _ => simp [exceeds, depth]

/-! ## Simplification -/

section Simplification

variable {f : Expr → Expr}

theorem depthList_map_le {es : List Expr} (h : ∀ e ∈ es, (f e).depth ≤ e.depth) :
    depthList (es.map f) ≤ depthList es := by
  induction es with
  | nil => exact le_rfl
  | cons e es ih =>
      have hparts := List.forall_mem_cons.1 h
      exact max_le_max hparts.1 (ih hparts.2)

theorem depthOption_map_le {time : Option Expr} (h : ∀ e ∈ time, (f e).depth ≤ e.depth) :
    depthOption (time.map f) ≤ depthOption time := by
  cases time with
  | none => exact le_rfl
  | some e => exact h e rfl

end Simplification

theorem depth_ofItems_le (items : List Expr) : (ofItems items).depth ≤ (tuple items).depth := by
  unfold ofItems
  split
  · rename_i e
    calc e.depth
        ≤ depthList [e] := le_max_left _ _
      _ ≤ (tuple [e]).depth := Nat.le_add_left _ _
  · exact le_rfl

/-- Parentheses that are dropped were on the paths to what is inside them. -/
theorem depth_dropParens_le (e : Expr) : e.dropParens.depth ≤ e.depth := by
  induction e using Expr.inductionOn with
  | call name args keepNames ih =>
      rw [dropParens, dropParensList_eq_map]
      exact Nat.add_le_add_left (depthList_map_le ih) _
  | aggregate a args ih =>
      rw [dropParens, dropParensList_eq_map]
      exact Nat.add_le_add_left (depthList_map_le ih) _
  | binary b l r ihl ihr =>
      exact Nat.add_le_add_left (max_le_max ihl ihr) _
  | rollup inner range time ih iht =>
      rw [dropParens, dropParensOption_eq_map]
      exact Nat.add_le_add_left (max_le_max ih (depthOption_map_le iht)) _
  | tuple items ih =>
      rw [dropParens, dropParensList_eq_map]
      calc (ofItems (items.map dropParens)).depth
          ≤ (tuple (items.map dropParens)).depth := depth_ofItems_le _
        _ ≤ (tuple items).depth := Nat.add_le_add_left (depthList_map_le ih) _
  | _ => exact le_rfl

theorem depth_foldBinary_le (b : BinaryOp) (l r : Expr) :
    (foldBinary b l r).depth ≤ (binary b l r).depth := by
  rcases foldBinary_cases b l r with hkept | ⟨x, hnumber⟩ | ⟨value, hstring⟩
  · rw [hkept]
  · rw [hnumber]
    exact Nat.zero_le _
  · rw [hstring]
    exact Nat.zero_le _

/-- The value of an operator is a leaf in its place. -/
theorem depth_foldConstants_le (e : Expr) : e.foldConstants.depth ≤ e.depth := by
  induction e using Expr.inductionOn with
  | call name args keepNames ih =>
      rw [foldConstants, foldConstantsList_eq_map]
      exact Nat.add_le_add_left (depthList_map_le ih) _
  | aggregate a args ih =>
      rw [foldConstants, foldConstantsList_eq_map]
      exact Nat.add_le_add_left (depthList_map_le ih) _
  | binary b l r ihl ihr =>
      calc (foldBinary b l.foldConstants r.foldConstants).depth
          ≤ (binary b l.foldConstants r.foldConstants).depth := depth_foldBinary_le _ _ _
        _ ≤ (binary b l r).depth := Nat.add_le_add_left (max_le_max ihl ihr) _
  | rollup inner range time ih iht =>
      rw [foldConstants, foldConstantsOption_eq_map]
      exact Nat.add_le_add_left (max_le_max ih (depthOption_map_le iht)) _
  | tuple items ih =>
      rw [foldConstants, foldConstantsList_eq_map]
      exact Nat.add_le_add_left (depthList_map_le ih) _
  | _ => exact le_rfl

end Expr

/-! ## Queries -/

/-- What is checked is as deep as the budget allows, and so is its simple form. -/
theorem gives_normalize_depth (e : Expr) :
    Gives (fun simple => simple.depth ≤ depthBudget) (normalize e) := by
  unfold normalize
  split
  · exact gives_error _
  · rename_i hfits
    have hdepth : e.depth ≤ depthBudget := by
      rw [Expr.exceeds_iff, Nat.not_lt] at hfits
      exact hfits
    refine gives_bind_any fun _ => gives_ok ?_
    calc e.dropParens.foldConstants.depth
        ≤ e.dropParens.depth := Expr.depth_foldConstants_le _
      _ ≤ e.depth := Expr.depth_dropParens_le e
      _ ≤ depthBudget := hdepth

/-- Results are no deeper than the budget allows, whatever templates their queries define, and
neither dropping parentheses nor folding constants makes a tree deeper. -/
theorem depth_parse_le :
    (∀ query e, parse query = .ok e → e.depth ≤ 4 * maxDepth) ∧
      ∀ e : Expr, e.dropParens.depth ≤ e.depth ∧ e.foldConstants.depth ≤ e.depth := by
  refine ⟨?_, fun e => ⟨e.depth_dropParens_le, e.depth_foldConstants_le⟩⟩
  intro query e h
  have hparse : Gives (fun e => e.depth ≤ depthBudget) (parse query) := by
    refine gives_bind_any fun written => gives_bind_any fun expanded => ?_
    exact gives_normalize_depth expanded
  calc e.depth
      ≤ depthBudget := hparse e h
    _ = 4 * maxDepth := Nat.mul_comm _ _

/-- Calls of a template in parentheses, with an operator in the time of a rollup inside them. -/
def nestedQuery : String :=
  "WITH (f(x) = abs(abs(x))) (f(f(foo @ (bar + 1)))) + 2 * 3"

/-- The four functions, the rollup and two operators are on the deepest path. -/
theorem depth_parse_le_nestedQuery :
    ∃ e, parse nestedQuery = .ok e ∧ e.depth = 22 ∧ e.depth ≤ 4 * maxDepth := by
  have hdepth : (parse nestedQuery).toOption.map Expr.depth = some 22 :=
    parse_of_toList (P := fun x => x.toOption.map Expr.depth = some 22) String.toList_ofList
      (by decide +kernel) (by decide +kernel)
  rcases Option.map_eq_some_iff.1 hdepth with ⟨e, he, hexact⟩
  have hparse : parse nestedQuery = .ok e := toOption_eq_some_iff.1 he
  exact ⟨e, hparse, hexact, depth_parse_le.1 nestedQuery e hparse⟩

end SeriesQuery
