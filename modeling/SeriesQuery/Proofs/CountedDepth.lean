import SeriesQuery.Proofs.Depth

/-!
# What is counted of the depth of a query

A query is checked for its depth twice: its operands and operators are counted where they are read,
and the tree is weighed where its templates are expanded.  `Expr.counted` is what has been counted,
found from the tree: operands that are nested, and in each chain the operators in front of an
operand.  It is within the budget for every query that is read (`gives_ofText_counted`).  The tree
has more on the paths from its root (`Expr.uncounted`):

* an operator that stands behind its operand;
* a range, which costs nothing where it is read;
* an operator that has come below a negation.

Both together are as much as the depth of the tree at least (`Expr.depth_add_le`).
-/

namespace SeriesQuery
namespace Expr

/-! ## Measures -/

/-- The number that a negation is taken from: numbers of a text have their text. -/
def isUnwritten : Expr → Bool
  | number n => n.text.isNone
  | _ => false

/-- How many operators are in the chain that the tree was read from.  The minus of a negation
belongs to its operand. -/
def span : Expr → Nat
  | binary _ l r => if l.isUnwritten then span r else span l + 1 + span r
  | _ => 0

mutual

/-- What reading the tree costs of the budget for depth, where its first operand costs so much more.
In a chain the operators in front of an operand count, be they above it in the tree or not. -/
def counted : Nat → Expr → Nat
  | first, call _ args _ => first + nestingCost + countedList args
  | first, aggregate _ args => first + nestingCost + countedList args
  | first, binary _ l r =>
      -- The minus belongs to the first operand, also where operators have come below it.
      if l.isUnwritten then counted (first + nestingCost) r
      else max (counted first l) (l.span + 1 + counted 0 r)
  | first, rollup inner _ time => first + max (counted 0 inner) (countedOption time)
  | first, tuple items => first + nestingCost + countedList items
  | first, withTemplates _ body => first + nestingCost + counted 0 body
  | first, _ => first + nestingCost

/-- What the costliest of the trees costs. -/
def countedList : List Expr → Nat
  | [] => 0
  | e :: es => max (counted 0 e) (countedList es)

/-- What the tree costs, if there is one. -/
def countedOption : Option Expr → Nat
  | none => 0
  | some e => counted 0 e

end

/-- The tree has only operators and leaves. -/
def isFlat : Expr → Bool
  | binary _ l r => !l.isUnwritten && l.isFlat && r.isFlat
  | call .. | aggregate .. | rollup .. | tuple _ | withTemplates .. => false
  | _ => true

mutual

/-- What a path from the root has on it that is not counted where the tree is read.  Operators over
leaves only are all counted, as the last operand is behind them. -/
def uncounted : Expr → Nat
  | call _ args _ => if args.isEmpty then nestingCost else uncountedList args
  | aggregate _ args => if args.isEmpty then nestingCost else uncountedList args
  | binary _ l r =>
      -- The minus costs four where it is read, which is enough unless operators have come below it.
      if l.isUnwritten then if r.span = 0 then uncounted r else 1 + uncounted r
      else max (if l.isFlat then 0 else 1 + uncounted l) (uncounted r)
  | rollup inner _ time => nestingCost + max (uncounted inner) (uncountedOption time)
  | tuple items => if items.isEmpty then nestingCost else uncountedList items
  | withTemplates _ body => uncounted body
  | _ => 0

/-- What is not counted in the trees. -/
def uncountedList : List Expr → Nat
  | [] => 0
  | e :: es => max (uncounted e) (uncountedList es)

/-- What is not counted in the tree, if there is one. -/
def uncountedOption : Option Expr → Nat
  | none => 0
  | some e => uncounted e

end

/-! ## Depth and costs -/

theorem counted_mono {m n : Nat} (h : m ≤ n) (e : Expr) : e.counted m ≤ e.counted n := by
  induction e using Expr.inductionOn generalizing m n with
  | binary b l r ihl ihr =>
      simp only [counted]
      split
      · exact ihr (Nat.add_le_add_right h _)
      · exact max_le_max (ihl h) le_rfl
  | _ => simp only [counted]; omega

/-- An operand by itself costs as much more as its first operand does. -/
theorem counted_of_span_eq_zero {e : Expr} (h : e.span = 0) (first : Nat) :
    e.counted first = first + e.counted 0 := by
  induction e using Expr.inductionOn generalizing first with
  | binary b l r ihl ihr =>
      simp only [span] at h
      split at h
      · rename_i hminus
        simp only [counted, hminus, if_true]
        rw [ihr h, ihr h (0 + nestingCost)]
        omega
      · omega
  | _ => simp only [counted]; omega

/-- Every expression costs an operand at least. -/
theorem nestingCost_le_counted (e : Expr) : nestingCost ≤ e.counted 0 := by
  induction e using Expr.inductionOn with
  | binary b l r ihl ihr =>
      simp only [counted]
      split
      · exact ihr.trans (counted_mono (Nat.zero_le _) r)
      · exact ihl.trans (Nat.le_max_left _ _)
  | rollup inner range time ih _ =>
      simp only [counted]
      omega
  | _ => simp only [counted]; omega

/-- The operators of a flat tree are all in one chain. -/
theorem depth_le_span {e : Expr} (h : e.isFlat) : e.depth ≤ e.span := by
  induction e using Expr.inductionOn with
  | binary b l r ihl ihr =>
      simp only [isFlat, Bool.and_eq_true, Bool.not_eq_true'] at h
      have hl := ihl h.1.2
      have hr := ihr h.2
      simp only [depth, span, h.1.1, Bool.false_eq_true, if_false]
      omega
  | call name args keepNames _ => cases h
  | aggregate a args _ => cases h
  | rollup inner range time _ _ => cases h
  | tuple items _ => cases h
  | withTemplates ts body _ _ => cases h
  | _ => exact Nat.zero_le _

theorem depthList_add_le {es : List Expr} (hne : es ≠ [])
    (h : ∀ e ∈ es, e.depth + nestingCost ≤ e.counted 0 + e.uncounted) :
    depthList es + nestingCost ≤ countedList es + uncountedList es := by
  induction es with
  | nil => exact absurd rfl hne
  | cons e es ih =>
      have hparts := List.forall_mem_cons.1 h
      have hfirst := hparts.1
      simp only [depthList, countedList, uncountedList]
      cases es with
      | nil =>
          simp only [depthList, countedList, uncountedList]
          omega
      | cons e' es' =>
          have hrest := ih (List.cons_ne_nil e' es') hparts.2
          omega

/-- The arguments of a node, be there none. -/
theorem depth_arguments_le {es : List Expr}
    (h : ∀ e ∈ es, e.depth + nestingCost ≤ e.counted 0 + e.uncounted) :
    nestingCost + depthList es + nestingCost ≤
      0 + nestingCost + countedList es + if es.isEmpty then nestingCost else uncountedList es := by
  cases es with
  | nil => exact Nat.le_refl _
  | cons e es =>
      have hall := depthList_add_le (List.cons_ne_nil e es) h
      rw [List.isEmpty_cons, if_neg Bool.false_ne_true]
      omega

/-- The tree is as deep as what has been counted where it was read, and what has not.  A leaf counts
there, and is not in the depth. -/
theorem depth_add_le (e : Expr) : e.depth + nestingCost ≤ e.counted 0 + e.uncounted := by
  induction e using Expr.inductionOn with
  | call name args keepNames ih => exact depth_arguments_le ih
  | aggregate a args ih => exact depth_arguments_le ih
  | tuple items ih => exact depth_arguments_le ih
  | withTemplates ts body _ ih =>
      simp only [depth, counted, uncounted]
      omega
  | rollup inner range time ih iht =>
      have htime : ∀ e ∈ time, e.depth + nestingCost ≤ e.counted 0 + e.uncounted := iht
      cases time with
      | none =>
          simp only [depth, depthOption, counted, countedOption, uncounted, uncountedOption]
          omega
      | some e =>
          have he := htime e rfl
          simp only [depth, depthOption, counted, countedOption, uncounted, uncountedOption]
          omega
  | binary b l r ihl ihr =>
      have hright := r.nestingCost_le_counted
      simp only [depth, counted, uncounted]
      by_cases hminus : l.isUnwritten = true
      · -- The number has no depth, and the operand of the negation costs more if it comes next.
        have hzero : l.depth = 0 := by
          cases l <;> first | rfl | cases hminus
        rw [if_pos hminus, if_pos hminus, hzero]
        have hmore := counted_mono (Nat.zero_le (0 + nestingCost)) r
        split
        · rename_i hspan
          rw [counted_of_span_eq_zero hspan]
          simp only [nestingCost] at ihr ⊢
          omega
        · omega
      · rw [if_neg hminus, if_neg hminus]
        by_cases hflat : l.isFlat = true
        · have hspan := depth_le_span hflat
          rw [if_pos hflat]
          omega
        · rw [if_neg hflat]
          omega
  | _ => exact Nat.le_refl _

/-! ## Chains -/

/-- The last operand is not a number that a negation is taken from. -/
def EndsWritten : Expr → Prop
  | binary _ _ r => EndsWritten r
  | e => e.isUnwritten = false

section Attach

variable {b : BinaryOp} {left right : Expr}

theorem endsWritten_attach (h : right.EndsWritten) : (left.attach b right).EndsWritten := by
  fun_induction attach left b right with
  | case1 b right c l r _ ih => exact ih h
  | case2 => exact h
  | case3 => exact h

/-- One more operator comes behind the chain, wherever it stands in the tree. -/
theorem span_attach (h : left.EndsWritten) :
    (left.attach b right).span = left.span + 1 + right.span := by
  fun_induction attach left b right with
  | case1 b right c l r _ ih =>
      simp only [span, ih h]
      split <;> omega
  | case2 => simp [span, isUnwritten]
  | case3 left b right hnot =>
      have hwritten : left.isUnwritten = false := by
        cases left with
        | binary c l r => exact absurd rfl (hnot c l r)
        | _ => exact h
      simp [span, hwritten]

/-- One more operand costs the operators in front of it, wherever they stand in the tree. -/
theorem counted_attach (h : left.EndsWritten) (first : Nat) :
    (left.attach b right).counted first =
      max (left.counted first) (left.span + 1 + right.counted 0) := by
  fun_induction attach left b right generalizing first with
  | case1 b right c l r _ ih =>
      -- The operator goes down the right side, and in front of it stands what stood there before.
      simp only [counted, span, ih h]
      split
      · rfl
      · omega
  | case2 => simp [counted, isUnwritten]
  | case3 left b right hnot =>
      have hwritten : left.isUnwritten = false := by
        cases left with
        | binary c l r => exact absurd rfl (hnot c l r)
        | _ => exact h
      simp [counted, hwritten]

end Attach

/-- An operand fits the budget that it is read with, and no chain goes on in it. -/
structure FitsOperand (budget : Nat) (e : Expr) : Prop where
  cost : e.counted 0 ≤ budget
  span : e.span = 0
  written : e.EndsWritten

theorem countedList_le {es : List Expr} {n : Nat} :
    countedList es ≤ n ↔ ∀ e ∈ es, e.counted 0 ≤ n := by
  induction es with
  | nil => simp [countedList]
  | cons e es ih => simp [countedList, ih]

theorem FitsOperand.mono {e : Expr} {m n : Nat} (h : e.FitsOperand m) (hle : m ≤ n) :
    e.FitsOperand n :=
  ⟨h.cost.trans hle, h.span, h.written⟩

/-- What has no operators is one operand. -/
theorem FitsOperand.of_cost {e : Expr} {budget : Nat} (hbinary : e.isBinary = false)
    (hwritten : e.isUnwritten = false) (hcost : e.counted 0 ≤ budget) : e.FitsOperand budget := by
  refine ⟨hcost, ?_, ?_⟩
  · cases e <;> first | rfl | cases hbinary
  · cases e <;> first | exact hwritten | cases hbinary

/-- Each operand costs four, and what is inside it is counted with the rest of the budget. -/
theorem FitsOperand.of_inner {e : Expr} {budget inner : Nat} (hbinary : e.isBinary = false)
    (hwritten : e.isUnwritten = false) (hcost : e.counted 0 = 0 + nestingCost + inner)
    (hinner : inner ≤ budget) : e.FitsOperand (budget + 4) := by
  refine .of_cost hbinary hwritten ?_
  rw [hcost, nestingCost]
  omega

theorem FitsOperand.of_leaf {e : Expr} (hbinary : e.isBinary = false)
    (hwritten : e.isUnwritten = false) (hcost : e.counted 0 = nestingCost) (budget : Nat) :
    e.FitsOperand (budget + 4) := by
  refine .of_inner hbinary hwritten ?_ (Nat.zero_le budget)
  rw [hcost, Nat.zero_add, Nat.add_zero]

/-- The mark that names are kept makes no difference. -/
theorem FitsOperand.markKeepNames {e : Expr} {budget : Nat} (h : e.FitsOperand budget) :
    ∀ e' ∈ e.markKeepNames, e'.FitsOperand budget := by
  intro e' he'
  cases e with
  | call name args keepNames =>
      cases he'
      exact ⟨h.cost, h.span, h.written⟩
  | binary b l r =>
      cases he'
      exact ⟨h.cost, h.span, h.written⟩
  | _ => cases he'

end Expr

/-! ## Reading -/

open SeriesQuery.Expr

theorem Reader.fits_ofSelectorExpr (s : SelectorExpr) (budget : Nat) :
    Yields (FitsOperand (budget + 4)) (Reader.ofSelectorExpr s) := by
  unfold Reader.ofSelectorExpr
  split
  · exact yields_bind_any fun _ => yields_pure (.of_leaf rfl rfl rfl budget)
  · exact yields_pure (.of_leaf rfl rfl rfl budget)

theorem Reader.fits_metric (budget : Nat) : Yields (FitsOperand (budget + 4)) Reader.metric := by
  refine yields_bind_any fun text => ?_
  split
  · refine yields_bind_any fun name => yields_bind_any fun atBrace => ?_
    split
    · exact yields_bind_any fun _ => fits_ofSelectorExpr _ budget
    · exact fits_ofSelectorExpr _ budget
  · exact yields_bind_any fun _ => fits_ofSelectorExpr _ budget

namespace Grammar

theorem fits_number (text : String) (budget : Nat) :
    Yields (FitsOperand (budget + 4)) (number text) := by
  have htoken : Gives (fun n => n.text.isNone = false) (NumberLiteral.ofToken text) :=
    Gives.map (gives_true _) fun _ _ => rfl
  exact (yields_ofExcept htoken).bind fun n hn =>
    yields_bind_any fun _ => yields_pure (.of_leaf (e := .number n) rfl hn rfl budget)

theorem fits_stringOperand (budget : Nat) : Yields (FitsOperand (budget + 4)) stringOperand := by
  refine yields_bind_any fun s => ?_
  split
  · exact yields_pure (.of_leaf rfl rfl rfl budget)
  · exact yields_pure (.of_leaf rfl rfl rfl budget)

theorem countedList_markLone {items items' : List Expr} (h : markLone items = some items') :
    countedList items' = countedList items := by
  unfold markLone at h
  split at h
  · cases h
    rfl
  · cases h

/-- The readers for inner expressions keep to this budget. -/
structure Fits (g : Grammar) (budget : Nat) : Prop where
  expression : Yields (fun e => e.counted 0 ≤ budget) g.expression
  operand : Yields (FitsOperand budget) g.operand

section

variable {g : Grammar} {budget : Nat} (hg : g.Fits budget)
include hg

theorem fits_arguments : Yields (fun args => countedList args ≤ budget) g.arguments :=
  fun feed => (yields_parenthesized hg.expression feed).imp fun _ h => countedList_le.2 h

theorem fits_withTemplates : Yields (FitsOperand (budget + 4)) g.withTemplates := by
  refine yields_bind_any fun _ => yields_bind_any fun templates => ?_
  split
  · exact yields_throw _
  · exact hg.expression.bind fun body hbody => yields_pure (.of_inner rfl rfl rfl hbody)

theorem fits_call : Yields (FitsOperand (budget + 4)) g.call := by
  refine yields_bind_any fun name => (fits_arguments hg).bind fun args hargs => ?_
  have hfits : ∀ keep, FitsOperand (budget + 4) (.call name args keep) :=
    fun keep => .of_inner rfl rfl rfl hargs
  refine yields_bind_any fun keep => ?_
  split
  · exact yields_bind_any fun _ => yields_pure (hfits true)
  · exact yields_pure (hfits false)

theorem fits_aggregate : Yields (FitsOperand (budget + 4)) g.aggregate := by
  refine yields_bind_any fun name => yields_bind_any fun text => ?_
  dsimp only
  split
  case' isTrue =>
    refine yields_bind_any fun atGrouping => ?_
    split
  -- Whatever stands before the arguments, they are read alike.
  all_goals
    refine yields_bind_any fun earlier => yields_bind_any fun atParen => ?_
    split
    · refine (fits_arguments hg).bind fun args hargs => yields_bind_any fun grouping => ?_
      have hfits : ∀ a, FitsOperand (budget + 4) (.aggregate a args) :=
        fun a => .of_inner rfl rfl rfl hargs
      refine yields_bind_any fun atLimit => ?_
      split
      · exact yields_bind_any fun limit => yields_pure (hfits _)
      · exact yields_bind_any fun limit => yields_pure (hfits _)
    · exact yields_unexpected _ _

theorem fits_identExpr : Yields (FitsOperand (budget + 4)) g.identExpr := by
  refine yields_bind_any fun text => yields_bind_any fun next => ?_
  split
  · exact Reader.fits_metric budget
  · split
    · split
      · exact fits_aggregate hg
      · exact Reader.fits_metric budget
    · split
      · exact Reader.fits_metric budget
      · split
        · split
          · exact fits_aggregate hg
          · exact fits_call hg
        · split
          · exact Reader.fits_metric budget
          · exact yields_bind_any fun _ => yields_unexpected _ _

theorem fits_tuple : Yields (FitsOperand (budget + 4)) g.tuple := by
  refine (fits_arguments hg).bind fun items hitems => yields_bind_any fun keep => ?_
  have hfits : ∀ items', countedList items' = countedList items →
      FitsOperand (budget + 4) (.tuple items') :=
    fun items' heq => .of_inner rfl rfl rfl (heq.trans_le hitems)
  split
  · split
    · exact yields_bind_any fun _ => yields_pure (hfits _ (countedList_markLone ‹_›))
    · exact yields_pure (hfits _ rfl)
  · exact yields_pure (hfits _ rfl)

/-- A negation costs as an operand does, besides the operand that is negated. -/
theorem fits_negation : Yields (FitsOperand (budget + 4)) g.negation := by
  refine yields_bind_any fun _ => hg.operand.bind fun e he => yields_pure ⟨?_, ?_, he.written⟩
  · have hnode : counted 0 (.binary (.plain .sub) (.ofFloat 0.0) e) = counted (0 + nestingCost) e :=
      rfl
    have hcost := he.cost
    rw [hnode, counted_of_span_eq_zero he.span]
    simp only [nestingCost]
    omega
  · exact he.span

theorem fits_bareOperand : Yields (FitsOperand (budget + 4)) g.bareOperand := by
  refine yields_bind_any fun text => ?_
  split
  · exact yields_throw _
  split
  · exact yields_bind_any fun _ => yields_pure (.of_leaf rfl rfl rfl budget)
  split
  · exact fits_number text budget
  split
  · exact fits_stringOperand budget
  split
  · exact fits_identExpr hg
  split
  · exact fits_tuple hg
  split
  · exact Reader.fits_metric budget
  split
  · exact fits_negation hg
  split
  · exact yields_bind_any fun _ feed =>
      (hg.operand feed).imp fun _ h => h.mono (Nat.le_add_right budget 4)
  · exact yields_unexpected _ _

theorem fits_time : Yields (fun time => countedOption time ≤ budget + 4) g.time := by
  refine yields_bind_any fun atTime => ?_
  split
  · refine yields_bind_any fun _ feed => ?_
    have hoperand := fits_bareOperand hg feed
    split
    · rename_i e feed h
      exact gives_ok (hoperand _ h).cost
    · exact gives_error _
  · exact yields_pure (Nat.zero_le _)

theorem fits_laterTime {earlier : Option Expr} (h : countedOption earlier ≤ budget + 4) :
    Yields (fun time => countedOption time ≤ budget + 4) (g.laterTime earlier) := by
  refine yields_bind_any fun atTime => ?_
  split
  · exact yields_misuse _
  · split
    · exact yields_pure h
    · exact fits_time hg

/-- A range costs nothing, and its time is an operand beside the one that it is behind. -/
theorem fits_rollup {inner : Expr} (h : inner.FitsOperand (budget + 4)) :
    Yields (FitsOperand (budget + 4)) (g.rollup inner) := by
  refine yields_bind_any fun range => (fits_time hg).bind fun earlier hearlier => ?_
  refine yields_bind_any fun offset => (fits_laterTime hg hearlier).bind fun time htime => ?_
  have hfits : ∀ inner', FitsOperand (budget + 4) inner' →
      FitsOperand (budget + 4) (.rollup inner' { range with offset } time) := fun inner' h' => by
    refine .of_cost rfl rfl ?_
    have hinner := h'.cost
    simp only [counted]
    omega
  refine yields_bind_any fun keep => ?_
  split
  · split
    · exact yields_bind_any fun _ => yields_pure (hfits _ (h.markKeepNames _ ‹_›))
    · exact yields_pure (hfits _ h)
  · exact yields_pure (hfits _ h)

theorem fits_fullOperand : Yields (FitsOperand (budget + 4)) g.fullOperand := by
  refine yields_bind_any fun atTemplates => ?_
  split
  · exact fits_withTemplates hg
  · refine (fits_bareOperand hg).bind fun inner hinner => yields_bind_any fun text => ?_
    split
    · exact fits_rollup hg hinner
    · exact yields_pure hinner

end

end Grammar

/-! ## Queries -/

/-- The chain so far has spent its operators, so that whatever comes behind it fits the whole. -/
theorem Reader.fits_operand_and_chain (budget : Nat) :
    Yields (FitsOperand budget) (operand budget) ∧
      ∀ (left : Expr) (whole : Nat), left.EndsWritten → left.counted 0 ≤ whole →
        left.span + budget = whole → Yields (fun e => e.counted 0 ≤ whole) (chain budget left) := by
  induction budget using Nat.strongRecOn with
  | ind budget ih =>
      constructor
      · unfold operand
        split
        · -- The four that the operand costs are gone for all that is inside it.
          rename_i budget
          have hsmaller := ih budget (by omega)
          refine Grammar.fits_fullOperand ⟨hsmaller.1.bind fun e he => ?_, hsmaller.1⟩
          exact hsmaller.2 e budget he.written he.cost (by rw [he.span, Nat.zero_add])
        · exact yields_throw _
      · intro left whole hwritten hcost hwhole
        unfold chain
        split
        · rename_i budget
          refine yields_bind_any fun text => ?_
          split
          · exact yields_pure hcost
          · refine yields_bind_any fun _ => yields_bind_any fun b => ?_
            refine (ih budget (by omega)).1.bind fun right hright => ?_
            refine yields_bind_any fun keepNames => ?_
            have hspan : (left.attach { b with keepNames } right).span = left.span + 1 + 0 := by
              rw [span_attach hwritten, hright.span]
            have hcounted : (left.attach { b with keepNames } right).counted 0 ≤ whole := by
              have hlink := hright.cost
              rw [counted_attach hwritten]
              omega
            have hchain := (ih budget (by omega)).2 _ whole
              (endsWritten_attach hright.written) hcounted (by omega)
            dsimp only
            split
            · exact yields_bind_any fun _ => hchain
            · exact hchain
        · refine yields_bind_any fun text => ?_
          split
          · exact yields_pure hcost
          · exact yields_throw _

/-- What a query is read as has fitted the budget while it was read. -/
theorem gives_ofText_counted (query : String) :
    Gives (fun e => e.counted 0 ≤ depthBudget) (Expr.ofText query) := by
  refine gives_bind_any fun feed => ?_
  have hreaders := Reader.fits_operand_and_chain depthBudget
  have hexpression := hreaders.1.bind fun e he =>
    hreaders.2 e depthBudget he.written he.cost (by rw [he.span, Nat.zero_add])
  refine (hexpression feed).bind fun found hfound => ?_
  dsimp only
  split
  · exact gives_ok hfound
  · exact gives_error _

end SeriesQuery
