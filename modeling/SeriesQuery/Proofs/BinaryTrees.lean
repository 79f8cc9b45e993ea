import SeriesQuery.Proofs.SelectorTexts

/-!
# Trees of binary operators print faithfully

A tree of binary operators over names of metrics is readable (`Expr.OverMetrics.readable`), so its
text is read as the tree with the parentheses that were written.  These are all that the passes
behind find to change, and they take them away again.  So `parse` gives the tree back, unless the
tree or its text is nested too deep (`parse_render_overMetrics`).
-/

namespace SeriesQuery

open Text

/-! ## The trees -/

/-- The name can stand for a metric anywhere in an expression. -/
structure IsMetricName (name : String) : Prop where
  legible : IsLegible name
  notNumber : Grammar.isNumberWord name = false
  notAggregate : isAggregateName name = false

namespace Expr

/-- The expression is a tree of binary operators over names of metrics, each with the modifiers that
it may have. -/
inductive OverMetrics : Expr → Prop where
  | metric {name : String} : IsMetricName name → OverMetrics (selector (.ofName name))
  | binary {b : BinaryOp} {l r : Expr} : b.WellFormed → b.Legible → OverMetrics l →
      OverMetrics r → OverMetrics (binary b l r)

end Expr

/-! ## Names -/

namespace IsMetricName

variable {name : String} (h : IsMetricName name)
include h

theorem legibleSelector : LegibleSelector (.ofName name) where
  name found hfound := by
    rw [Selector.name?_ofName h.legible.ne_empty] at hfound
    cases hfound
    exact ⟨h.legible, notNumber_escapeIdent h.legible h.notNumber⟩
  groups := by
    rw [Selector.writtenGroups_ofName h.legible.ne_empty]
    intro g hg
    cases hg

end IsMetricName

/-- What is no word for a modifier is none of an operator's modifiers. -/
theorem BinaryOp.takesMore_of_words {t : String} (b : BinaryOp)
    (h : ∀ word ∈ Expr.modifierWords, sameWord t word = false) : b.takesMore t = false := by
  simp only [Expr.modifierWords, List.forall_mem_cons] at h
  rcases h with ⟨hon, hignoring, hleft, hright, hbool, hprefix, _⟩
  simp only [BinaryOp.takesMore, MatchingKind.ofWord?, JoinSide.ofWord?, hon, hignoring, hleft,
    hright, hbool, hprefix]
  cases b.matching <;> cases b.join <;> simp

/-- A name that stands behind an operator without parentheses is not read as a modifier. -/
theorem IsLegible.takesMore_escapeIdent {name : String} (h : IsLegible name)
    (hname : Expr.isModifierWord name = false) (b : BinaryOp) :
    b.takesMore (escapeIdent name) = false := by
  refine b.takesMore_of_words fun word hmem => notWord_escapeIdent h ?_ ?_
  · revert hmem word
    decide
  · have hnone : ¬sameWord word name = true := by
      simp only [Expr.isModifierWord, List.any_eq_false] at hname
      exact hname word hmem
    rw [Bool.not_eq_true] at hnone
    rw [← hnone]
    exact Bool.beq_comm

/-- Parentheses end the modifiers of an operator. -/
theorem takesMore_paren (b : BinaryOp) : b.takesMore "(" = false :=
  b.takesMore_of_words (by decide)

namespace Expr

/-! ## Reading -/

/-- No modifier is found in an operand behind an operator. -/
theorem OverMetrics.takesMore {r : Expr} (h : r.OverMetrics) (b : BinaryOp) :
    b.takesMore (current (rightTokens r)) = false := by
  cases h with
  | @metric name hname =>
      have hne := hname.legible.ne_empty
      have hneeded : rightNeedsParens (selector (.ofName name)) = isModifierWord name := by
        simp [rightNeedsParens, Selector.name?_ofName hne]
      have htokens : tokens (selector (.ofName name)) = [escapeIdent name] := by
        simp [tokens, Selector.tokens, Selector.name?_ofName hne,
          Selector.writtenGroups_ofName hne]
      rw [rightTokens, hneeded, htokens]
      cases hword : isModifierWord name with
      | true => exact takesMore_paren b
      | false => exact hname.legible.takesMore_escapeIdent hword b
  | binary _ _ _ _ => exact takesMore_paren b

/-- The name of a metric may stand before any operator. -/
theorem OverMetrics.standsBefore {l : Expr} (h : l.OverMetrics) {b : BinaryOp}
    (hneeded : l.leftNeedsParens b.op = false) (ts : List String) : l.standsBefore ts := by
  cases h with
  | @metric name hname =>
      rintro _ ⟨found, hfound, haggregate⟩
      rw [Selector.name?_ofName hname.legible.ne_empty] at hfound
      cases hfound
      rw [hname.notAggregate] at haggregate
      cases haggregate
  | binary _ _ _ _ => cases hneeded

theorem OverMetrics.not_isNegative {e : Expr} (h : e.OverMetrics) : e.isNegative = false := by
  cases h <;> rfl

/-- The tree can be read back from its text. -/
theorem OverMetrics.readable {e : Expr} (h : e.OverMetrics) : e.Readable := by
  induction h with
  | metric hname => exact (allNodes_atom rfl).2 hname.legibleSelector
  | @binary b l r hwellFormed hlegible hl hr ihl ihr =>
      refine allNodes_binary.2 ⟨?_, ihl, ihr⟩
      refine ⟨hwellFormed, hlegible, fun hneeded => hl.standsBefore hneeded _, ?_, hr.takesMore b⟩
      intro _ hnegative
      rw [hl.not_isNegative] at hnegative
      cases hnegative

/-- The tokens of the tree are read in each place where it may stand; the only error is that of
depth. -/
theorem OverMetrics.readsBack {e : Expr} (h : e.OverMetrics) :
    e.ReadsBack (.tooNested maxDepth = ·) := by
  induction h with
  | metric hname => exact readsBack_selector rfl (OverMetrics.metric hname).readable
  | binary hwellFormed hlegible hl hr ihl ihr =>
      exact readsBack_binary rfl (OverMetrics.binary hwellFormed hlegible hl hr).readable ihl ihr

/-- The text of the tree is read as the tree with the parentheses that were written. -/
theorem OverMetrics.ofText_render {e : Expr} (h : e.OverMetrics) :
    ofText e.render = .ok e.written ∨ ofText e.render = .error (.tooNested maxDepth) := by
  have htext := h.readsBack.ofText_render (spelled_of_readable h.readable)
  by_cases hfits : e.cost ≤ depthBudget
  · exact .inl (htext.1 hfits)
  · rcases htext.2 hfits with ⟨cause, heq, rfl⟩
    exact .inr heq

/-! ## Expansion and simplification -/

theorem allNodes_inParens {Q : Expr → Prop} (htuple : ∀ items, Q (tuple items)) (needed : Bool)
    {e : Expr} (h : AllNodes Q e) : AllNodes Q (inParens needed e) := by
  unfold inParens
  split
  · exact allNodes_tuple.2 ⟨htuple _, by simpa using h⟩
  · exact h

theorem dropParens_inParens (needed : Bool) (e : Expr) :
    (inParens needed e).dropParens = e.dropParens := by
  cases needed <;> rfl

theorem isSettled_tuple (items : List Expr) : (tuple items).IsSettled :=
  ⟨trivial, trivial⟩

/-- Nothing in the tree refers to a template. -/
theorem OverMetrics.settled_written {e : Expr} (h : e.OverMetrics) :
    AllNodes IsSettled e.written := by
  induction h with
  | @metric name hname =>
      rw [written, Selector.reread_ofName hname.legible.ne_empty]
      exact (allNodes_atom rfl).2 ⟨Selector.valid_ofName name, trivial⟩
  | @binary b l r hwellFormed _ _ _ ihl ihr =>
      refine allNodes_inParens isSettled_tuple b.keepNames (allNodes_binary.2 ⟨?_, ?_, ?_⟩)
      · exact ⟨hwellFormed, trivial⟩
      · exact allNodes_inParens isSettled_tuple (l.leftNeedsParens b.op) ihl
      · exact allNodes_inParens isSettled_tuple r.rightNeedsParens ihr

/-- Without the parentheses that were written it is the tree again. -/
theorem OverMetrics.dropParens_written {e : Expr} (h : e.OverMetrics) :
    e.written.dropParens = e := by
  induction h with
  | @metric name hname =>
      rw [written, Selector.reread_ofName hname.legible.ne_empty]
      rfl
  | @binary b l r _ _ _ _ ihl ihr =>
      have hnode : (Expr.binary b l r).written = inParens b.keepNames
          (Expr.binary b (inParens (l.leftNeedsParens b.op) l.written)
            (inParens r.rightNeedsParens r.written)) := rfl
      rw [hnode, dropParens_inParens, dropParens, dropParens_inParens, dropParens_inParens, ihl,
        ihr]

/-- The tree has no parentheses, constants and calls. -/
theorem OverMetrics.simple {e : Expr} (h : e.OverMetrics) :
    e.dropParens = e ∧ e.foldConstants = e ∧ e.checkFunctions = .ok () := by
  induction h with
  | metric _ => exact ⟨rfl, rfl, rfl⟩
  | @binary b l r _ _ hl hr ihl ihr =>
      have hfold : foldBinary b l r = Expr.binary b l r := by
        cases hl <;> rfl
      refine ⟨?_, ?_, ?_⟩
      · rw [dropParens, ihl.1, ihr.1]
      · rw [foldConstants, ihl.2.1, ihr.2.1, hfold]
      · rw [checkFunctions, ihl.2.2, ihr.2.2]
        rfl

theorem OverMetrics.normalize {e : Expr} (h : e.OverMetrics) :
    normalize e = .ok e ∨ normalize e = .error (.tooNested maxDepth) := by
  unfold SeriesQuery.normalize
  split
  · exact .inr rfl
  · have hsimple := h.simple
    refine .inl ?_
    simp only [hsimple.1, hsimple.2.1, hsimple.2.2]
    rfl

end Expr

/-! ## Printing and parsing -/

/-- The text of a tree of binary operators over names of metrics stands for that tree, unless it is
nested too deep. -/
theorem parse_render_overMetrics {e : Expr} (h : e.OverMetrics) :
    parse e.render = .ok e ∨ parse e.render = .error (.tooNested maxDepth) := by
  unfold parse
  rcases h.ofText_render with htext | htext
  · have hexpand : e.written.expandTemplates = .ok e := by
      rw [Expr.expandTemplates_of_settled h.settled_written, h.dropParens_written]
    have hparse : (Except.ok e.written >>= fun e => e.expandTemplates >>= normalize) =
        normalize e := by
      change e.written.expandTemplates >>= normalize = normalize e
      rw [hexpand]
      rfl
    rw [htext, hparse]
    exact h.normalize
  · rw [htext]
    exact .inr rfl

/-- An operator with all modifiers beside one without, over names that are read as words of the
language elsewhere. -/
def modifiedTree : Expr :=
  let b : BinaryOp :=
    ⟨.eql, true, some ⟨.on, ["job", "by"]⟩, some ⟨.left, ["*"]⟩, some (.ofLiteral "p\"+"), true⟩
  .binary b (.selector (.ofName "with"))
    (.binary (.plain .sub) (.selector (.ofName "bool")) (.selector (.ofName "bool")))

theorem overMetrics_modifiedTree : modifiedTree.OverMetrics := by
  have hname : ∀ name ∈ ["with", "bool"], Expr.OverMetrics (.selector (.ofName name)) := by
    have hnames : ∀ name ∈ ["with", "bool"],
        (name ≠ "" ∧ ∀ c ∈ name.toList, c.toNat < 0xF0000) ∧
          Grammar.isNumberWord name = false ∧ isAggregateName name = false := by
      decide
    intro name hmem
    have hparts := hnames name hmem
    exact .metric ⟨⟨hparts.1.1, hparts.1.2⟩, hparts.2.1, hparts.2.2⟩
  have hlabels : ∀ labels ∈ [["job", "by"], ["*"]], LegibleLabels labels := by
    have hall : ∀ labels ∈ [["job", "by"], ["*"]],
        (∀ label ∈ labels, label ≠ "" ∧ ∀ c ∈ label.toList, c.toNat < 0xF0000) ∧
          ("*" ∈ labels → labels = ["*"]) := by
      decide
    intro labels hmem
    have hparts := hall labels hmem
    refine ⟨fun label hlabel => ?_, hparts.2⟩
    exact ⟨(hparts.1 label hlabel).1, (hparts.1 label hlabel).2⟩
  have hwith := hname "with" (by simp)
  have hbool := hname "bool" (by simp)
  have hminus : Expr.OverMetrics
      (.binary (.plain .sub) (.selector (.ofName "bool")) (.selector (.ofName "bool"))) :=
    .binary (BinaryOp.wellFormed_plain .sub) (BinaryOp.legible_plain .sub) hbool hbool
  refine .binary ?_ ?_ hwith hminus
  · exact ⟨by decide, by simp, by simp [Operator.isSetOperator], by simp [StringExpr.ofLiteral]⟩
  · exact ⟨by simpa using hlabels ["job", "by"] (by simp), by simpa using hlabels ["*"] (by simp)⟩

theorem parse_render_modifiedTree :
    modifiedTree.OverMetrics ∧ parse modifiedTree.render = .ok modifiedTree := by
  refine ⟨overMetrics_modifiedTree, ?_⟩
  rcases parse_render_overMetrics overMetrics_modifiedTree with hparse | hparse
  · exact hparse
  · have hok : (parse modifiedTree.render).isOk := by decide +kernel
    rw [hparse] at hok
    cases hok

end SeriesQuery
