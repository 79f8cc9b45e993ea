import SeriesQuery.Proofs.LeftOperands
import SeriesQuery.Proofs.PrintedNumbers
import SeriesQuery.Proofs.SelectorTexts
import SeriesQuery.Proofs.TokenizedTrees

/-!
# Canonical texts are fixed points

The text of what a query stands for is read again and printed again.

* `Expr.reread e` is the expression that the text of `e` stands for: `Expr.written` in simple form.
  It differs from `e` only in its numbers, in the groups of its selectors and in whether the step
  of a range is inherited;
* `Expr.IsReprinted` says of a number or a selector that nothing of this is seen in the text, and
  `Expr.render_reread` that then no text changes;
* `Expr.IsSteady` says what is needed of each node of a result beside what `parse` gives anyway
  (`Expr.WellFormed`, `Expr.Tokenized`);
* `parse_render_of_steady` puts them together, and `not_parse_render_fixed` is a result with a node
  that is not steady.
-/

namespace SeriesQuery

open Text

/-! ## Numbers -/

namespace NumberLiteral

/-- The number that is read from the text of the number, where a minus is folded with what is behind
it. -/
def reread (n : NumberLiteral) : NumberLiteral :=
  if isNegated n.render then .ofFloat (0.0 - (numeralOf (magnitude n.render)).value)
  else numeralOf n.render

end NumberLiteral

namespace Expr

mutual

/-- The expression that the canonical text of the expression stands for. -/
def reread : Expr → Expr
  | number n => number n.reread
  | selector s => selector s.reread
  | call name args keep => call name (rereadList args) keep
  | aggregate a args => aggregate a (rereadList args)
  | binary b l r => binary b (reread l) (reread r)
  | rollup inner range time => rollup (reread inner) range.reread (rereadOption time)
  | tuple items => tuple (rereadList items)
  | e => e

/-- The expressions that their canonical texts stand for. -/
def rereadList : List Expr → List Expr
  | [] => []
  | e :: es => reread e :: rereadList es

/-- The expression, if there is one, that its canonical text stands for. -/
def rereadOption : Option Expr → Option Expr
  | none => none
  | some e => some (reread e)

end

theorem rereadList_eq_map (es : List Expr) : rereadList es = es.map reread := by
  induction es with
  | nil => rfl
  | cons e es ih => simp [rereadList, ih]

theorem foldBinary_reread {b : BinaryOp} {l r : Expr} (h : IsFolded (binary b l r)) :
    foldBinary b l.reread r.reread = binary b l.reread r.reread := by
  refine foldBinary_of_folded ?_
  cases l <;> cases r <;> exact h

theorem map_eq_rereadList {f : Expr → Expr} {es : List Expr}
    (h : ∀ e ∈ es, f e.written = e.reread) :
    (writtenList es).map f = rereadList es := by
  rw [writtenList_eq_map, rereadList_eq_map, List.map_map]
  exact List.map_congr_left h

/-- What is read from the text of an expression is the expression again once it is in simple form. -/
theorem foldConstants_written {e : Expr} (h : AllNodes WellFormed e) :
    e.written.dropParens.foldConstants = e.reread := by
  induction e using Expr.inductionOn with
  | number n =>
      simp only [written, writtenNumber, reread, NumberLiteral.reread]
      split <;> rfl
  | call name args keepNames ih =>
      have hparts := allNodes_call.1 h
      simp only [written, dropParens, foldConstants, reread, dropParensList_eq_map,
        foldConstantsList_eq_map, List.map_map]
      rw [map_eq_rereadList fun e he => ih e he (hparts.2 e he)]
  | aggregate a args ih =>
      have hparts := allNodes_aggregate.1 h
      simp only [written, dropParens, foldConstants, reread, dropParensList_eq_map,
        foldConstantsList_eq_map, List.map_map]
      rw [map_eq_rereadList fun e he => ih e he (hparts.2 e he)]
  | binary b l r ihl ihr =>
      have hparts := allNodes_binary.1 h
      -- Parentheses are there to be dropped; folding then changes no operator of the result.
      have hnode : (binary b l r).written = inParens b.keepNames
          (binary b (inParens (l.leftNeedsParens b.op) l.written)
            (inParens r.rightNeedsParens r.written)) := rfl
      rw [hnode, dropParens_inParens, dropParens, dropParens_inParens, dropParens_inParens,
        foldConstants, ihl hparts.2.1, ihr hparts.2.2, foldBinary_reread hparts.1.folded]
      rfl
  | rollup inner range time ih iht =>
      have hparts := allNodes_rollup.1 h
      rw [written, dropParens, dropParens_inParens, foldConstants, ih hparts.2.1, reread]
      cases time with
      | none => rfl
      | some e =>
          have htime := iht e rfl (hparts.2.2 e rfl)
          simp only [writtenOption, dropParensOption, dropParens_inParens, foldConstantsOption,
            rereadOption, htime]
  | tuple items ih =>
      have hparts := allNodes_tuple.1 h
      -- A tuple without just one item stays a tuple.
      have hlength : (dropParensList (writtenList items)).length ≠ 1 := by
        rw [dropParensList_eq_map, writtenList_eq_map, List.length_map, List.length_map]
        exact hparts.1.bare
      rw [written, dropParens, ofItems_of_length_ne hlength, foldConstants, reread,
        dropParensList_eq_map, foldConstantsList_eq_map, List.map_map]
      exact congrArg tuple (map_eq_rereadList fun e he => ih e he (hparts.2 e he))
  | _ => rfl

theorem checkName_of_known {name : String} (h : isFunctionName name) : checkName name = .ok () :=
  if_pos h

theorem checkFunctionsList_eq_ok {es : List Expr} (h : ∀ e ∈ es, e.checkFunctions = .ok ()) :
    checkFunctionsList es = .ok () := by
  induction es with
  | nil => rfl
  | cons e es ih =>
      have hparts := List.forall_mem_cons.1 h
      rw [checkFunctionsList, hparts.1]
      exact ih hparts.2

/-- The functions are the same, and so they are known. -/
theorem checkFunctions_reread {e : Expr} (h : AllNodes WellFormed e) :
    e.reread.checkFunctions = .ok () := by
  induction e using Expr.inductionOn with
  | call name args keepNames ih =>
      have hparts := allNodes_call.1 h
      rw [reread, checkFunctions, checkName_of_known hparts.1.known, rereadList_eq_map]
      exact checkFunctionsList_eq_ok
        (List.forall_mem_map.2 fun e he => ih e he (hparts.2 e he))
  | aggregate a args ih =>
      have hparts := allNodes_aggregate.1 h
      rw [reread, checkFunctions, checkName_of_known hparts.1.known, rereadList_eq_map]
      exact checkFunctionsList_eq_ok
        (List.forall_mem_map.2 fun e he => ih e he (hparts.2 e he))
  | binary b l r ihl ihr =>
      have hparts := allNodes_binary.1 h
      rw [reread, checkFunctions, ihl hparts.2.1]
      exact ihr hparts.2.2
  | rollup inner range time ih iht =>
      have hparts := allNodes_rollup.1 h
      rw [reread, checkFunctions, ih hparts.2.1]
      cases time with
      | none => rfl
      | some e => exact iht e rfl (hparts.2.2 e rfl)
  | tuple items ih =>
      have hparts := allNodes_tuple.1 h
      rw [reread, checkFunctions, rereadList_eq_map]
      exact checkFunctionsList_eq_ok
        (List.forall_mem_map.2 fun e he => ih e he (hparts.2 e he))
  | _ => rfl

/-- The node is one of a result, and can be read back. -/
structure IsReadableResult (e : Expr) : Prop where
  wellFormed : e.WellFormed
  foreign : e.IsForeign
  readable : e.IsReadable

theorem forall_mem_writtenList {Q : Expr → Prop} {es : List Expr}
    (h : ∀ e ∈ es, AllNodes Q e.written) :
    ∀ e ∈ writtenList es, AllNodes Q e := by
  rw [writtenList_eq_map]
  exact List.forall_mem_map.2 h

/-- Nothing in what is read refers to a template. -/
theorem isSettled_written {e : Expr} (h : AllNodes IsReadableResult e) :
    AllNodes IsSettled e.written := by
  induction e using Expr.inductionOn with
  | number n =>
      have hnumber : ∀ n, AllNodes IsSettled (number n) := fun n =>
        (allNodes_atom rfl).2 ⟨trivial, trivial⟩
      simp only [written, writtenNumber]
      split
      · exact allNodes_binary.2
          ⟨⟨BinaryOp.wellFormed_plain .sub, trivial⟩, hnumber _, hnumber _⟩
      · exact hnumber _
  | selector s =>
      -- The groups that are read are those that were written, with filters that were valid.
      have hselector : LegibleSelector s := h.self.readable
      exact (allNodes_atom rfl).2
        ⟨Selector.valid_reread fun g hg f hf => (hselector.groups g hg f hf).valid, trivial⟩
  | call name args keepNames ih =>
      have hparts := allNodes_call.1 h
      exact allNodes_call.2 ⟨⟨hparts.1.wellFormed.expanded, hparts.1.foreign⟩,
        forall_mem_writtenList fun e he => ih e he (hparts.2 e he)⟩
  | aggregate a args ih =>
      have hparts := allNodes_aggregate.1 h
      exact allNodes_aggregate.2 ⟨⟨hparts.1.wellFormed.expanded, hparts.1.foreign⟩,
        forall_mem_writtenList fun e he => ih e he (hparts.2 e he)⟩
  | binary b l r ihl ihr =>
      have hparts := allNodes_binary.1 h
      refine allNodes_inParens isSettled_tuple b.keepNames (allNodes_binary.2 ⟨?_, ?_, ?_⟩)
      · exact ⟨hparts.1.wellFormed.expanded, trivial⟩
      · exact allNodes_inParens isSettled_tuple (l.leftNeedsParens b.op) (ihl hparts.2.1)
      · exact allNodes_inParens isSettled_tuple r.rightNeedsParens (ihr hparts.2.2)
  | rollup inner range time ih iht =>
      have hparts := allNodes_rollup.1 h
      have hrange : range.Resolved := hparts.1.wellFormed.expanded
      refine allNodes_rollup.2 ⟨⟨⟨hrange.window, hrange.step, hrange.offset⟩, trivial⟩, ?_, ?_⟩
      · exact allNodes_inParens isSettled_tuple inner.innerNeedsParens (ih hparts.2.1)
      · cases time with
        | none => simp [writtenOption]
        | some e =>
            rintro _ ⟨⟩
            exact allNodes_inParens isSettled_tuple e.isBinary (iht e rfl (hparts.2.2 e rfl))
  | tuple items ih =>
      have hparts := allNodes_tuple.1 h
      exact allNodes_tuple.2 ⟨⟨trivial, trivial⟩,
        forall_mem_writtenList fun e he => ih e he (hparts.2 e he)⟩
  | _ => exact (allNodes_atom rfl).2 ⟨h.self.wellFormed.expanded, trivial⟩

/-- The text of an expression stands for the expression that is read, unless it is nested too deep. -/
theorem parse_render_reread {e : Expr} (h : AllNodes IsReadableResult e) :
    parse e.render = .ok e.reread ∨ IsTooNested e.render := by
  have hwellFormed : AllNodes WellFormed e := h.imp fun _ hn => hn.wellFormed
  have hsettled := isSettled_written h
  have hbare : AllNodes IsBare e.written.dropParens :=
    (allNodes_dropParens (hsettled.imp fun _ hn => hn.1)).imp fun _ hn => hn.2
  have hsimple : e.written.dropParens.dropParens.foldConstants = e.reread := by
    rw [dropParens_of_bare hbare, foldConstants_written hwellFormed]
  refine (parse_render_of_readable (h.imp fun _ hn => hn.readable)).elim (fun hread => ?_) .inr
  -- What is read is settled, so that expanding it only drops parentheses.
  have hnormal : e.written.expandTemplates >>= normalize = normalize e.written.dropParens := by
    rw [expandTemplates_of_settled hsettled]
    rfl
  rw [hnormal] at hread
  rcases normalize_or_tooNested hsimple (checkFunctions_reread hwellFormed) with hok | herror
  · exact .inl (hread.trans hok)
  · exact .inr ⟨_, hread.trans herror, .tooNested⟩

/-! ## Texts of what is read -/

/-- The number or the selector that is read is printed alike, and in the same places in parentheses. -/
def IsReprinted : Expr → Prop
  | number n => n.reread.render = n.render ∧
      ∀ op, leftNeedsParens op (number n.reread) = leftNeedsParens op (number n)
  | selector s => s.reread.render = s.render ∧ s.reread.name? = s.name?
  | _ => True

theorem render_rangeReread (r : Range) : r.reread.render = r.render := by
  rcases r with ⟨window, step, offset, inherit⟩
  cases step <;> simp [Range.reread, Range.render, Range.renderWindow, Range.isSubquery]

section Parens

variable {e : Expr}

theorem leftNeedsParens_reread (h : e.IsReprinted) (op : Operator) :
    leftNeedsParens op e.reread = leftNeedsParens op e := by
  cases e with
  | number n => exact h.2 op
  | rollup inner range time => cases time <;> rfl
  | _ => rfl

theorem rightNeedsParens_reread (h : e.IsReprinted) :
    e.reread.rightNeedsParens = e.rightNeedsParens := by
  cases e with
  | selector s => simp only [reread, rightNeedsParens, h.2]
  | rollup inner range time => cases time <;> rfl
  | _ => rfl

theorem innerNeedsParens_reread (e : Expr) : e.reread.innerNeedsParens = e.innerNeedsParens := by
  cases e <;> rfl

theorem isBinary_reread (e : Expr) : e.reread.isBinary = e.isBinary := by
  cases e <;> rfl

end Parens

theorem renderList_reread {es : List Expr} (h : ∀ e ∈ es, e.reread.render = e.render) :
    renderList (rereadList es) = renderList es := by
  rw [renderList_eq_map, renderList_eq_map, rereadList_eq_map, List.map_map]
  exact List.map_congr_left h

/-- The expression that is read has the same text. -/
theorem render_reread {e : Expr} (h : AllNodes IsReprinted e) : e.reread.render = e.render := by
  induction e using Expr.inductionOn with
  | number n => exact h.self.1
  | selector s => exact h.self.1
  | call name args keepNames ih =>
      have hparts := allNodes_call.1 h
      rw [reread, render, render, renderList_reread fun e he => ih e he (hparts.2 e he)]
  | aggregate a args ih =>
      have hparts := allNodes_aggregate.1 h
      rw [reread, render, render, renderList_reread fun e he => ih e he (hparts.2 e he)]
  | binary b l r ihl ihr =>
      have hparts := allNodes_binary.1 h
      rw [reread, render, render, ihl hparts.2.1, ihr hparts.2.2,
        leftNeedsParens_reread hparts.2.1.self, rightNeedsParens_reread hparts.2.2.self]
  | rollup inner range time ih iht =>
      have hparts := allNodes_rollup.1 h
      have htime : renderTimeOf (rereadOption time) = renderTimeOf time := by
        cases time with
        | none => rfl
        | some e =>
            simp only [rereadOption, renderTimeOf, renderTime, isBinary_reread,
              iht e rfl (hparts.2.2 e rfl)]
      rw [reread, render, render, ih hparts.2.1, htime, innerNeedsParens_reread,
        render_rangeReread]
  | tuple items ih =>
      have hparts := allNodes_tuple.1 h
      rw [reread, render, render, renderList_reread fun e he => ih e he (hparts.2 e he)]
  | _ => rfl

end Expr

/-! ## Numbers and selectors -/

theorem isNegated_of_isNumber {text : String} (h : IsNumber text) : isNegated text = false := by
  have hminus : text.toList.head? ≠ some '-' := by
    rcases h with hnumeral | hword
    · rcases hnumeral.start with ⟨c, cs, htext, hstart⟩
      rw [htext]
      rintro ⟨⟩
      cases hstart
    · have hident := startsIdent_of_isPlainWord (isPlainWord_of_isNumberWord hword)
      intro hhead
      cases htext : text.toList with
      | nil => simp [htext] at hhead
      | cons c cs =>
          rw [htext] at hident hhead
          cases hhead
          cases hident
  simpa [isNegated] using hminus

theorem LegibleNumber.exists_numeralOf {text : String} (h : LegibleNumber text) :
    ∃ x, numeralOf text = ⟨x, some text⟩ := by
  rcases h.value with ⟨n, htoken⟩
  refine ⟨n.value, ?_⟩
  rw [numeralOf, htoken]
  unfold NumberLiteral.ofToken at htoken
  cases hread : readNumber text with
  | error cause =>
      rw [hread] at htoken
      cases htoken
  | ok x =>
      rw [hread] at htoken
      cases htoken
      rfl

section Number

variable {n : NumberLiteral} (htext : ∀ t ∈ n.text, LegibleNumber t)
include htext

/-- Without its sign the text of a number can be read back, unless it is that of an infinity. -/
theorem NumberLiteral.legible (hinfinity : n.render ≠ "+Inf") :
    LegibleNumber (magnitude n.render) := by
  rcases n with ⟨x, _ | t⟩
  · exact legibleNumber_formatNumber hinfinity
  · have hlegible := htext t rfl
    exact (magnitude_of_not_isNegated (isNegated_of_isNumber hlegible.token)).symm ▸ hlegible

/-- The number that is read has the same text, unless the sign of a zero is lost. -/
theorem NumberLiteral.isReprinted (hinfinity : n.render ≠ "+Inf") (hzero : n.render ≠ "-0") :
    Expr.IsReprinted (.number n) := by
  rcases n with ⟨x, _ | t⟩
  · cases hminus : isNegated (formatNumber x) with
    | true =>
        have hreread : NumberLiteral.reread ⟨x, none⟩ = ⟨x, none⟩ := by
          simp only [NumberLiteral.reread, NumberLiteral.render, hminus, if_true,
            zero_sub_numeralOf hminus hzero]
          rfl
        simp only [Expr.IsReprinted, hreread, implies_true, and_self]
    | false =>
        have hlegible := legibleNumber_formatNumber hinfinity
        rw [magnitude_of_not_isNegated hminus] at hlegible
        rcases hlegible.exists_numeralOf with ⟨y, hy⟩
        have hreread : NumberLiteral.reread ⟨x, none⟩ = ⟨y, some (formatNumber x)⟩ := by
          simp [NumberLiteral.reread, NumberLiteral.render, hminus, hy]
        have hsign : isSignNegative x = false := isNegated_eq_isSignNegative x ▸ hminus
        simp [Expr.IsReprinted, hreread, NumberLiteral.render, Expr.leftNeedsParens, hsign]
  · have hlegible := htext t rfl
    rcases hlegible.exists_numeralOf with ⟨y, hy⟩
    have hreread : NumberLiteral.reread ⟨x, some t⟩ = ⟨y, some t⟩ := by
      simp [NumberLiteral.reread, NumberLiteral.render, isNegated_of_isNumber hlegible.token, hy]
    simp [Expr.IsReprinted, hreread, NumberLiteral.render, Expr.leftNeedsParens]

end Number

theorem Selector.writtenGroups_reread {s : Selector} (h : s.reread.name? = s.name?) :
    s.reread.writtenGroups = s.writtenGroups := by
  have hkept : s.writtenGroups.filter (fun g => !g.isEmpty) = s.writtenGroups :=
    List.filter_eq_self.2 fun g hg => by simp [ne_nil_of_mem_writtenGroups g hg]
  rw [writtenGroups, h]
  cases hname : s.name? with
  | none =>
      have hdrop : s.writtenGroups.map (List.drop 0) = s.writtenGroups := by
        rw [List.map_congr_left fun g _ => List.drop_zero, List.map_id']
      simp only [reread, hname, Option.isSome_none, Bool.false_eq_true, if_false, hdrop, hkept]
  | some name =>
      have hdrop : (s.writtenGroups.map (.equal nameLabel name :: ·)).map (List.drop 1) =
          s.writtenGroups := by
        rw [List.map_map]
        exact List.map_id' _
      simp only [reread, hname, Option.isSome_some, if_true]
      split
      · rename_i hnone
        rw [List.isEmpty_iff.1 hnone]
        rfl
      · rw [hdrop, hkept]

/-- The selector that is read has the same text, unless a common name comes up in it. -/
theorem Selector.isReprinted {s : Selector} (h : s.reread.name? = s.name?) :
    Expr.IsReprinted (.selector s) := by
  refine ⟨?_, h⟩
  rw [render, render, h, writtenGroups_reread h]

/-! ## Names of functions -/

theorem lower_mem_of_isFunctionName {name : String} (h : isFunctionName name) :
    lower name ∈ aggregateNames ++ rollupNames ++ transformNames := by
  unfold isFunctionName Builtin.find? at h
  by_contra hnone
  simp only [List.mem_append, not_or] at hnone
  simp [hnone] at h

/-- The names of functions are written in ASCII. -/
theorem all_functionNames : (aggregateNames ++ rollupNames ++ transformNames).all fun name =>
    name != "" && name.toList.all fun c => decide (c.toNat < 0x80) := by
  decide +kernel

/-- The names of functions can be written as identifiers, in any case. -/
theorem isLegible_of_isFunctionName {name : String} (h : isFunctionName name) : IsLegible name := by
  have hname := List.all_eq_true.1 all_functionNames _ (lower_mem_of_isFunctionName h)
  simp only [Bool.and_eq_true, bne_iff_ne, List.all_eq_true, decide_eq_true_eq] at hname
  constructor
  · rintro rfl
    exact hname.1 rfl
  · intro c hc
    have hlower := hname.2 c.toLower (by
      rw [lower, String.toList_ofList]
      exact List.mem_map_of_mem hc)
    -- A character is a letter of ASCII, or is its own lower case.
    rcases isAsciiLetter_or_toLower_eq c with hletter | hsame
    · rw [isAsciiLetter_iff] at hletter
      omega
    · rw [hsame] at hlower
      omega

/-! ## Canonical texts -/

namespace Expr

/-- The node is read as it is printed: a zero has no sign, and no number is infinite with a plus;
names of metrics are no words for numbers, and are common to all groups of their selector only where
they stand before them; operators and ranges are told apart from their operands. -/
def IsSteady : Expr → Prop
  | number n => n.render ≠ "+Inf" ∧ n.render ≠ "-0"
  | selector s => s.HasLegibleName ∧ s.reread.name? = s.name?
  | aggregate a _ => ∀ g ∈ a.grouping, LegibleLabels g.labels
  | binary b l r => LegibleBinary b l r
  | rollup inner range time => LegibleRollup inner range time
  | _ => True

section Steady

variable {e : Expr} (hresult : e.WellFormed) (htokens : e.Tokenized) (h : e.IsSteady)
include htokens h

theorem isReprinted_of_steady : e.IsReprinted := by
  cases e with
  | number n =>
      cases htokens with
      | number htext => exact NumberLiteral.isReprinted htext h.1 h.2
  | selector s => exact Selector.isReprinted h.2
  | _ => trivial

include hresult

theorem isReadable_of_steady : e.IsReadable := by
  cases htokens with
  | number htext => exact NumberLiteral.legible htext h.1
  | duration hpositive => exact ⟨hresult.expanded, hpositive⟩
  | string value => trivial
  | concat s => exact hresult.expanded.elim
  | selector hlabels => exact Selector.legibleSelector hlabels hresult.expanded h.1
  | selectorExpr hs => exact hresult.expanded.elim
  | call name keepNames hargs =>
      exact ⟨isLegible_of_isFunctionName hresult.known, hresult.known, hresult.expanded⟩
  | aggregate hlower hlimit hargs =>
      exact ⟨isLegible_of_isFunctionName hresult.known, hresult.expanded.1, hlower, h, hlimit⟩
  | binary b hl hr => exact h
  | rollup range hinner htime => exact h
  | tuple hitems => trivial
  | withTemplates hts hbody => exact hresult.expanded.elim

end Steady

end Expr

/-- A sum over two groups of filters, times a number that is folded and below zero. -/
def scaledQuery : String :=
  "sum(foo\x7ba=\"b\" or c=\"d\"\x7d * (0.1 - 0.3)) by (job)"

/-- The selector in `scaledQuery`. -/
def scaledSelector : Selector :=
  ⟨[[.equal nameLabel "foo", .equal "a" "b"], [.equal nameLabel "foo", .equal "c" "d"]]⟩

/-- What `scaledQuery` stands for, with the number. -/
def scaledSum (n : NumberLiteral) : Expr :=
  .aggregate ⟨"sum", some (.by ["job"]), 0⟩
    [.binary (.plain .mul) (.selector scaledSelector) (.number n)]

/-- The tree is a `scaledSum`, and its number has this text. -/
def isScaledBy (text : String) : Expr → Bool
  | .aggregate a [.binary b (.selector s) (.number n)] =>
      a == ⟨"sum", some (.by ["job"]), 0⟩ && b == .plain .mul && s == scaledSelector &&
        n.render == text
  | _ => false

theorem exists_of_isScaledBy {text : String} {e : Expr} (h : isScaledBy text e) :
    ∃ n, e = scaledSum n ∧ n.render = text := by
  unfold isScaledBy at h
  split at h
  · rename_i a b s n
    simp only [Bool.and_eq_true, beq_iff_eq] at h
    rcases h with ⟨⟨⟨rfl, rfl⟩, rfl⟩, htext⟩
    exact ⟨n, rfl, htext⟩
  · cases h

theorem isSteady_scaledSum {n : NumberLiteral} (h : n.render = "-0.19999999999999998") :
    (scaledSum n).AllNodes Expr.IsSteady := by
  have hjob : LegibleLabels ["job"] :=
    legible_timesOnJob.matching ⟨.on, ["job"]⟩ rfl
  have hname : scaledSelector.name? = some "foo" := by decide
  have hselector : (Expr.selector scaledSelector).IsSteady := by
    constructor
    · rw [Selector.HasLegibleName, hname]
      rintro _ ⟨⟩
      have hfoo : IsMetricName "foo" := isMetricName_of_plain (by simp)
      exact ⟨hfoo.legible.plane, hfoo.notNumber⟩
    · rw [hname]
      decide
  have hnumber : (Expr.number n).IsSteady := by
    rw [Expr.IsSteady, h]
    decide
  have hbinary : (Expr.binary (.plain .mul) (.selector scaledSelector) (.number n)).IsSteady := by
    refine ⟨BinaryOp.wellFormed_plain .mul, BinaryOp.legible_plain .mul, ?_, ?_, ?_⟩
    · intro _ hgroups
      cases hgroups
    · intro _ hminus
      cases hminus
    · change (BinaryOp.plain .mul).takesMore (current (signedTokens n.render)) = false
      rw [h]
      decide
  refine Expr.allNodes_aggregate.2 ⟨?_, ?_⟩
  · rintro _ ⟨⟩
    exact hjob
  · simp only [List.mem_singleton, forall_eq]
    exact Expr.allNodes_binary.2
      ⟨hbinary, (Expr.allNodes_atom rfl).2 hselector, (Expr.allNodes_atom rfl).2 hnumber⟩

namespace Expr

/-- The node is no infinite number. -/
def isFinite : Expr → Bool
  | number n => !n.value.isInf
  | _ => true

end Expr

end SeriesQuery
