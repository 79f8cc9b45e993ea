import SeriesQuery.Proofs.LeftOperands

/-!
# Right operands and their parentheses

Behind an operator a query may go on with modifiers, so the text of an operator puts parentheses
around a right operand that starts with a word for one: a selector or a call of that name.  A
rollup of such a selector starts with the same word, but has no parentheses (`Expr.HidesModifier`),
and the word is read as a modifier.  All other right operands are told apart from the modifiers
before them, and the text of the operator stands for it (`parse_render_rightOperand`).
-/

namespace SeriesQuery

open Text

/-! ## Words for modifiers -/

theorem startsIdent_of_sameWord {t word : String} (h : sameWord t word)
    (hletter : (word.toList.map Char.toLower).head?.any isAsciiLetter) :
    startsIdent t.toList := by
  rw [← toList_of_sameWord h] at hletter
  cases htext : t.toList with
  | nil =>
      rw [htext] at hletter
      cases hletter
  | cons c cs =>
      rw [htext] at hletter
      simp [startsIdent, isIdentStart_of_toLower (c := c) hletter]

namespace Expr

/-- Punctuation, literals and signs are no words for modifiers. -/
theorem notModifier_of_not_startsIdent {t : String} (h : startsIdent t.toList = false) :
    ∀ word ∈ modifierWords, sameWord t word = false := by
  have hletters : ∀ word ∈ modifierWords,
      (word.toList.map Char.toLower).head?.any isAsciiLetter := by
    decide
  intro word hmem
  rw [Bool.eq_false_iff]
  intro hsame
  rw [startsIdent_of_sameWord hsame (hletters word hmem)] at h
  cases h

theorem notModifier_of_isNumber {t : String} (h : IsNumber t) :
    ∀ word ∈ modifierWords, sameWord t word = false := by
  rcases h with hnumeral | hnumber
  · exact notModifier_of_not_startsIdent (startsIdent_of_numeral hnumeral)
  · have hall : ∀ word ∈ modifierWords, lower "inf" ≠ lower word ∧ lower "nan" ≠ lower word := by
      decide
    intro word hmem
    simp only [Grammar.isNumberWord, sameWord, Bool.or_eq_true, beq_iff_eq] at hnumber
    rw [sameWord, beq_eq_false_iff_ne]
    rcases hnumber with heq | heq <;> rw [heq]
    · exact (hall word hmem).1
    · exact (hall word hmem).2

theorem notModifier_of_isFunctionName {name : String} (hlegible : IsLegible name)
    (h : isFunctionName name) : ∀ word ∈ modifierWords, sameWord (escapeIdent name) word = false := by
  have hall : ∀ word ∈ modifierWords, isFunctionName word = false ∧
      '\\' ∉ word.toList.map Char.toLower := by
    decide
  intro word hmem
  rw [Bool.eq_false_iff]
  intro hsame
  rw [isFunctionName_congr (sameWord_of_escapeIdent hlegible (hall word hmem).2 hsame),
    (hall word hmem).1] at h
  cases h

/-! ## Operands that start with a modifier -/

/-- A rollup without parentheses starts with a name that goes on with the modifiers of the operator
before it. -/
def HidesModifier (b : BinaryOp) : Expr → Prop
  | rollup (selector s) range none =>
      range.offset = none ∧ ∃ name ∈ s.name?, b.takesMore (escapeIdent name)
  | _ => False

section Starts

variable {b : BinaryOp}

/-- The first token of an operand without a range is no modifier, if it is not the name of a
metric. -/
theorem takesMore_tokens {e : Expr} (h : e.Readable) (hbinary : e.isBinary = false)
    (hrollup : e.isRollup = false)
    (hname : ∀ s, e = selector s → ∀ name ∈ s.name?, b.takesMore (escapeIdent name) = false) :
    b.takesMore (current e.tokens) = false := by
  cases e with
  -- Neither a minus nor a number is a word for a modifier.
  | number n =>
      refine b.takesMore_of_words ?_
      have hlegible : LegibleNumber (magnitude n.render) := h.self
      simp only [tokens, signedTokens]
      split
      · have hminus : startsIdent "-".toList = false := by decide
        exact notModifier_of_not_startsIdent hminus
      · rename_i hplain
        have htoken := hlegible.token
        rw [magnitude_of_not_isNegated (by simpa using hplain)] at htoken
        exact notModifier_of_isNumber htoken
  | duration d =>
      have hrender : d.render = d.text := by simp [Duration.render, h.self.1]
      have hnumeral := isNumeral_of_isPositiveDuration h.self.2
      rw [tokens, hrender]
      exact b.takesMore_of_words (notModifier_of_isNumber hnumeral.isNumber)
  | string value =>
      have hquote : startsIdent (quote value).toList = false := by
        simp only [quote, String.toList_ofList]
        rfl
      exact b.takesMore_of_words (notModifier_of_not_startsIdent hquote)
  | selector s =>
      simp only [tokens, Selector.tokens]
      cases hfound : s.name? with
      | none =>
          have hbrace : startsIdent "\x7b".toList = false := by decide
          exact b.takesMore_of_words (notModifier_of_not_startsIdent hbrace)
      | some name => exact hname s rfl name hfound
  | call name args keep =>
      exact b.takesMore_of_words (notModifier_of_isFunctionName h.self.1 h.self.2.1)
  | aggregate a args =>
      have hlegible : LegibleAggregation a := h.self
      exact b.takesMore_of_words (notModifier_of_isFunctionName hlegible.name
        (isFunctionName_of_isAggregateName hlegible.isAggregate))
  | tuple items => exact takesMore_paren b
  | binary _ _ _ => cases hbinary
  | rollup _ _ _ => cases hrollup
  | concat s => exact h.self.elim
  | selectorExpr s => exact h.self.elim
  | withTemplates ts body => exact h.self.elim

/-- No modifier is found in a right operand that hides none. -/
theorem takesMore_rightTokens {r : Expr} (h : r.Readable) (hhides : ¬HidesModifier b r) :
    b.takesMore (current (rightTokens r)) = false := by
  unfold rightTokens
  cases hneeded : r.rightNeedsParens with
  | true => exact takesMore_paren b
  | false =>
      cases r with
      | binary _ _ _ => cases hneeded
      | rollup inner range time =>
          have hparts := allNodes_rollup.1 h
          have hvisible : range.offset = none ∧ time = none := by
            simpa [rightNeedsParens] using hneeded
          have hinner : inner.tokens ≠ [] := (tokens_start hparts.2.1).1
          simp only [parenTokens, tokens, Bool.false_eq_true, if_false, List.append_assoc]
          cases hparens : inner.innerNeedsParens with
          | true => exact takesMore_paren b
          | false =>
              simp only [Bool.false_eq_true, if_false]
              rw [current_append hinner]
              -- Without parentheses the first token of the rollup is that of what is inside.
              refine takesMore_tokens hparts.2.1 ?_ ?_ ?_
              · cases inner <;> first | rfl | cases hparens
              · cases inner <;> first | rfl | cases hparens
              · intro s heq name hname
                rw [heq, hvisible.2] at hhides
                rw [Bool.eq_false_iff]
                intro hmore
                exact hhides ⟨hvisible.1, name, hname, hmore⟩
      | selector s =>
          refine takesMore_tokens h rfl rfl ?_
          intro s' heq name hname
          cases heq
          have hlegible : LegibleSelector s := h.self
          have hfound : s.name? = some name := hname
          refine (hlegible.name name hname).1.takesMore_escapeIdent ?_ b
          simpa [rightNeedsParens, hfound] using hneeded
      | _ => exact takesMore_tokens h rfl rfl fun s heq => by cases heq

end Starts
end Expr

/-! ## Words that are read as modifiers -/

/-- Filters in braces or a window stand here. -/
def OpensFilters (s : List String) : Prop :=
  current s = "\x7b" ∨ current s = "["

theorem OpensFilters.notWord {s : List String} (h : OpensFilters s) : current s ≠ "(" ∧
    MatchingKind.ofWord? (current s) = none ∧ sameWord (current s) "prefix" = false ∧
    startsQuoted (current s).toList = false ∧ startsIdent (current s).toList = false := by
  rcases h with h | h <;> rw [h] <;> decide

namespace Reader

variable {l : List String} (hl : OpensFilters l)
include hl

theorem fails_labels (allowStar : Bool) (names m : List String) :
    Reads (fun _ => True) False (labels allowStar) l names m := by
  have hexpect : Reads (fun _ => True) False (expect "(" .identList) l () m :=
    (takes_notToken hl.notWord.1).ifFalse (fails_unexpected _ _)
  have hitems : Reads (fun _ => True) False (parenthesized .identList (label allowStar)) l names m :=
    hexpect.fails_bind
  exact hitems.fails_bind

theorem fails_stringExpr (x : StringExpr) (m : List String) :
    Reads (fun _ => True) False stringExpr l x m := by
  have hsegment : Reads (fun _ => True) False (segment .empty) l .empty m := by
    refine takes_token.bind ?_
    simp only [hl.notWord]
    exact fails_unexpected _ _
  exact reads_count (k := fun n => stringFrom .empty (n + 1)) hsegment.fails_bind

variable {b : BinaryOp} {t : String}

omit hl in
/-- Only comparisons have a `bool`. -/
theorem reads_boolMore (op : Operator) (ht : sameWord t "bool") :
    Reads (fun _ => True) op.isComparison (boolModifier op) (t :: l) true l := by
  refine (takes_isWord ht).ifTrue ?_
  cases op.isComparison with
  | true => exact takes_bump.bind (takes_pure.reads rfl)
  | false => exact Reads.congr (fun _ => ⟨False.elim, fun _ => ⟨_, rfl, trivial⟩⟩) (by simp)

/-- Set operators have no join. -/
theorem reads_joinMore (op : Operator) {side : JoinSide} (ht : JoinSide.ofWord? t = some side) :
    Reads (fun _ => True) (op.isSetOperator = false) (join op) (t :: l)
      (some ⟨side, []⟩, none) l := by
  refine takes_token.bind ?_
  simp only [current_cons, ht]
  cases op.isSetOperator with
  | true => exact Reads.congr (fun _ => ⟨False.elim, fun _ => ⟨_, rfl, trivial⟩⟩) (by simp)
  | false =>
      have hlead : Takes joinLead l none l := (takes_notWord hl.notWord.2.2.1).ifFalse takes_pure
      refine takes_bump.bind ((takes_notToken hl.notWord.1).ifFalse ?_)
      exact Takes.bind (r := pure []) takes_pure (hlead.bind (takes_pure.reads rfl))

/-- A word for what stands before the labels of a join wants a string. -/
theorem fails_leadMore (hw : b.WellFormed) (h : b.Legible) {j : Join} (hjoin : b.join = some j)
    (ht : sameWord t "prefix") (found : Option Join × Option StringExpr) :
    Reads (fun _ => True) False (join b.op) (j.tokens ++ t :: l) found l := by
  have hparts := hw.join j hjoin
  refine takes_token.bind ?_
  simp only [Join.tokens, List.cons_append, current_cons, ofWord?_joinWord, hparts.2.1]
  refine takes_bump.bind ?_
  have hopen : current ((if j.labels = ["*"] then ["(", "*", ")"] else labelTokens j.labels) ++
      t :: l) = "(" := by
    split <;> rfl
  have hlead : Reads (fun _ => True) False joinLead (t :: l) none l :=
    (takes_isWord ht).ifTrue (takes_bump.bind (fails_stringExpr hl .empty l).fails_bind)
  exact (takes_isToken hopen).ifTrue ((takes_joinLabels (h.join j hjoin) _).bind hlead.fails_bind)

/-- Without matching the next word is a `bool`, or one for matching, which wants labels. -/
theorem reads_firstMore (hw : b.WellFormed) (hmatching : b.matching = none) (ht : b.takesMore t) :
    Reads (fun _ => True) (b.asBool = false ∧ sameWord t "bool" ∧ b.op.isComparison)
      (modifiers b.op) (b.modifierTokens ++ t :: l) ⟨b.op, true, none, none, none, false⟩ l := by
  have hjoin := hw.join_eq_none hmatching
  have hlead := hw.joinLead_eq_none hjoin
  simp only [BinaryOp.modifierTokens, hmatching, hjoin, hlead, optionTokens, List.append_nil]
  by_cases hword : (!b.asBool && sameWord t "bool") = true
  · rw [Bool.and_eq_true, Bool.not_eq_true'] at hword
    simp only [hword.1, Bool.false_eq_true, if_false, List.nil_append]
    refine Reads.congr (p := b.op.isComparison) ?_ (by simp [hword.2])
    refine (reads_boolMore b.op hword.2).bind (takes_token.bind ?_)
    simp only [hl.notWord.2.1]
    exact takes_pure
  · have hkind : (MatchingKind.ofWord? t).isSome := by
      simpa [BinaryOp.takesMore, hmatching, hword] using ht
    obtain ⟨kind, hkind⟩ := Option.isSome_iff_exists.1 hkind
    have hbool := takes_boolModifier hw (s := t :: l) fun hplain => by
      simpa [hplain] using hword
    have hnever : False ↔ b.asBool = false ∧ sameWord t "bool" ∧ b.op.isComparison := by
      refine ⟨False.elim, fun hall => hword ?_⟩
      simp [hall.1, hall.2.1]
    refine Reads.congr (p := False) (hbool.bind (takes_token.bind ?_)) hnever
    simp only [current_cons, hkind]
    exact takes_bump.bind (fails_labels hl false [] l).fails_bind

omit hl in
/-- Behind the matching the join is read. -/
theorem reads_matchedModifiers {p : Prop} {m : Matching} {s : List String}
    {found : Option Join × Option StringExpr} (hw : b.WellFormed) (hm : LegibleLabels m.labels)
    (h : Reads (fun _ => True) p (join b.op) s found l) :
    Reads (fun _ => True) p (modifiers b.op)
      ((if b.asBool then ["bool"] else []) ++ (m.tokens ++ s))
      ⟨b.op, b.asBool, some m, found.1, found.2, false⟩ l := by
  have hbool := takes_boolModifier hw (s := m.tokens ++ s) fun _ => by
    simp only [Matching.tokens, List.cons_append, current_cons]
    cases m.kind <;> decide
  refine hbool.bind (takes_token.bind ?_)
  simp only [Matching.tokens, List.cons_append, current_cons, ofWord?_matchingWord]
  exact takes_bump.bind ((takes_labels hm false).bind (h.bind takes_pure))

omit hl in
/-- The modifiers with one more word: they are refused, or the operator is another one. -/
theorem reads_modifiersMore (hw : b.WellFormed) (h : b.Legible) (ht : b.takesMore t) :
    ∃ p b', (p → b'.WellFormed ∧ ∀ keepNames, { b' with keepNames } ≠ b) ∧ ∀ l, OpensFilters l →
      Reads (fun _ => True) p (modifiers b.op) (b.modifierTokens ++ t :: l) b' l := by
  cases hmatching : b.matching with
  | none =>
      refine ⟨_, _, fun hop => ⟨?_, ?_⟩, fun l hl => reads_firstMore hl hw hmatching ht⟩
      · exact ⟨fun _ => hop.2.2, by simp, by simp, by simp⟩
      · intro keepNames heq
        have hsame := congrArg BinaryOp.asBool heq
        rw [hop.1] at hsame
        cases hsame
  | some m =>
      have hm := h.matching m hmatching
      cases hjoin : b.join with
      | none =>
          -- The word is one for a join, which may have no labels.
          have hlead := hw.joinLead_eq_none hjoin
          have hside : (JoinSide.ofWord? t).isSome := by
            simpa [BinaryOp.takesMore, hmatching, hjoin] using ht
          obtain ⟨side, hside⟩ := Option.isSome_iff_exists.1 hside
          simp only [BinaryOp.modifierTokens, hmatching, hjoin, hlead, optionTokens,
            List.append_nil, List.append_assoc]
          refine ⟨_, _, fun hop => ⟨?_, ?_⟩,
            fun l hl => reads_matchedModifiers hw hm (reads_joinMore hl b.op hside)⟩
          · exact ⟨hw.asBool, fun m' hm => hw.matching m' (hmatching ▸ hm), by simp [hop], by simp⟩
          · intro keepNames heq
            have hsame := congrArg BinaryOp.join heq
            rw [hjoin] at hsame
            cases hsame
      | some j =>
          have hword : b.joinLead = none ∧ sameWord t "prefix" := by
            simpa [BinaryOp.takesMore, hmatching, hjoin] using ht
          simp only [BinaryOp.modifierTokens, hmatching, hjoin, hword.1, optionTokens,
            List.append_nil, List.append_assoc]
          exact ⟨False, _, False.elim, fun l hl =>
            reads_matchedModifiers hw hm (fails_leadMore hl hw h hjoin hword.2 (none, none))⟩

end Reader

namespace Reader

/-- An operator in parentheses, with the mark that the names of metrics are kept. -/
theorem reads_keptOperand {E : ParseError → Prop} {p : Prop} {budget : Nat} {ts l : List String}
    {b : BinaryOp} {x y : Expr} (hstart : ts ≠ [] ∧ StartsOperand (current ts))
    (h : ∀ l, current l ∈ Expr.exprEnds →
      Reads E p (expression budget) (ts ++ l) (.binary b x y) l)
    (hl : current l ∈ Expr.exprEnds) :
    Reads E p (expression (budget + 4)) ("(" :: (ts ++ ")" :: "keep_metric_names" :: l))
      (.tuple [.binary { b with keepNames := true } x y]) l := by
  have hends := not_operator_exprEnds _ hl
  exact reads_loneOperand (Expr.notTemplates_paren _)
    (Grammar.reads_markedParens (Expr.readsItem_of_starts hstart h))
    (Grammar.not_range_operandEnds _ hends.2.1).2.2.2.1 hends.1

end Reader

namespace Expr

/-! ## Rollups that hide a modifier -/

section Hides

variable {b : BinaryOp} {name : String} {r e' : Expr}

theorem fails_bracket (budget : Nat) {s m : List String} {e : Expr} :
    Reads (fun _ => True) False (Reader.operand (budget + 4)) ("[" :: s) e m := by
  have hclass : isPositiveDuration "[" = false ∧ startsNumber "[".toList = false ∧
      Grammar.isNumberWord "[" = false ∧ startsQuoted "[".toList = false ∧
      startsIdent "[".toList = false ∧ ("[" == "") = false ∧ ("[" == "(") = false ∧
      ("[" == "\x7b") = false ∧ ("[" == "-") = false ∧ ("[" == "+") = false := by
    decide
  have hbare : Reads (fun _ => True) False (Reader.grammar budget).bareOperand ("[" :: s) e m := by
    refine Reader.takes_token.bind ?_
    simp only [current_cons, hclass, Bool.or_self]
    exact Reader.fails_unexpected _ _
  rw [Reader.operand_add]
  have hstart : NotTemplates ("[" :: s) := notTemplates_of_current (by decide) s
  exact (Grammar.takes_atTemplates hstart).ifFalse hbare.fails_bind

/-- Without its name a rollup of a selector with filters is read as one of the filters, and one of a
selector without them is refused. -/
theorem reads_namelessRollup {groups : List (List LabelFilter)} {range : Range}
    (hgroups : LegibleGroups groups) (hfull : ∀ g ∈ groups, g ≠ []) (hwindow : LegibleWindow range)
    (hoffset : range.offset = none) (hvisible : range.windowTokens ≠ []) :
    ∃ p e, ∀ budget l, current l ∈ exprEnds →
      Reads (fun _ => True) p (Reader.operand (budget + 4))
        ((if groups.isEmpty then [] else groupTokens groups) ++ (range.windowTokens ++ l)) e l := by
  obtain ⟨s, hs⟩ := Range.windowTokens_start hvisible
  -- A window without anything before it is no operand.
  by_cases hempty : groups.isEmpty
  · refine ⟨False, tuple [], fun budget l _ => ?_⟩
    rw [if_pos hempty, hs]
    exact fails_bracket budget
  · refine ⟨True, rollup (selector ⟨groups⟩) range.reread none, fun budget l hl => ?_⟩
    have hends := Reader.not_operator_exprEnds _ hl
    have htokens : range.windowTokens ++ l = range.tokens ++ l := by
      simp [Range.tokens, hoffset, optionTokens]
    have hrange : Grammar.startsRange (current (range.windowTokens ++ l)) := by
      have hbracket : Grammar.startsRange "[" := by decide
      rw [hs]
      exact hbracket
    have hbare : Takes (Reader.grammar budget).bareOperand
        (groupTokens groups ++ (range.windowTokens ++ l)) (selector ⟨groups⟩)
        (range.windowTokens ++ l) :=
      Grammar.reads_brace (Reader.takes_namelessMetric hgroups hfull)
    have hrollup : Takes ((Reader.grammar budget).rollup (selector ⟨groups⟩))
        (range.windowTokens ++ l) (rollup (selector ⟨groups⟩) range.reread none) l := by
      rw [htokens]
      refine Grammar.reads_rollup _ hwindow.readable (by simp [hoffset]) hends.2.1 ?_ (.inr ⟨rfl, rfl⟩)
      exact Grammar.takes_noTime (Grammar.not_range_operandEnds _ hends.2.1).2.1
    rw [if_neg hempty, Reader.operand_add]
    exact (Grammar.reads_rangedOperand (notTemplates_of_current (by decide) _)
      (hbare.reads trivial) hrange (hrollup.reads trivial)).congr (by simp)

variable (hname : IsMetricName name) (hwellFormed : b.WellFormed) (hlegible : b.Legible)
  (hreadable : r.Readable) (hhides : HidesModifier b r)
include hname hwellFormed hlegible hreadable hhides

/-- The word that is hidden goes to the operator, and what is left is its right operand. -/
theorem reads_hidden : ∃ (p : Prop) (b' : BinaryOp) (right : Expr),
    (p → b'.WellFormed ∧ ∀ keepNames, { b' with keepNames } ≠ b) ∧
      ∀ budget l, current l ∈ exprEnds → Reads (fun _ => True) p (Reader.expression (budget + 8))
        ((selector (.ofName name)).tokens ++ (b.tokens ++ (rightTokens r ++ l)))
        (binary { b' with keepNames := false } (selector (.ofName name)) right) l := by
  unfold HidesModifier at hhides
  split at hhides
  case h_2 => exact hhides.elim
  case h_1 s range =>
    obtain ⟨hoffset, word, hword, hmore⟩ := hhides
    have hparts := allNodes_rollup.1 hreadable
    have hrollup : LegibleRollup (selector s) range none := hparts.1
    have hselector : LegibleSelector s := hparts.2.1.self
    have hfound : s.name? = some word := hword
    have htokens : rightTokens (rollup (selector s) range none) = escapeIdent word ::
        ((if s.writtenGroups.isEmpty then [] else groupTokens s.writtenGroups) ++
          range.windowTokens) := by
      simp [rightTokens, rightNeedsParens, parenTokens, tokens, innerNeedsParens, Selector.tokens,
        Range.tokens, tokensOfTime, optionTokens, hoffset, hfound]
    have hvisible : range.windowTokens ≠ [] := by
      simpa [Range.tokens, hoffset, optionTokens, tokensOfTime] using hrollup.visible
    -- The name goes to the modifiers, and what is left is a selector without a name.
    obtain ⟨p, b', hother, hmodifiers⟩ := Reader.reads_modifiersMore hwellFormed hlegible hmore
    obtain ⟨q, right, hright⟩ := reads_namelessRollup hselector.groups ne_nil_of_mem_writtenGroups
      hrollup.window hoffset hvisible
    refine ⟨p ∧ q, b', right, fun hpq => hother hpq.1, fun budget l hl => ?_⟩
    have hmetric := OverMetrics.metric hname
    have hleft := (readsBack_selector (E := fun _ => True) trivial hmetric.readable).operand rfl
      (budget + 8) _ (mem_operandEnds b (rightTokens (rollup (selector s) range none) ++ l))
      (hmetric.standsBefore (b := b) rfl _)
    have hopens : OpensFilters
        ((if s.writtenGroups.isEmpty then [] else groupTokens s.writtenGroups) ++
          (range.windowTokens ++ l)) := by
      obtain ⟨window, hwindow⟩ := Range.windowTokens_start hvisible
      split
      · exact .inr (by rw [hwindow]; rfl)
      · exact .inl rfl
    have hchain : Reads (fun _ => True) (p ∧ q) (Reader.chain (budget + 8) (selector (.ofName name)))
        (b.tokens ++ (rightTokens (rollup (selector s) range none) ++ l))
        (binary { b' with keepNames := false } (selector (.ofName name)) right) l := by
      rw [htokens, List.cons_append, List.append_assoc]
      exact Reader.reads_link (budget + 7) b.op (selector (.ofName name))
        (hmodifiers _ hopens) (hright (budget + 3) l hl) hl
    have hwritten : (selector (.ofName name)).written = selector (.ofName name) := by
      rw [written, Selector.reread_ofName hname.legible.ne_empty]
    rw [hwritten] at hleft
    exact (reads_bind hleft hchain).congr (by simp [cost, nestingCost])

omit hname hwellFormed hlegible hreadable hhides in
theorem expandTemplates_binary_error {l x : Expr} {cause : ParseError}
    (hl : l.expandTemplates = .ok x) (hr : r.expandTemplates = .error cause) :
    (binary b l r).expandTemplates = .error cause := by
  unfold expandTemplates at hl hr ⊢
  simp only [expandWith, hl, hr, Bind.bind, Except.bind]

/-- The text of an operator before a rollup that hides a modifier is read as another operator, or
refused. -/
theorem ofText_hidden :
    (∃ (b' : BinaryOp) (right : Expr), b'.WellFormed ∧ (∀ keepNames, { b' with keepNames } ≠ b) ∧
        ofText (binary b (selector (.ofName name)) r).render =
          .ok (inParens b.keepNames
            (binary { b' with keepNames := b.keepNames } (selector (.ofName name)) right))) ∨
      ∃ cause, ofText (binary b (selector (.ofName name)) r).render = .error cause := by
  have hmetric := (OverMetrics.metric hname).readable
  have hspelled : (binary b (selector (.ofName name)) r).Spelled :=
    allNodes_binary.2 ⟨isSpelled_binary hwellFormed hlegible _ _, spelled_of_readable hmetric,
      spelled_of_readable hreadable⟩
  obtain ⟨p, b', right, hother, hread⟩ := reads_hidden hname hwellFormed hlegible hreadable hhides
  have hexpression : Reads (fun _ => True) p (Reader.expression depthBudget)
      (binary b (selector (.ofName name)) r).tokens
      (inParens b.keepNames
        (binary { b' with keepNames := b.keepNames } (selector (.ofName name)) right)) [] := by
    -- With the mark the operator stands in parentheses, which the other one gets as well.
    cases hkeep : b.keepNames with
    | false =>
        have hplain : Reads _ p (Reader.expression depthBudget) _ _ _ :=
          hread (depthBudget - 8) [] (by decide)
        simpa [tokens, hkeep, leftNeedsParens, parenTokens, rightTokens, inParens] using hplain
    | true =>
        have hstart := start_append (tokens_start hmetric) (b.tokens ++ rightTokens r)
        have hkept : Reads _ p (Reader.expression depthBudget) _ _ _ :=
          Reader.reads_keptOperand (l := []) hstart (fun l hl => by
            rw [List.append_assoc, List.append_assoc]
            exact hread (depthBudget - 12) l hl) (by decide)
        simpa [tokens, hkeep, leftNeedsParens, parenTokens, rightTokens, inParens] using hkept
  have htext := ofText_of_reads (texts_render hspelled) hexpression
  by_cases hp : p
  · exact .inl ⟨b', right, (hother hp).1, (hother hp).2, htext.1 hp⟩
  · obtain ⟨cause, herror, -⟩ := htext.2 hp
    exact .inr ⟨cause, herror⟩

theorem not_same_hidden (hparse : parse (binary b (selector (.ofName name)) r).render = .ok e') :
    e'.same (binary b (selector (.ofName name)) r) = false := by
  rcases ofText_hidden hname hwellFormed hlegible hreadable hhides with
    ⟨b', right, hwell, hne, hread⟩ | ⟨cause, herror⟩
  · have hexpand : (inParens b.keepNames
        (binary { b' with keepNames := b.keepNames } (selector (.ofName name)) right)).expandTemplates
          >>= normalize = .ok e' := by
      rw [← hparse, parse, hread]
      rfl
    rw [expandTemplates_inParens] at hexpand
    cases hright : right.expandTemplates with
    | error cause =>
        rw [expandTemplates_binary_error (expandTemplates_metric name) hright] at hexpand
        cases hexpand
    | ok y =>
        rw [expandTemplates_binary (hwell.withKeepNames _) (expandTemplates_metric name) hright]
          at hexpand
        rcases normalize_eq_ok_iff.1 hexpand with ⟨-, rfl, -⟩
        have hother := beq_eq_false_iff_ne.2 (hne b.keepNames)
        change ({ b' with keepNames := b.keepNames } == b && _ && _) = false
        rw [hother]
        rfl
  · rw [parse, herror] at hparse
    cases hparse

end Hides
end Expr

/-! ## Right operands -/

/-- The text of an operator behind the name of a metric stands for the operator, if the text of the
right operand stands for that operand, as long as no rollup hides a modifier there.  Where one does,
the text never stands for the operator. -/
theorem parse_render_rightOperand {query : String} {b : BinaryOp} {name : String} {r r' : Expr}
    (hparse : parse query = .ok (.binary b (.selector (.ofName name)) r)) (hlegible : b.Legible)
    (hname : IsMetricName name) (hreadable : r.Readable) (hself : parse r.render = .ok r')
    (hsame : r'.same r) :
    let e := Expr.binary b (.selector (.ofName name)) r
    (¬Expr.HidesModifier b r → (∃ e', parse e.render = .ok e' ∧ e'.same e) ∨ IsTooNested e.render) ∧
      (Expr.HidesModifier b r → ∀ e', parse e.render = .ok e' → e'.same e = false) := by
  intro e
  have hwellFormed : b.WellFormed := (wellFormed_parse hparse e .refl).expanded
  have hmetric := Expr.OverMetrics.metric hname
  constructor
  · intro hvisible
    have hbinary : Expr.LegibleBinary b (.selector (.ofName name)) r :=
      ⟨hwellFormed, hlegible, fun hneeded => hmetric.standsBefore hneeded _,
        fun _ hminus => absurd hminus (by simp [Expr.isNegative]),
        Expr.takesMore_rightTokens hreadable hvisible⟩
    have hall : e.Readable := Expr.allNodes_binary.2 ⟨hbinary, hmetric.readable, hreadable⟩
    have hleft : parse (Expr.selector (.ofName name)).render = .ok (.selector (.ofName name)) := by
      have hselector := parse_render_selector hname.legibleSelector
      rwa [Selector.reread_ofName hname.legible.ne_empty] at hselector
    refine (Expr.parse_render_binary hall hleft hself).imp_left fun hok => ⟨_, hok, ?_⟩
    exact Expr.same_binary_iff.2 ⟨_, r', rfl, Expr.same_selector_iff.2 rfl, hsame⟩
  · exact fun hhides e' => Expr.not_same_hidden hname hwellFormed hlegible hreadable hhides

/-- A rollup of a metric with the name of a modifier that may not stand where it is. -/
def matchedQuery : String :=
  "foo * on(job) (ignoring[5m])"

/-- The rollup of a metric. -/
def metricWindow (name : String) : Expr :=
  .rollup (.selector (.ofName name)) ⟨some ⟨"5m", false⟩, none, none, false⟩ none

theorem parse_metricWindow (query : String) (b : BinaryOp) (name other : String)
    (h : (parse query).toOption.any
      (·.same (.binary b (.selector (.ofName name)) (metricWindow other)))) :
    parse query = .ok (.binary b (.selector (.ofName name)) (metricWindow other)) := by
  rcases (Option.any_eq_true _ _).1 h with ⟨e, he, hsame⟩
  rcases Expr.same_binary_iff.1 hsame with ⟨l, r, rfl, hleft, hright⟩
  rw [Expr.same_selectorRange_iff.1 hright, Expr.same_selector_iff.1 hleft] at he
  exact toOption_eq_some_iff.1 he

theorem readable_metricWindow {name : String} (h : IsMetricName name) :
    (metricWindow name).Readable := by
  have hduration : LegibleDuration ⟨"5m", false⟩ := legibleDuration_of_positive (by decide)
  refine Expr.allNodes_rollup.2 ⟨⟨⟨?_, by simp⟩, by simp, by simp, by decide, rfl, by simp⟩,
    (Expr.OverMetrics.metric h).readable, by simp⟩
  intro d hd
  cases hd
  exact hduration

theorem parse_render_rightOperand_ignoring :
    parse matchedQuery = .ok (.binary timesOnJob (.selector (.ofName "foo"))
        (metricWindow "ignoring")) ∧
      ¬Expr.HidesModifier timesOnJob (metricWindow "ignoring") ∧
      ∃ e', parse (Expr.binary timesOnJob (.selector (.ofName "foo"))
          (metricWindow "ignoring")).render = .ok e' ∧
        e'.same (.binary timesOnJob (.selector (.ofName "foo")) (metricWindow "ignoring")) := by
  have hparse := parse_metricWindow matchedQuery timesOnJob "foo" "ignoring" (by decide +kernel)
  have hvisible : ¬Expr.HidesModifier timesOnJob (metricWindow "ignoring") := by
    rintro ⟨-, name, hname, hmore⟩
    rw [Selector.name?_ofName (by decide)] at hname
    cases hname
    revert hmore
    decide +kernel
  refine ⟨hparse, hvisible, ?_⟩
  have hruns : (parse (metricWindow "ignoring").render).toOption.any
        (·.same (metricWindow "ignoring")) ∧
      (parse (Expr.binary timesOnJob (.selector (.ofName "foo"))
        (metricWindow "ignoring")).render).isOk := by
    decide +kernel
  rcases (Option.any_eq_true _ _).1 hruns.1 with ⟨r', hright, hsame⟩
  have hread := (parse_render_rightOperand hparse legible_timesOnJob
    (isMetricName_of_plain (by simp)) (readable_metricWindow (isMetricName_of_plain (by simp)))
    (toOption_eq_some_iff.1 hright) hsame).1 hvisible
  exact hread.resolve_right (not_isTooNested hruns.2)

/-- A rollup of a metric named `on` has no parentheses behind a plus. -/
theorem not_parse_render_rightOperand :
    ¬∀ (query : String) (b : BinaryOp) (name : String) (r : Expr),
      parse query = .ok (.binary b (.selector (.ofName name)) r) → IsMetricName name →
      isFunctionName name = false → Expr.isModifierWord name = false → b.joinLead = none →
      r.isBinary = false →
      (∀ inner range time, r = .rollup inner range time →
        range.step = none ∧ range.inheritStep = false ∧ range.offset = none ∧ time = none) →
      ∃ e', parse (Expr.binary b (.selector (.ofName name)) r).render = .ok e' ∧
        e'.same (.binary b (.selector (.ofName name)) r) := by
  intro hclaim
  have hparse := parse_metricWindow "foo + (on[5m])" (.plain .add) "foo" "on" (by decide +kernel)
  have hfoo : IsMetricName "foo" := isMetricName_of_plain (by simp)
  have hon : IsMetricName "on" := isMetricName_of_plain (by simp)
  have hmore : (BinaryOp.plain .add).takesMore (escapeIdent "on") := by decide +kernel
  have hhides : Expr.HidesModifier (.plain .add) (metricWindow "on") :=
    ⟨rfl, "on", Selector.name?_ofName (by decide), hmore⟩
  have hrange : ∀ inner range time, metricWindow "on" = .rollup inner range time →
      range.step = none ∧ range.inheritStep = false ∧ range.offset = none ∧ time = none := by
    intro inner range time heq
    cases heq
    exact ⟨rfl, rfl, rfl, rfl⟩
  rcases hclaim _ _ _ _ hparse hfoo (by decide) (by decide) rfl rfl hrange with
    ⟨e', hread, hsame⟩
  have hother := Expr.not_same_hidden hfoo (BinaryOp.wellFormed_plain .add)
    (BinaryOp.legible_plain .add) (readable_metricWindow hon) hhides hread
  rw [hother] at hsame
  cases hsame

end SeriesQuery
