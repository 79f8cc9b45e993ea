import SeriesQuery.Proofs.BinaryTrees
import SeriesQuery.Proofs.Concatenations
import SeriesQuery.Proofs.Precedence

/-!
# Left operands and their parentheses

The text of an operator puts parentheses around a left operand that is an operator or a rollup with
an offset or a time, and around a negative number before `^`.  A query is read by rules that take as
much as they can, and three kinds of left operand run on over what stands behind them: negative
numbers, strings, and metrics with the name of an aggregate (`Expr.RunsOn`).  Where such an operand
lacks its parentheses the text is read as something else or refused; with all others the text of an
operator before the name of a metric stands for the operator (`parse_render_leftOperand`).
-/

namespace SeriesQuery

open Text

/-- The error says that a query is nested too deep, be it in the time of a rollup. -/
inductive ParseError.OfNesting : ParseError → Prop where
  | tooNested : OfNesting (.tooNested maxDepth)
  | atExpr {cause : ParseError} : OfNesting cause → OfNesting (.atExpr cause)

/-- The query is refused for its nesting. -/
def IsTooNested (query : String) : Prop :=
  ∃ cause, parse query = .error cause ∧ cause.OfNesting

theorem not_isTooNested {query : String} (h : (parse query).isOk) : ¬IsTooNested query := by
  rintro ⟨cause, herror, -⟩
  rw [herror] at h
  cases h

namespace Expr

/-! ## Texts of operators -/

section Operators

variable {b : BinaryOp} {l r x y : Expr}

theorem expandTemplates_inParens (needed : Bool) (e : Expr) :
    (inParens needed e).expandTemplates = e.expandTemplates := by
  cases needed with
  | false => rfl
  | true =>
      change ofItems <$> expandListWith _ _ [e] = e.expandTemplates
      simp only [expandListWith, expandTemplates]
      cases expandWith (enterTemplate maxExpansionDepth) builtinScope e <;> rfl

theorem expandTemplates_binary (hb : b.WellFormed) (hl : l.expandTemplates = .ok x)
    (hr : r.expandTemplates = .ok y) :
    (binary b l r).expandTemplates = .ok (binary b x y) := by
  unfold expandTemplates at hl hr ⊢
  simp only [expandWith, hl, hr, Bind.bind, Except.bind, expandOperator_builtinScope hb]
  rfl

theorem normalize_eq_ok_iff {e e' : Expr} : normalize e = .ok e' ↔
    e.exceeds depthBudget = false ∧ e.dropParens.foldConstants = e' ∧
      e'.checkFunctions = .ok () := by
  unfold normalize
  cases e.exceeds depthBudget with
  | true => simp
  | false =>
      simp only [Bool.false_eq_true, if_false, true_and]
      cases hcheck : e.dropParens.foldConstants.checkFunctions with
      | error cause =>
          simp only [Bind.bind, Except.bind, reduceCtorEq, false_iff, not_and]
          rintro rfl
          simp [hcheck]
      | ok _ =>
          simp only [Bind.bind, Except.bind, pure, Except.pure, Except.ok.injEq]
          exact ⟨fun heq => ⟨heq, heq ▸ hcheck⟩, fun h => h.1⟩

/-- What is in simple form once it is simplified is refused for its nesting only. -/
theorem normalize_or_tooNested {e e' : Expr} (hsimple : e.dropParens.foldConstants = e')
    (hcheck : e'.checkFunctions = .ok ()) :
    normalize e = .ok e' ∨ normalize e = .error (.tooNested maxDepth) := by
  cases hexceeds : e.exceeds depthBudget with
  | true =>
      right
      rw [normalize, hexceeds]
      rfl
  | false => exact .inl (normalize_eq_ok_iff.2 ⟨hexceeds, hsimple, hcheck⟩)

theorem checkFunctions_foldBinary (b : BinaryOp) (hl : l.checkFunctions = .ok ())
    (hr : r.checkFunctions = .ok ()) : (foldBinary b l r).checkFunctions = .ok () := by
  rcases foldBinary_cases b l r with heq | ⟨x, heq⟩ | ⟨value, heq⟩ <;> rw [heq]
  · rw [checkFunctions, hl, hr]
    rfl
  · rfl
  · rfl

/-- The operator with its operands in simple form. -/
theorem normalize_binary {l' r' : Expr} (hl : normalize l = .ok l') (hr : normalize r = .ok r') :
    normalize (binary b l r) = .ok (foldBinary b l' r') ∨
      normalize (binary b l r) = .error (.tooNested maxDepth) := by
  rcases normalize_eq_ok_iff.1 hl with ⟨-, hleft, hcheckLeft⟩
  rcases normalize_eq_ok_iff.1 hr with ⟨-, hright, hcheckRight⟩
  refine normalize_or_tooNested ?_ (checkFunctions_foldBinary b hcheckLeft hcheckRight)
  rw [dropParens, foldConstants, hleft, hright]

/-- The text of an expression that can be read back stands for what is read from it, unless it is
nested too deep. -/
theorem parse_render_of_readable {e : Expr} (h : e.Readable) :
    parse e.render = e.written.expandTemplates >>= normalize ∨ IsTooNested e.render := by
  have hread : e.ReadsBack ParseError.OfNesting := readsBack .tooNested (fun _ => .atExpr) h
  have htext := hread.ofText_render (spelled_of_readable h)
  by_cases hfits : e.cost ≤ depthBudget
  · left
    rw [parse, htext.1 hfits]
    rfl
  · rcases htext.2 hfits with ⟨cause, heq, hcause⟩
    refine .inr ⟨cause, ?_, hcause⟩
    rw [parse, heq]
    rfl

/-- What the text of an expression stands for comes from what is read from it. -/
theorem exists_normalize_of_parse_render {e e' : Expr} (h : e.Readable)
    (hparse : parse e.render = .ok e') :
    ∃ x, e.written.expandTemplates = .ok x ∧ normalize x = .ok e' := by
  rcases parse_render_of_readable h with heq | ⟨cause, heq, -⟩
  · rw [heq] at hparse
    cases hexpand : e.written.expandTemplates with
    | error cause =>
        rw [hexpand] at hparse
        cases hparse
    | ok x =>
        rw [hexpand] at hparse
        exact ⟨x, rfl, hparse⟩
  · rw [heq] at hparse
    cases hparse

/-- The text of an operator stands for the operator on what the texts of its operands stand for. -/
theorem parse_render_binary {l' r' : Expr} (h : (binary b l r).Readable)
    (hl : parse l.render = .ok l') (hr : parse r.render = .ok r') :
    parse (binary b l r).render = .ok (foldBinary b l' r') ∨ IsTooNested (binary b l r).render := by
  have hparts := allNodes_binary.1 h
  have hlegible : LegibleBinary b l r := hparts.1
  rcases exists_normalize_of_parse_render hparts.2.1 hl with ⟨x, hexpandLeft, hleft⟩
  rcases exists_normalize_of_parse_render hparts.2.2 hr with ⟨y, hexpandRight, hright⟩
  have hexpand : (binary b l r).written.expandTemplates = .ok (binary b x y) := by
    have hnode : (binary b l r).written = inParens b.keepNames
        (binary b (inParens (l.leftNeedsParens b.op) l.written)
          (inParens r.rightNeedsParens r.written)) := rfl
    rw [hnode, expandTemplates_inParens]
    exact expandTemplates_binary hlegible.wellFormed (by rwa [expandTemplates_inParens])
      (by rwa [expandTemplates_inParens])
  rcases parse_render_of_readable h with heq | hdeep
  · have hstep : (binary b l r).written.expandTemplates >>= normalize =
        normalize (binary b x y) := by
      rw [hexpand]
      rfl
    rw [hstep] at heq
    rcases normalize_binary (b := b) hleft hright with hok | herror
    · exact .inl (heq.trans hok)
    · exact .inr ⟨_, heq.trans herror, .tooNested⟩
  · exact .inr hdeep

end Operators

/-! ## Operands that run on -/

/-- Without parentheses a part of the operand goes with the operator behind it: a minus stands
before all that binds closer than it, a plus and a name go on with a string, and in front of a word
the name of an aggregate is not that of a metric. -/
def RunsOn (b : BinaryOp) : Expr → Prop
  | number n => isNegated n.render ∧ Operator.sub.yieldsTo b.op
  | string _ => b.op = .add ∧ b.matching = none
  | selector s => s.writtenGroups = [] ∧ (∃ name ∈ s.name?, isAggregateName name) ∧
      startsIdent b.op.symbol.toList
  | _ => False

/-- The left operand has no parentheses, and needs some. -/
def LacksParens (b : BinaryOp) (l : Expr) : Prop :=
  l.leftNeedsParens b.op = false ∧ l.RunsOn b

/-- A plus with modifiers does not go on with a string. -/
theorem continues_operator {b : BinaryOp} (hwellFormed : b.WellFormed)
    (h : ¬(b.op = .add ∧ b.matching = none)) (l : List String) :
    continues (b.tokens ++ l) = false := by
  by_cases hop : b.op = .add
  · have hbool := hwellFormed.asBool_eq_false (by rw [hop]; rfl)
    cases hmatching : b.matching with
    | none => exact absurd ⟨hop, hmatching⟩ h
    | some m =>
        have hkinds : ∀ kind : MatchingKind, startsQuoted kind.word.toList = false := by
          intro kind
          cases kind <;> decide
        simp only [BinaryOp.tokens, BinaryOp.modifierTokens, hop, hbool, hmatching, optionTokens,
          Matching.tokens, labelTokens, listTokens, Operator.symbol, Bool.false_eq_true, if_false,
          List.nil_append, List.cons_append, continues, hkinds, current_cons, beq_self_eq_true,
          Bool.true_or, Bool.not_true, Bool.and_false, Bool.or_self]
  · refine continues_of_ne ?_
    have hall : ∀ op : Operator, op ≠ .add → op.symbol ≠ "+" := by
      intro op
      cases op <;> decide
    exact hall b.op hop

theorem tokens_plus {b : BinaryOp} (hwellFormed : b.WellFormed)
    (h : b.op = .add ∧ b.matching = none) : b.tokens = ["+"] := by
  rcases h with ⟨hop, hmatching⟩
  have hbool := hwellFormed.asBool_eq_false (by rw [hop]; rfl)
  have hjoin := hwellFormed.join_eq_none hmatching
  have hlead := hwellFormed.joinLead_eq_none hjoin
  simp [BinaryOp.tokens, BinaryOp.modifierTokens, hop, hmatching, hbool, hjoin, hlead, optionTokens,
    Operator.symbol]

section Metric

variable {b : BinaryOp} {l : Expr} {name : String} (hname : IsMetricName name)
  (hword : isModifierWord name = false)
include hname hword

theorem rightTokens_metric : rightTokens (selector (.ofName name)) = [escapeIdent name] := by
  have hne := hname.legible.ne_empty
  have hneeded : rightNeedsParens (selector (.ofName name)) = false := by
    simp [rightNeedsParens, Selector.name?_ofName hne, hword]
  rw [rightTokens, hneeded]
  simp [parenTokens, tokens, Selector.tokens, Selector.name?_ofName hne,
    Selector.writtenGroups_ofName hne]

/-- A left operand that runs on is all that can keep the operator from being read back. -/
theorem legibleBinary_of_not_lacksParens (hwellFormed : b.WellFormed) (hlegible : b.Legible)
    (h : ¬LacksParens b l) : LegibleBinary b l (selector (.ofName name)) := by
  refine ⟨hwellFormed, hlegible, fun hneeded => ?_, fun hneeded hminus => ?_,
    (OverMetrics.metric hname).takesMore b⟩
  · -- What does not run on ends in front of the operator.
    have hstays : ¬l.RunsOn b := fun hruns => h ⟨hneeded, hruns⟩
    rw [rightTokens_metric hname hword]
    cases l with
    | number n =>
        have hall : ∀ op : Operator, Grammar.startsRange op.symbol = false := by
          intro op
          cases op <;> decide
        exact fun _ => hall b.op
    | string value =>
        exact continues_operator hwellFormed hstays _
    | selector s =>
        intro hgroups haggregate hident
        exact absurd ⟨hgroups, haggregate, hident⟩ hstays
    | rollup inner range time =>
        intro htime
        have hparens : (range.offset.isSome || time.isSome) = false := hneeded
        rw [htime, Bool.or_true] at hparens
        cases hparens
    | _ => trivial
  · cases l with
    | number n =>
        rw [Bool.eq_false_iff]
        exact fun hyields => h ⟨hneeded, hminus, hyields⟩
    | _ => cases hminus

end Metric

/-! ## Operands that run on are read otherwise -/

theorem expandTemplates_metric (name : String) :
    (selector (.ofName name)).expandTemplates = .ok (selector (.ofName name)) :=
  expandName_builtinScope _

section RunsOn

variable {b : BinaryOp} {l e' : Expr} {name : String} (hname : IsMetricName name)
  (hword : isModifierWord name = false) (hwellFormed : b.WellFormed) (hlegible : b.Legible)
include hname hwellFormed hlegible

theorem spelled_leftOperand (hl : l.Readable) :
    (binary b l (selector (.ofName name))).Spelled :=
  allNodes_binary.2 ⟨isSpelled_binary hwellFormed hlegible _ _, spelled_of_readable hl,
    spelled_of_readable (OverMetrics.metric hname).readable⟩

include hword

/-! ### Negative numbers -/

/-- The operator on the number without its sign, below the minus. -/
def belowMinus (b : BinaryOp) (n : NumberLiteral) (r : Expr) : Expr :=
  binary { BinaryOp.plain .sub with keepNames := b.keepNames } (.ofFloat 0.0)
    (binary { b with keepNames := false } (number (numeralOf (magnitude n.render))) r)

/-- A minus takes the number away from an operator that binds closer. -/
theorem ofText_negated {n : NumberLiteral} (hreadable : (number n).Readable)
    (h : LacksParens b (number n)) :
    ofText (binary b (number n) (selector (.ofName name))).render =
        .ok (inParens b.keepNames (belowMinus b n (selector (.ofName name)))) ∨
      ∃ cause, ofText (binary b (number n) (selector (.ofName name))).render = .error cause := by
  rcases h with ⟨hneeded, hminus, hyields⟩
  have hnesting : ParseError.OfNesting (.tooNested maxDepth) := .tooNested
  have hright := (OverMetrics.metric hname).readable
  have hread := reads_attached hnesting (readsBack_number hnesting hreadable)
    (readsBack_selector hnesting hright) hreadable hright hwellFormed hlegible
    (fun _ _ => (Grammar.not_range_operandEnds _ (mem_operandEnds b _)).2.2.2.1)
    ((OverMetrics.metric hname).takesMore b)
  -- The minus is the root of what is read so far, and yields to the operator behind it.
  have hattach : (inParens ((number n).leftNeedsParens b.op) (number n).written).attach
      { b with keepNames := false } (inParens (rightNeedsParens (selector (.ofName name)))
        (selector (.ofName name)).written) = binary (.plain .sub) (.ofFloat 0.0)
          (binary { b with keepNames := false } (number (numeralOf (magnitude n.render)))
            (selector (.ofName name))) := by
    have hne := hname.legible.ne_empty
    simp only [hneeded, inParens, Bool.false_eq_true, if_false, written, writtenNumber, hminus,
      if_true, attach, BinaryOp.plain, Bool.not_false, hyields, Bool.and_self,
      Selector.reread_ofName hne, rightNeedsParens, Selector.name?_ofName hne, Option.map_some,
      Option.getD_some, hword]
  simp only [hattach] at hread
  have hend : current [] ∈ exprEnds := by decide
  have hmarked := reads_marked hnesting hreadable rfl (fun b' _ => hread b') depthBudget hend
  rw [List.append_nil] at hmarked
  have htext := ofText_of_reads (texts_render (spelled_leftOperand hname hwellFormed hlegible
    hreadable)) hmarked
  -- The text may be nested too deep even so.
  by_cases hfits : parenCost b.keepNames (max (parenCost ((number n).leftNeedsParens b.op)
      (number n).cost) (1 + parenCost (rightNeedsParens (selector (.ofName name)))
        (selector (.ofName name)).cost)) ≤ depthBudget
  · exact .inl (htext.1 hfits)
  · rcases htext.2 hfits with ⟨cause, herror, -⟩
    exact .inr ⟨cause, herror⟩

theorem not_same_negated {n : NumberLiteral} (hreadable : (number n).Readable)
    (h : LacksParens b (number n))
    (hparse : parse (binary b (number n) (selector (.ofName name))).render = .ok e') :
    e'.same (binary b (number n) (selector (.ofName name))) = false := by
  rcases ofText_negated hname hword hwellFormed hlegible hreadable h with hread | ⟨cause, herror⟩
  · have hexpand :
        (inParens b.keepNames (belowMinus b n (selector (.ofName name)))).expandTemplates =
          .ok (belowMinus b n (selector (.ofName name))) := by
      rw [expandTemplates_inParens]
      refine expandTemplates_binary ((BinaryOp.wellFormed_plain .sub).withKeepNames _) rfl ?_
      exact expandTemplates_binary (hwellFormed.withKeepNames _) rfl (expandTemplates_metric name)
    rw [parse, hread] at hparse
    have hnormal : normalize (belowMinus b n (selector (.ofName name))) = .ok e' := by
      rw [← hparse]
      exact (congrArg (· >>= normalize) hexpand).symm
    rcases normalize_eq_ok_iff.1 hnormal with ⟨-, rfl, -⟩
    -- The root is a difference now, and a difference does not yield to itself.
    have hop : Operator.sub ≠ b.op := by
      intro heq
      have hyields := h.2.2
      rw [← heq] at hyields
      cases hyields
    have hne : ({ BinaryOp.plain .sub with keepNames := b.keepNames } == b) = false :=
      beq_eq_false_iff_ne.2 fun heq => hop (congrArg BinaryOp.op heq)
    change ({ BinaryOp.plain .sub with keepNames := b.keepNames } == b && _ && _) = false
    rw [hne]
    rfl
  · rw [parse, herror] at hparse
    cases hparse

end RunsOn
end Expr

/-! ### Strings -/

namespace Reader

variable {name value : String} {l : List String}

/-- A string goes on with a name behind a plus. -/
theorem takes_namedString (h : IsLegible name) (value : String) (hl : current l ∈ Expr.exprEnds) :
    Takes stringExpr (quote value :: "+" :: escapeIdent name :: l)
      ⟨[.literal value, .ident name]⟩ l := by
  have hall : ∀ t ∈ Expr.exprEnds, t ≠ "+" ∧ t ≠ "(" ∧ t ≠ "\x7b" := by decide
  rcases hall _ hl with ⟨hplus, hcall, hfilters⟩
  have hends : EndsString l := ⟨continues_of_ne hplus, hcall, hfilters⟩
  have hmerged : StringExpr.IsMerged ⟨[.literal value, .ident name]⟩ :=
    StringExpr.isMerged_ofParts [.literal value, .ident name]
  have hread := takes_merged hmerged (by simp) (by simpa using h) hends
  simpa [StringExpr.tokens, separated, Segment.render] using hread

end Reader

namespace Grammar

theorem takes_namedStringOperand {g : Grammar} {name : String} {l : List String}
    (h : IsLegible name) (value : String) (hl : current l ∈ Expr.exprEnds) :
    Takes g.bareOperand (quote value :: "+" :: escapeIdent name :: l)
      (.concat ⟨[.literal value, .ident name]⟩) l := by
  refine reads_quoted ((Reader.takes_namedString h value hl).bind ?_)
  have hliteral : (⟨[.literal value, .ident name]⟩ : StringExpr).literal? = none := by
    simp [StringExpr.literal?, StringExpr.joinLiterals]
  simp only [hliteral]
  exact takes_pure

end Grammar

namespace Reader

/-- A bare operand that neither a range nor an operator follows is an expression. -/
theorem reads_loneOperand {E : ParseError → Prop} {p : Prop} {budget : Nat} {s l : List String}
    {e : Expr} (hs : Expr.NotTemplates s) (h : Reads E p (grammar budget).bareOperand s e l)
    (hrange : Grammar.startsRange (current l) = false)
    (hstop : Operator.ofWord? (current l) = none) :
    Reads E p (expression (budget + 4)) s e l := by
  have hoperand : Reads E p (operand (budget + 4)) s e l := by
    rw [operand_add]
    exact Grammar.reads_fullOperand hs h hrange
  exact hoperand.bind (takes_chainStop _ _ hstop)

theorem takes_namedStringExpression (budget : Nat) {name : String} {l : List String}
    (h : IsLegible name) (value : String) (hl : current l ∈ Expr.exprEnds) :
    Takes (expression (budget + 4)) (quote value :: "+" :: escapeIdent name :: l)
      (.concat ⟨[.literal value, .ident name]⟩) l := by
  have hends := not_operator_exprEnds _ hl
  have hstart : Expr.NotTemplates (quote value :: "+" :: escapeIdent name :: l) :=
    (Expr.readsBack_string ParseError.OfNesting.tooNested value).start rfl rfl
      ("+" :: escapeIdent name :: l) (by rw [current_cons]; decide)
  exact reads_loneOperand hstart (Grammar.takes_namedStringOperand h value hl)
    (Grammar.not_range_operandEnds _ hends.2.1).2.2.2.1 hends.1

end Reader

namespace Expr

/-- A text is refused where tokens are left behind an expression. -/
theorem ofText_of_left {E : ParseError → Prop} {p : Prop} {text t : String} {ts l : List String}
    {e : Expr} (htexts : Lexeme.texts text.toList = (ts, true))
    (h : Reads E p (Reader.expression depthBudget) ts e (t :: l)) :
    ∃ cause, ofText text = .error cause := by
  rw [ofText, Feed.ofText_of_texts htexts]
  by_cases hp : p
  · rcases (h 0).1 hp with ⟨ahead, heq⟩
    simp only [Bind.bind, Except.bind, heq]
    exact ⟨_, rfl⟩
  · rcases (h 0).2 hp with ⟨cause, herror, -⟩
    simp only [Bind.bind, Except.bind, herror]
    exact ⟨_, rfl⟩

section RunsOn

variable {b : BinaryOp} {l e' : Expr} {name : String} (hname : IsMetricName name)
  (hword : isModifierWord name = false) (hwellFormed : b.WellFormed) (hlegible : b.Legible)
include hname hword

theorem tokens_leftOperand (h : l.leftNeedsParens b.op = false) :
    (binary b l (selector (.ofName name))).tokens =
      if b.keepNames then
        "(" :: (l.tokens ++ (b.tokens ++ [escapeIdent name]) ++ ")" :: ["keep_metric_names"])
      else l.tokens ++ (b.tokens ++ [escapeIdent name]) := by
  have hnode : (binary b l (selector (.ofName name))).tokens =
      if b.keepNames then
        "(" :: (parenTokens (l.leftNeedsParens b.op) l.tokens ++ b.tokens ++
          rightTokens (selector (.ofName name))) ++ [")", "keep_metric_names"]
      else
        parenTokens (l.leftNeedsParens b.op) l.tokens ++ b.tokens ++
          rightTokens (selector (.ofName name)) := by
    rw [tokens]
    rfl
  simp [hnode, h, parenTokens, rightTokens_metric hname hword]

include hwellFormed hlegible

/-- A plus and a name go on with the string. -/
theorem ofText_plus {value : String} (h : (string value).RunsOn b) :
    ofText (binary b (string value) (selector (.ofName name))).render =
        .ok (concat ⟨[.literal value, .ident name]⟩) ∨
      ∃ cause, ofText (binary b (string value) (selector (.ofName name))).render =
        .error cause := by
  have hreadable : (string value).Readable := (allNodes_atom rfl).2 trivial
  have htexts := texts_render (spelled_leftOperand hname hwellFormed hlegible hreadable)
  have htokens := tokens_leftOperand hname hword (b := b) (l := string value) rfl
  rw [tokens_plus hwellFormed h] at htokens
  rw [htokens] at htexts
  cases hkeep : b.keepNames with
  | false =>
      rw [hkeep] at htexts
      have hexpression := Reader.takes_namedStringExpression (l := []) (depthBudget - 4)
        hname.legible value (by decide)
      exact .inl ((ofText_of_reads htexts hexpression).1 trivial)
  | true =>
      -- The string in the parentheses has no names of metrics, and the mark is left.
      rw [hkeep] at htexts
      have hitem : Reader.ReadsItem (fun _ => False) True
          (Reader.grammar (depthBudget - 4)).expression [quote value, "+", escapeIdent name]
          (concat ⟨[.literal value, .ident name]⟩) :=
        readsItem_of_starts ⟨by simp, (tokens_start hreadable).2⟩
          fun _ => Reader.takes_namedStringExpression (depthBudget - 8) hname.legible value
      have hkept : sameWord "keep_metric_names" "keep_metric_names" := by decide
      have hbare : Takes (Reader.grammar (depthBudget - 4)).bareOperand
          ("(" :: ([quote value, "+", escapeIdent name] ++ ")" :: ["keep_metric_names"]))
          (tuple [concat ⟨[.literal value, .ident name]⟩]) ["keep_metric_names"] :=
        Grammar.reads_tuple ((Grammar.reads_argument hitem _).bind
          ((Reader.takes_isWord hkept).ifTrue takes_pure))
      have hexpression := Reader.reads_loneOperand (notTemplates_paren _) hbare (by decide)
        (by decide)
      exact .inr (ofText_of_left htexts hexpression)

theorem not_same_plus {value : String} (h : (string value).RunsOn b)
    (hparse : parse (binary b (string value) (selector (.ofName name))).render = .ok e') :
    e'.same (binary b (string value) (selector (.ofName name))) = false := by
  rcases ofText_plus hname hword hwellFormed hlegible h with hread | ⟨cause, herror⟩
  · rw [parse, hread] at hparse
    have hexpand : (concat ⟨[.literal value, .ident name]⟩).expandTemplates =
        string <$> expandString (enterTemplate maxExpansionDepth) builtinScope
          ⟨[.literal value, .ident name]⟩ := rfl
    cases hstring : expandString (enterTemplate maxExpansionDepth) builtinScope
        ⟨[.literal value, .ident name]⟩ with
    | error cause =>
        simp only [Bind.bind, Except.bind, hexpand, hstring] at hparse
        cases hparse
    | ok found =>
        simp only [Bind.bind, Except.bind, hexpand, hstring] at hparse
        have hnormal : normalize (string found) = .ok e' := hparse
        rcases normalize_eq_ok_iff.1 hnormal with ⟨-, rfl, -⟩
        rfl
  · rw [parse, herror] at hparse
    cases hparse

end RunsOn
end Expr

/-! ### Names of aggregates -/

section Fails

variable {α β : Type} {E : ParseError → Prop} {r : Reader α} {k : α → Reader β}
  {s m l : List String} {a : α} {c : β}

/-- Of a reader that fails it does not matter what it would give. -/
theorem Reads.fails (h : Reads E False r s a m) (a' : α) (l : List String) :
    Reads E False r s a' l :=
  fun ahead => ⟨False.elim, (h ahead).2⟩

/-- A reader that fails has no second step. -/
theorem Reads.fails_bind (h : Reads E False r s a m) : Reads E False (r >>= k) s c l := by
  intro ahead
  rcases (h ahead).2 not_false with ⟨cause, heq, hcause⟩
  refine ⟨False.elim, fun _ => ⟨cause, ?_, hcause⟩⟩
  change (r ⟨s, none, ahead⟩ >>= fun found => k found.1 found.2) = _
  rw [heq]
  rfl

theorem Reader.fails_unexpected (what : Construct) (wanted : String) :
    Reads (fun _ => True) False (unexpected what wanted : Reader α) s a l :=
  fun _ => ⟨False.elim, fun _ => ⟨_, rfl, trivial⟩⟩

end Fails

namespace Grammar

/-- The name of an aggregate is not read in front of a word other than those for its grouping. -/
theorem fails_aggregateName {g : Grammar} {name next : String} {s l : List String} {e : Expr}
    (h : IsLegible name) (haggregate : isAggregateName name) (hnext : startsIdent next.toList)
    (hoffset : sameWord next "offset" = false)
    (hgrouping : (sameWord next "by" || sameWord next "without") = false) :
    Reads (fun _ => True) False g.bareOperand (escapeIdent name :: next :: s) e l := by
  have hfunction := isFunctionName_of_isAggregateName haggregate
  refine reads_ident (startsIdent_escapeIdent h.ne_empty)
    (isNumberWord_of_isFunctionName h hfunction) ?_
  refine Reader.takes_token.bind ((Reader.takes_lookAt 1).bind ?_)
  have hempty : (next == "") = false := beq_eq_false_iff_ne.2 (ne_empty_of_startsIdent hnext)
  simp only [current_cons, List.getElem?_cons_succ, List.getElem?_cons_zero, Option.getD_some,
    hempty, hoffset, hnext, h.unescape, haggregate, Bool.or_self, if_true]
  refine (Reader.takes_identifier h .aggregate).bind (Reader.takes_token.bind ?_)
  simp only [current_cons, hnext, if_true]
  have hat := Reader.takes_atGrouping (s := next :: s)
  rw [current_cons, hgrouping] at hat
  exact hat.ifFalse (Reads.fails_bind (a := none) (m := []) (Reader.fails_unexpected _ _))

end Grammar

theorem Reader.fails_aggregateExpression (budget : Nat) {name next : String} {s l : List String}
    {e : Expr} (h : IsLegible name) (haggregate : isAggregateName name)
    (hnext : startsIdent next.toList) (hoffset : sameWord next "offset" = false)
    (hgrouping : (sameWord next "by" || sameWord next "without") = false) :
    Reads (fun _ => True) False (expression (budget + 4)) (escapeIdent name :: next :: s) e l := by
  have hstart : Expr.NotTemplates (escapeIdent name :: next :: s) :=
    Expr.notTemplates_of_current
      (notWith_of_isFunctionName h (isFunctionName_of_isAggregateName haggregate)) _
  have hbare : Reads _ False (grammar budget).bareOperand _ (.tuple []) [] :=
    Grammar.fails_aggregateName (s := s) h haggregate hnext hoffset hgrouping
  exact (reads_loneOperand hstart hbare (by decide) (by decide)).fails e l

namespace Expr
section RunsOn

variable {b : BinaryOp} {l e' : Expr} {name : String} (hname : IsMetricName name)
  (hword : isModifierWord name = false) (hwellFormed : b.WellFormed) (hlegible : b.Legible)
include hname hword hwellFormed hlegible

/-- In front of a word the name of an aggregate is not read as that of a metric. -/
theorem ofText_aggregateName {s : Selector} (hreadable : (selector s).Readable)
    (h : (selector s).RunsOn b) :
    ∃ cause, ofText (binary b (selector s) (selector (.ofName name))).render = .error cause := by
  rcases h with ⟨hgroups, ⟨aggregate, hmem, haggregate⟩, hsymbol⟩
  have hfound : s.name? = some aggregate := hmem
  have hlegibleName : IsLegible aggregate := (LegibleSelector.name hreadable.self aggregate hmem).1
  have htokens := tokens_leftOperand hname hword (b := b) (l := selector s) rfl
  have hselector : (selector s).tokens = [escapeIdent aggregate] := by
    simp [tokens, Selector.tokens, hfound, hgroups]
  rw [hselector] at htokens
  have hwords : ∀ op : Operator, startsIdent op.symbol.toList →
      sameWord op.symbol "offset" = false ∧
        (sameWord op.symbol "by" || sameWord op.symbol "without") = false := by
    intro op
    cases op <;> decide
  -- No operator is the word for an offset or a grouping.
  have hends := hwords b.op hsymbol
  have hfails : ∀ budget l m, Reads (fun _ => True) False (Reader.expression (budget + 4))
      ([escapeIdent aggregate] ++ (b.tokens ++ [escapeIdent name]) ++ l) (tuple []) m :=
    fun _ _ _ =>
      Reader.fails_aggregateExpression _ hlegibleName haggregate hsymbol hends.1 hends.2
  have hfailsText : Reads (fun _ => True) False (Reader.expression depthBudget)
      (binary b (selector s) (selector (.ofName name))).tokens (tuple []) [] := by
    rw [htokens]
    -- With the mark the aggregate stands inside parentheses, and is refused there.
    cases b.keepNames with
    | false =>
        have hexpression := hfails (depthBudget - 4) [] []
        rw [List.append_nil] at hexpression
        exact hexpression
    | true =>
        have hitem : Reader.ReadsItem (fun _ => True) False
            (Reader.grammar (depthBudget - 4)).expression
            ([escapeIdent aggregate] ++ (b.tokens ++ [escapeIdent name])) (tuple []) :=
          readsItem_of_starts ⟨by simp, startsOperand_escapeIdent hlegibleName.ne_empty⟩
            fun l _ => hfails (depthBudget - 8) l l
        have hbare : Reads (fun _ => True) False (Reader.grammar (depthBudget - 4)).bareOperand
            ("(" :: ([escapeIdent aggregate] ++ (b.tokens ++ [escapeIdent name]) ++
              ")" :: ["keep_metric_names"])) (tuple []) [] :=
          Grammar.reads_tuple
            (Reads.fails_bind (Grammar.reads_argument hitem ["keep_metric_names"]))
        exact Reader.reads_loneOperand (notTemplates_paren _) hbare (by decide) (by decide)
  rcases (ofText_of_reads (texts_render (spelled_leftOperand hname hwellFormed hlegible
    hreadable)) hfailsText).2 not_false with ⟨cause, herror, -⟩
  exact ⟨cause, herror⟩

end RunsOn
end Expr

/-! ## Left operands -/

/-- The text of an operator before the name of a metric stands for the operator, if the text of the
left operand stands for that operand, as long as no left operand that runs on lacks its parentheses.
Where one does, the text never stands for the operator. -/
theorem parse_render_leftOperand {query : String} {b : BinaryOp} {l l' : Expr} {name : String}
    (hparse : parse query = .ok (.binary b l (.selector (.ofName name)))) (hlegible : b.Legible)
    (hname : IsMetricName name) (hword : Expr.isModifierWord name = false) (hreadable : l.Readable)
    (hself : parse l.render = .ok l') (hsame : l'.same l) :
    let e := Expr.binary b l (.selector (.ofName name))
    (¬Expr.LacksParens b l → (∃ e', parse e.render = .ok e' ∧ e'.same e) ∨ IsTooNested e.render) ∧
      (Expr.LacksParens b l → ∀ e', parse e.render = .ok e' → e'.same e = false) := by
  intro e
  have hwellFormed : b.WellFormed := (wellFormed_parse hparse e .refl).expanded
  constructor
  · intro hparens
    have hmetric := (Expr.OverMetrics.metric hname).readable
    have hall : e.Readable := Expr.allNodes_binary.2
      ⟨Expr.legibleBinary_of_not_lacksParens hname hword hwellFormed hlegible hparens, hreadable,
        hmetric⟩
    have hright : parse (Expr.selector (.ofName name)).render = .ok (.selector (.ofName name)) := by
      have hselector := parse_render_selector hname.legibleSelector
      rwa [Selector.reread_ofName hname.legible.ne_empty] at hselector
    refine (Expr.parse_render_binary hall hself hright).imp_left fun hok => ⟨_, hok, ?_⟩
    have hfold : Expr.foldBinary b l' (.selector (.ofName name)) =
        .binary b l' (.selector (.ofName name)) := by
      cases l' <;> rfl
    rw [hfold]
    exact Expr.same_binary_iff.2 ⟨l', _, rfl, hsame, Expr.same_selector_iff.2 rfl⟩
  · rintro hlacks e' hfound
    -- Each of the three kinds that run on is read otherwise in a way of its own.
    cases l with
    | number n =>
        exact Expr.not_same_negated hname hword hwellFormed hlegible hreadable hlacks hfound
    | string value => exact Expr.not_same_plus hname hword hwellFormed hlegible hlacks.2 hfound
    | selector s =>
        rcases Expr.ofText_aggregateName hname hword hwellFormed hlegible hreadable hlacks.2 with
          ⟨cause, herror⟩
        rw [parse, herror] at hfound
        cases hfound
    | _ => exact hlacks.2.elim

/-- A rollup with an offset on the left side. -/
def shiftedQuery : String :=
  "(foo[5m] offset 1h) * on(job) bar"

/-- The rollup on the left side. -/
def shiftedRollup : Expr :=
  .rollup (.selector (.ofName "foo")) ⟨some ⟨"5m", false⟩, none, some ⟨"1h", false⟩, false⟩ none

/-- The operator between the rollup and the name of a metric. -/
def timesOnJob : BinaryOp :=
  ⟨.mul, false, some ⟨.on, ["job"]⟩, none, none, false⟩

theorem isMetricName_of_plain {name : String} (h : name ∈ ["foo", "bar", "on", "ignoring"]) :
    IsMetricName name := by
  have hall : ∀ name ∈ ["foo", "bar", "on", "ignoring"],
      (name ≠ "" ∧ ∀ c ∈ name.toList, c.toNat < 0xF0000) ∧
        Grammar.isNumberWord name = false ∧ isAggregateName name = false := by
    decide
  have hparts := hall name h
  exact ⟨⟨hparts.1.1, hparts.1.2⟩, hparts.2.1, hparts.2.2⟩

theorem parse_shiftedQuery :
    parse shiftedQuery = .ok (.binary timesOnJob shiftedRollup (.selector (.ofName "bar"))) := by
  have hfound : (parse shiftedQuery).toOption.any
      (·.same (.binary timesOnJob shiftedRollup (.selector (.ofName "bar")))) := by
    decide +kernel
  rcases (Option.any_eq_true _ _).1 hfound with ⟨e, he, hsame⟩
  rcases Expr.same_binary_iff.1 hsame with ⟨l, r, rfl, hleft, hright⟩
  rcases Expr.same_rollup_iff.1 hleft with ⟨inner, time, rfl, hinner, htime⟩
  rw [Expr.same_selector_iff.1 hinner, Expr.same_selector_iff.1 hright] at he
  cases time with
  | none => exact toOption_eq_some_iff.1 he
  | some e => cases htime

theorem readable_shiftedRollup : shiftedRollup.Readable := by
  have hduration : ∀ text ∈ ["5m", "1h"], LegibleDuration ⟨text, false⟩ := by
    have hall : ∀ text ∈ ["5m", "1h"], isPositiveDuration text := by decide
    exact fun text hmem => legibleDuration_of_positive (hall text hmem)
  refine Expr.allNodes_rollup.2 ⟨⟨⟨?_, by simp⟩, by simp, ?_, by decide, rfl, by simp⟩, ?_, by simp⟩
  · intro d hd
    cases hd
    exact hduration "5m" (by simp)
  · intro d hd
    cases hd
    have hmagnitude : magnitude "1h" = "1h" := by decide
    exact ⟨rfl, by rw [hmagnitude]; exact hduration "1h" (by simp)⟩
  · exact (Expr.OverMetrics.metric (isMetricName_of_plain (by simp))).readable

theorem legible_timesOnJob : timesOnJob.Legible := by
  have hjob : LegibleLabels ["job"] := by
    have hall : ∀ label ∈ ["job"], label ≠ "" ∧ ∀ c ∈ label.toList, c.toNat < 0xF0000 := by
      decide
    exact ⟨fun label hmem => ⟨(hall label hmem).1, (hall label hmem).2⟩, by decide⟩
  exact ⟨by simpa [timesOnJob] using hjob, by simp [timesOnJob]⟩

theorem parse_render_leftOperand_shifted :
    parse shiftedQuery = .ok (.binary timesOnJob shiftedRollup (.selector (.ofName "bar"))) ∧
      ¬Expr.LacksParens timesOnJob shiftedRollup ∧
      ∃ e', parse (Expr.binary timesOnJob shiftedRollup (.selector (.ofName "bar"))).render =
          .ok e' ∧
        e'.same (.binary timesOnJob shiftedRollup (.selector (.ofName "bar"))) := by
  have hparens : ¬Expr.LacksParens timesOnJob shiftedRollup := fun h => by cases h.1
  refine ⟨parse_shiftedQuery, hparens, ?_⟩
  have hruns : (parse shiftedRollup.render).toOption.any (·.same shiftedRollup) ∧
      (parse (Expr.binary timesOnJob shiftedRollup (.selector (.ofName "bar"))).render).isOk := by
    decide +kernel
  rcases (Option.any_eq_true _ _).1 hruns.1 with ⟨l', hleft, hsame⟩
  have hread := (parse_render_leftOperand parse_shiftedQuery legible_timesOnJob
    (isMetricName_of_plain (by simp)) (by decide) readable_shiftedRollup
    (toOption_eq_some_iff.1 hleft) hsame).1 hparens
  rcases hread with hfound | ⟨cause, herror, -⟩
  · exact hfound
  · have hok := hruns.2
    rw [herror] at hok
    cases hok

/-- Both sides of the operator in `(-1) * foo`. -/
theorem parse_negatedProduct : ∃ n : NumberLiteral, n.render = "-1" ∧
    parse "(-1) * foo" = .ok (.binary (.plain .mul) (.number n) (.selector (.ofName "foo"))) := by
  have hfound : (parse "(-1) * foo").toOption.any fun e =>
      e.same (.binary (.plain .mul) (.ofFloat (-1.0)) (.selector (.ofName "foo"))) &&
        e.firstOperand.render == "-1" := by
    decide +kernel
  rcases (Option.any_eq_true _ _).1 hfound with ⟨e, he, hboth⟩
  rw [Bool.and_eq_true, beq_iff_eq] at hboth
  rcases hboth with ⟨hsame, hfirst⟩
  rcases Expr.same_binary_iff.1 hsame with ⟨l, r, rfl, hleft, hright⟩
  rcases Expr.same_number_iff.1 hleft with ⟨n, rfl, -⟩
  rw [Expr.same_selector_iff.1 hright] at he
  exact ⟨n, hfirst, toOption_eq_some_iff.1 he⟩

theorem legibleNumber_one : LegibleNumber "1" :=
  legibleNumber_of_isOk (.inl (isNumeral_toString (n := 1) (by decide))) (by decide) (by decide)

/-- The minus of a negative number has no parentheses in front of an operator that binds closer. -/
theorem not_parse_render_leftOperand :
    ¬∀ (query : String) (b : BinaryOp) (l : Expr) (name : String),
      parse query = .ok (.binary b l (.selector (.ofName name))) → l.isBinary = false →
      IsMetricName name → isFunctionName name = false → Expr.isModifierWord name = false →
      ∃ e', parse (Expr.binary b l (.selector (.ofName name))).render = .ok e' ∧
        e'.same (.binary b l (.selector (.ofName name))) := by
  intro hclaim
  rcases parse_negatedProduct with ⟨n, hrender, hparse⟩
  have hname : IsMetricName "foo" := isMetricName_of_plain (by simp)
  have hmagnitude : magnitude n.render = "1" := by
    rw [hrender]
    decide
  have hreadable : (Expr.number n).Readable := by
    refine (Expr.allNodes_atom rfl).2 ?_
    change LegibleNumber (magnitude n.render)
    rw [hmagnitude]
    exact legibleNumber_one
  have hlacks : Expr.LacksParens (.plain .mul) (.number n) := by
    refine ⟨rfl, ?_, rfl⟩
    rw [hrender]
    decide
  rcases hclaim _ _ _ "foo" hparse rfl hname (by decide) (by decide) with
    ⟨e', hread, hsame⟩
  have hother := Expr.not_same_negated hname (by decide) (BinaryOp.wellFormed_plain .mul)
    (BinaryOp.legible_plain .mul) hreadable hlacks hread
  rw [hother] at hsame
  cases hsame

end SeriesQuery
