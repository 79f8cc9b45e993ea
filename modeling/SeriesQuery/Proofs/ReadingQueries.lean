import SeriesQuery.Proofs.ReadingOperands

/-!
# Reading expressions from their tokens

The tokens of a readable expression are read as `Expr.written`, if the budget for depth is not less
than `Expr.cost`; else reading fails for that reason, with an error from `E`.  The induction is on
the expression, and at each node three readers are considered: of a bare operand, of an operand with
a range, and of a chain of operands.
-/

namespace SeriesQuery

open Text

/-! ## Budgets -/

namespace Reader

variable {E : ParseError → Prop} (hdeep : E (.tooNested maxDepth)) {s l : List String}

/-- The readers inside an operand that leaves this budget. -/
def grammar (budget : Nat) : Grammar :=
  ⟨expression budget, operand budget⟩

theorem operand_add (budget : Nat) : operand (budget + 4) = (grammar budget).fullOperand := by
  rw [operand]
  rfl

include hdeep in
/-- An operand with its range fits the budget if its cost does. -/
theorem reads_operand {cost budget : Nat} {e : Expr} (hcost : Expr.nestingCost ≤ cost)
    (h : ∀ b, budget = b + 4 → Reads E (cost ≤ budget) (grammar b).fullOperand s e l) :
    Reads E (cost ≤ budget) (operand budget) s e l := by
  by_cases hbudget : 4 ≤ budget
  · have hsplit : budget = budget - 4 + 4 := by omega
    have hread := h (budget - 4) hsplit
    rw [hsplit, operand_add]
    rwa [← hsplit]
  · have hfew : budget = 0 ∨ budget = 1 ∨ budget = 2 ∨ budget = 3 := by omega
    have hnone : ¬cost ≤ budget := by
      simp only [Expr.nestingCost] at hcost
      omega
    have hthrow : operand budget = throw (.tooNested maxDepth) := by
      rcases hfew with rfl | rfl | rfl | rfl <;> rfl
    rw [hthrow]
    exact (reads_throw hdeep).congr (by simp [hnone])

/-! ## Chains -/

theorem not_operator_exprEnds : ∀ t ∈ Expr.exprEnds, Operator.ofWord? t = none ∧
    t ∈ Expr.operandEnds ∧ t ∈ Expr.bareEnds ∧ t ≠ "+" := by
  decide

theorem ofWord?_symbol (op : Operator) : Operator.ofWord? op.symbol = some op := by
  cases op <;> decide

theorem takes_chainStop (budget : Nat) (left : Expr) (hl : Operator.ofWord? (current l) = none) :
    Takes (chain budget left) l left l := by
  cases budget <;> refine takes_token.bind ?_ <;> simp only [hl] <;> exact takes_pure

theorem takes_chainEnd (budget : Nat) (left : Expr) (hl : current l ∈ Expr.exprEnds) :
    Takes (chain budget left) l left l :=
  takes_chainStop budget left (not_operator_exprEnds _ hl).1

/-- One more operator with its modifiers and its operand. -/
theorem reads_link {E : ParseError → Prop} {p q : Prop} {s m l : List String} {b : BinaryOp}
    {right : Expr} (budget : Nat) (op : Operator) (left : Expr)
    (hmodifiers : Reads E p (modifiers op) s b m) (hright : Reads E q (operand budget) m right l)
    (hl : current l ∈ Expr.exprEnds) :
    Reads E (p ∧ q) (chain (budget + 1) left) (op.symbol :: s)
      (left.attach { b with keepNames := false } right) l := by
  refine takes_token.bind ?_
  simp only [current_cons, ofWord?_symbol]
  refine takes_bump.bind (reads_bind hmodifiers (hright.bind ?_))
  have hnone : Takes atKeepNames l false l :=
    takes_notWord (Grammar.words_bareEnds _ (not_operator_exprEnds _ hl).2.2.1).1
  exact hnone.bind (takes_chainEnd budget _ hl)

include hdeep in
/-- One more operator with its operand costs one of the budget. -/
theorem reads_chain (budget : Nat) {cost : Nat} {b : BinaryOp} (left : Expr) {right : Expr}
    (hmodifiers : Takes (modifiers b.op) (b.modifierTokens ++ s) { b with keepNames := false } s)
    (hright : ∀ budget, Reads E (cost ≤ budget) (operand budget) s right l)
    (hl : current l ∈ Expr.exprEnds) :
    Reads E (1 + cost ≤ budget) (chain budget left) (b.tokens ++ s)
      (left.attach { b with keepNames := false } right) l := by
  cases budget with
  | zero =>
      refine Reads.congr (p := False) ?_ (by simp)
      refine takes_token.bind ?_
      simp only [BinaryOp.tokens, List.cons_append, current_cons, ofWord?_symbol]
      exact reads_throw hdeep
  | succ budget =>
      have hlink := reads_link budget b.op left (hmodifiers.reads trivial) (hright budget) hl
      refine hlink.congr ?_
      rw [true_and]
      omega

end Reader

/-! ## Costs -/

namespace Expr

theorem le_parenCost (needed : Bool) (cost : Nat) : cost ≤ parenCost needed cost := by
  unfold parenCost
  split <;> omega

/-- Every expression costs an operand at least. -/
theorem nestingCost_le_cost (e : Expr) : nestingCost ≤ e.cost := by
  induction e using Expr.inductionOn with
  | number n => exact le_parenCost _ _
  | binary b l r ihl _ =>
      have hleft := le_parenCost (l.leftNeedsParens b.op) l.cost
      have hall := le_parenCost b.keepNames (max (parenCost (l.leftNeedsParens b.op) l.cost)
        (1 + parenCost r.rightNeedsParens r.cost))
      simp only [cost]
      omega
  | rollup inner range time ih _ =>
      have hinner := le_parenCost inner.innerNeedsParens inner.cost
      simp only [cost]
      omega
  | call name args keepNames _ => exact Nat.le_add_right _ _
  | aggregate a args _ => exact Nat.le_add_right _ _
  | tuple items _ => exact Nat.le_add_right _ _
  | _ => exact Nat.le_refl _

theorem costList_le {es : List Expr} {n : Nat} : costList es ≤ n ↔ ∀ e ∈ es, e.cost ≤ n := by
  induction es with
  | nil => simp [costList]
  | cons e es ih => simp [costList, ih]

theorem writtenList_eq_map (es : List Expr) : writtenList es = es.map written := by
  induction es with
  | nil => rfl
  | cons e es ih => simp [writtenList, ih]

/-! ## What holds of each expression -/

/-- No templates start here. -/
def NotTemplates (s : List String) : Prop :=
  sameWord (current s) "with" = false ∨ s[1]?.getD "" ≠ "("

/-- The node has a range. -/
def isRollup : Expr → Bool
  | rollup .. => true
  | _ => false

/-- The tokens of the expression are read as they should be in each place where they may stand. -/
structure ReadsBack (E : ParseError → Prop) (e : Expr) : Prop where
  start : e.isBinary = false → e.isRollup = false → ∀ l, current l ∈ bareEnds →
    NotTemplates (e.tokens ++ l)
  bare : e.isBinary = false → e.isRollup = false → ∀ b l, current l ∈ bareEnds →
    e.standsBefore l →
      Reads E (e.cost ≤ b + 4) (Reader.grammar b).bareOperand (e.tokens ++ l) e.written l
  operand : e.isBinary = false → ∀ b l, current l ∈ operandEnds → e.standsBefore l →
    Reads E (e.cost ≤ b) (Reader.operand b) (e.tokens ++ l) e.written l
  expression : ∀ b l, current l ∈ exprEnds →
    Reads E (e.cost ≤ b) (Reader.expression b) (e.tokens ++ l) e.written l

theorem standsBefore_exprEnds (e : Expr) {l : List String} (hl : current l ∈ exprEnds) :
    e.standsBefore l := by
  have hall : ∀ t ∈ exprEnds, t ≠ "+" ∧ Grammar.startsRange t = false ∧
      startsIdent t.toList = false := by decide
  have hends := hall _ hl
  cases e with
  | number n => exact fun _ => hends.2.1
  | string value => exact continues_of_ne hends.1
  | selector s =>
      intro _ _ hident
      rw [hends.2.2] at hident
      cases hident
  | rollup inner range time => exact fun _ => hl
  | _ => trivial

/-! ## Leaves -/

variable {E : ParseError → Prop} (hdeep : E (.tooNested maxDepth))

theorem reads_expression {e : Expr} {cost budget : Nat} {s l : List String}
    (h : Reads E (cost ≤ budget) (Reader.operand budget) s e l) (hl : current l ∈ exprEnds) :
    Reads E (cost ≤ budget) (Reader.expression budget) s e l :=
  h.bind (Reader.takes_chainEnd budget e hl)

include hdeep in
/-- An expression without a range is read everywhere if it is read as a bare operand. -/
theorem readsBack_of_bare {e : Expr}
    (hstart : ∀ l, current l ∈ bareEnds → NotTemplates (e.tokens ++ l))
    (hbare : ∀ b l, current l ∈ bareEnds → e.standsBefore l →
      Reads E (e.cost ≤ b + 4) (Reader.grammar b).bareOperand (e.tokens ++ l) e.written l) :
    e.ReadsBack E := by
  have hoperand : ∀ b l, current l ∈ operandEnds → e.standsBefore l →
      Reads E (e.cost ≤ b) (Reader.operand b) (e.tokens ++ l) e.written l := by
    intro budget l hl hstand
    have hends := Grammar.not_range_operandEnds _ hl
    refine Reader.reads_operand hdeep e.nestingCost_le_cost fun b hb => ?_
    rw [hb]
    exact Grammar.reads_fullOperand (hstart l hends.2.2.2.2) (hbare b l hends.2.2.2.2 hstand)
      hends.2.2.2.1
  constructor
  · intro _ _
    exact hstart
  · intro _ _
    exact hbare
  · intro _
    exact hoperand
  · intro b l hl
    exact reads_expression (hoperand b l (Reader.not_operator_exprEnds _ hl).2.1
      (e.standsBefore_exprEnds hl)) hl

/-- An expression is read as an item of a list, where its end is found before a comma. -/
theorem readsItem_of_starts {ts : List String} {e : Expr} {p : Prop} {budget : Nat}
    (hstart : ts ≠ [] ∧ StartsOperand (current ts))
    (h : ∀ l, current l ∈ exprEnds → Reads E p (Reader.expression budget) (ts ++ l) e l) :
    Reader.ReadsItem E p (Reader.grammar budget).expression ts e := by
  refine ⟨hstart.1, hstart.2.ne_close, fun l hl => h l ?_⟩
  rcases hl with hl | hl <;> rw [hl] <;> decide

/-- The expression as an item of a list. -/
theorem ReadsBack.readsItem {e : Expr} (h : e.ReadsBack E) (hreadable : e.Readable) (b : Nat) :
    Reader.ReadsItem E (e.cost ≤ b) (Reader.grammar b).expression e.tokens e.written :=
  readsItem_of_starts (tokens_start hreadable) (h.expression b)

theorem notTemplates_of_current {t : String} (ht : sameWord t "with" = false) (s : List String) :
    NotTemplates (t :: s) :=
  .inl ht

theorem notTemplates_paren (s : List String) : NotTemplates ("(" :: s) :=
  notTemplates_of_current (by decide) s

/-- A number is no word for templates. -/
theorem notWith_of_isNumber {t : String} (h : IsNumber t) : sameWord t "with" = false := by
  rw [Bool.eq_false_iff]
  intro hwith
  rcases h with hnumeral | hword
  · have hplain := isPlainWord_of_sameWord (c := 'w') (toList_of_sameWord hwith) (by decide)
    have hident := startsIdent_of_isPlainWord hplain
    rw [startsIdent_of_numeral hnumeral] at hident
    cases hident
  · have hlower : lower t = lower "with" := by simpa [sameWord] using hwith
    simp only [Grammar.isNumberWord, sameWord, hlower, Bool.or_eq_true] at hword
    revert hword
    decide

include hdeep in
theorem readsBack_number {n : NumberLiteral} (h : (number n).Readable) : (number n).ReadsBack E := by
  have hlegible : LegibleNumber (magnitude n.render) := h.self
  refine readsBack_of_bare hdeep (fun l _ => ?_) fun b l hl hstand => ?_
  · simp only [tokens, signedTokens]
    split
    · exact notTemplates_of_current (by decide) _
    · rename_i hplain
      have htoken := hlegible.token
      rw [magnitude_of_not_isNegated (by simpa using hplain)] at htoken
      exact notTemplates_of_current (notWith_of_isNumber htoken) _
  · simp only [tokens, signedTokens, written, writtenNumber, cost]
    by_cases hminus : isNegated n.render = true
    · -- The number behind the minus is an operand of its own.
      have hrange := hstand hminus
      have hoperand : Reads E (nestingCost ≤ b) (Reader.operand b) (magnitude n.render :: l)
          (number (numeralOf (magnitude n.render))) l := by
        refine Reader.reads_operand hdeep (Nat.le_refl _) fun b' hb => ?_
        have hfit : nestingCost ≤ b := by
          simp only [nestingCost]
          omega
        refine Reads.congr (p := True) ?_ (by simp [hfit])
        exact Grammar.reads_fullOperand (notTemplates_of_current (notWith_of_isNumber hlegible.token) _)
          ((Grammar.takes_number hlegible).reads trivial) hrange
      have hread := Grammar.reads_negation (g := Reader.grammar b) hoperand
      simp only [hminus, if_true, parenCost]
      exact hread.congr (by simp only [nestingCost]; omega)
    · rw [Bool.not_eq_true] at hminus
      rw [magnitude_of_not_isNegated hminus] at hlegible
      have hfit : nestingCost ≤ b + 4 := by
        simp only [nestingCost]
        omega
      have hread := Grammar.takes_number (g := Reader.grammar b) (l := l) hlegible
      simp only [hminus, parenCost]
      exact hread.reads hfit

include hdeep in
theorem readsBack_duration {d : Duration} (h : (duration d).Readable) : (duration d).ReadsBack E := by
  have hrender : d.render = d.text := by simp [Duration.render, h.self.1]
  have hnumeral := isNumeral_of_isPositiveDuration h.self.2
  refine readsBack_of_bare hdeep (fun l _ => ?_) fun b l hl hstand => ?_
  · simp only [tokens, hrender]
    exact notTemplates_of_current (notWith_of_isNumber hnumeral.isNumber) _
  · have hread := Grammar.takes_durationOperand (g := Reader.grammar b) (l := l) h.self.1 h.self.2
    simp only [tokens, hrender, written, cost]
    exact hread.reads (by simp [nestingCost])

include hdeep in
theorem readsBack_string (value : String) : (string value).ReadsBack E := by
  have htext : (quote value).toList = '"' :: (value.toList.flatMap quoteChar ++ ['"']) := by
    simp [quote]
  refine readsBack_of_bare hdeep (fun l _ => notTemplates_of_current ?_ _) fun b l hl hstand => ?_
  · rw [Bool.eq_false_iff]
    intro hwith
    have hplain := isPlainWord_of_sameWord (c := 'w') (toList_of_sameWord hwith) (by decide)
    unfold isPlainWord at hplain
    rw [htext] at hplain
    simp only [Bool.and_eq_true] at hplain
    exact absurd hplain.1 (by decide)
  · have hread := Grammar.takes_stringOperand (g := Reader.grammar b) value hstand
    simp only [cost]
    exact hread.reads (by simp [nestingCost])

include hdeep in
theorem readsBack_selector {s : Selector} (h : (selector s).Readable) : (selector s).ReadsBack E := by
  have hlegible : LegibleSelector s := h.self
  refine readsBack_of_bare hdeep (fun l hl => ?_) fun b l hl hstand => ?_
  · simp only [tokens, Selector.tokens]
    cases hname : s.name? with
    | none => exact notTemplates_of_current (by decide) _
    | some name =>
        refine .inr ?_
        cases s.writtenGroups with
        | cons g gs =>
            have hbrace : (escapeIdent name :: groupTokens (g :: gs) ++ l)[1]?.getD "" = "\x7b" := rfl
            simp only [List.isEmpty_cons, Bool.false_eq_true, if_false]
            rw [hbrace]
            decide
        | nil =>
            have hnext : ([escapeIdent name] ++ l)[1]?.getD "" = current l := by
              cases l <;> rfl
            simp only [List.isEmpty_nil, if_true]
            rw [hnext]
            intro hparen
            rw [hparen] at hl
            revert hl
            decide
  · have hread := Grammar.takes_metricOperand (g := Reader.grammar b) hlegible hl hstand
    simp only [cost]
    exact hread.reads (by simp [nestingCost])

/-! ## Calls, aggregates and tuples -/

theorem fits_arguments {es : List Expr} {b : Nat} :
    (∀ e ∈ es, e.cost ≤ b) ↔ nestingCost + costList es ≤ b + 4 := by
  rw [← costList_le]
  simp only [nestingCost]
  omega

section Arguments

variable {args : List Expr}

theorem readsItem_arguments (hargs : ∀ a ∈ args, a.ReadsBack E) (h : ∀ a ∈ args, a.Readable) (b : Nat) :
    ∀ a ∈ args, Reader.ReadsItem E (a.cost ≤ b) (Reader.grammar b).expression a.tokens a.written :=
  fun a ha => (hargs a ha).readsItem (h a ha) b

include hdeep in
theorem readsBack_call {name : String} {keep : Bool} (h : (call name args keep).Readable)
    (hargs : ∀ a ∈ args, a.ReadsBack E) : (call name args keep).ReadsBack E := by
  have hparts := allNodes_call.1 h
  rcases hparts.1 with ⟨hlegible, hfunction, hcall⟩
  refine readsBack_of_bare hdeep (fun l hl => ?_) fun b l hl _ => ?_
  · exact notTemplates_of_current (notWith_of_isFunctionName hlegible hfunction) _
  · have hitems := readsItem_arguments hargs hparts.2 b
    have hread := Grammar.reads_call hitems hlegible hfunction hcall keep hl
    simp only [tokens, tokensList_eq_map, written, writtenList_eq_map, cost, List.cons_append,
      List.append_assoc]
    exact hread.congr fits_arguments

include hdeep in
theorem readsBack_aggregate {a : Aggregation} (h : (aggregate a args).Readable)
    (hargs : ∀ a ∈ args, a.ReadsBack E) : (aggregate a args).ReadsBack E := by
  have hparts := allNodes_aggregate.1 h
  have hlegible : LegibleAggregation a := hparts.1
  have hfunction := isFunctionName_of_isAggregateName hlegible.isAggregate
  refine readsBack_of_bare hdeep (fun l hl => ?_) fun b l hl _ => ?_
  · exact notTemplates_of_current (notWith_of_isFunctionName hlegible.name hfunction) _
  · have hitems := readsItem_arguments hargs hparts.2 b
    have hread := Grammar.reads_aggregate hitems hlegible hl
    simp only [tokens, tokensList_eq_map, written, writtenList_eq_map, cost, List.cons_append,
      List.append_assoc]
    exact hread.congr fits_arguments

include hdeep in
theorem readsBack_tuple (h : (tuple args).Readable) (hargs : ∀ a ∈ args, a.ReadsBack E) :
    (tuple args).ReadsBack E := by
  have hparts := allNodes_tuple.1 h
  refine readsBack_of_bare hdeep (fun l hl => ?_) fun b l hl _ => ?_
  · exact notTemplates_paren _
  · have hitems := readsItem_arguments hargs hparts.2 b
    have hread := Grammar.reads_items hitems hl
    simp only [tokens, tokensList_eq_map, written, writtenList_eq_map, cost]
    exact hread.congr fits_arguments

end Arguments

/-! ## Expressions in parentheses -/

theorem fits_parens {c b : Nat} : c ≤ b ↔ c + nestingCost ≤ b + 4 := by
  simp only [nestingCost]
  omega

section Parens

variable {e : Expr} (he : e.ReadsBack E) (hreadable : e.Readable) {needed : Bool}
include he hreadable

/-- A bare operand, in parentheses where they are needed. -/
theorem reads_bareInParens (hplain : needed = false → e.isBinary = false ∧ e.isRollup = false)
    {b : Nat} {l : List String} (hl : current l ∈ bareEnds)
    (hstand : needed = false → e.standsBefore l) :
    Reads E (parenCost needed e.cost ≤ b + 4) (Reader.grammar b).bareOperand
      (parenTokens needed e.tokens ++ l) (inParens needed e.written) l := by
  cases needed with
  | true =>
      have hread := Grammar.reads_parens (he.readsItem hreadable b) hl
      have hparens := hread.congr fits_parens
      simpa [parenTokens, inParens, parenCost] using hparens
  | false =>
      have hbare := hplain rfl
      exact he.bare hbare.1 hbare.2 b l hl (hstand rfl)

include hdeep in
/-- An operand with its range, in parentheses where they are needed. -/
theorem reads_operandInParens (hplain : needed = false → e.isBinary = false) {b : Nat}
    {l : List String} (hl : current l ∈ operandEnds) (hstand : needed = false → e.standsBefore l) :
    Reads E (parenCost needed e.cost ≤ b) (Reader.operand b) (parenTokens needed e.tokens ++ l)
      (inParens needed e.written) l := by
  cases needed with
  | false => exact he.operand (hplain rfl) b l hl (hstand rfl)
  | true =>
      have hends := Grammar.not_range_operandEnds _ hl
      refine Reader.reads_operand hdeep (Nat.le_add_left _ _) fun b' hb => ?_
      have hread := Grammar.reads_parens (he.readsItem hreadable b') hends.2.2.2.2
      have hfull := Grammar.reads_fullOperand (notTemplates_paren _)
        (hread.congr fits_parens) hends.2.2.2.1
      rw [hb]
      simpa [parenTokens, inParens, parenCost] using hfull

end Parens

/-! ## Rollups -/

theorem current_range {range : Range} {time : Option Expr}
    (hvisible : range.tokens ++ tokensOfTime time ≠ []) (l : List String) :
    current (range.tokens ++ (tokensOfTime time ++ l)) ∈ ["[", "offset", "@"] := by
  unfold Range.tokens Range.windowTokens at hvisible ⊢
  split
  · simp
  · rename_i hwindow
    simp only [hwindow, Bool.false_eq_true, if_false, List.nil_append] at hvisible ⊢
    cases hoffset : range.offset with
    | some d => simp [optionTokens]
    | none =>
        cases time with
        | some e => simp [optionTokens, tokensOfTime, timeTokens]
        | none => simp [hoffset, optionTokens, tokensOfTime] at hvisible

theorem standsBefore_range {inner : Expr} (hrollup : inner.isRollup = false)
    (hnegative : inner.isNegative = false) {l : List String}
    (hl : current l ∈ ["[", "offset", "@"]) : inner.standsBefore l := by
  have hall : ∀ t ∈ ["[", "offset", "@"], t ≠ "+" ∧ (startsIdent t.toList → t = "offset") := by
    decide
  have hends := hall _ hl
  cases inner with
  | number n =>
      intro hminus
      have hplain : isNegated n.render = false := hnegative
      rw [hplain] at hminus
      cases hminus
  | string value => exact continues_of_ne hends.1
  | selector s => exact fun _ _ => hends.2
  | rollup _ _ _ => cases hrollup
  | _ => trivial

theorem plain_of_innerNeedsParens {e : Expr} (h : e.innerNeedsParens = false) :
    e.isBinary = false ∧ e.isRollup = false := by
  cases e <;> first | exact ⟨rfl, rfl⟩ | cases h

theorem notTemplates_parenTokens {e : Expr} {needed : Bool} (he : e.ReadsBack E)
    (hplain : needed = false → e.isBinary = false ∧ e.isRollup = false) {l : List String}
    (hl : current l ∈ bareEnds) : NotTemplates (parenTokens needed e.tokens ++ l) := by
  cases needed with
  | true => exact notTemplates_paren _
  | false => exact he.start (hplain rfl).1 (hplain rfl).2 l hl

/-- The time of a rollup is read where an expression may end. -/
theorem reads_timeTokens (hat : ∀ cause, E cause → E (.atExpr cause)) {time : Option Expr}
    (ht : ∀ e ∈ time, e.ReadsBack E) (hreadable : ∀ e ∈ time, e.Readable)
    (hrollup : ∀ e ∈ time, ∀ inner' range' time', e ≠ rollup inner' range' time') (b : Nat)
    {l : List String} (hl : current l ∈ operandEnds) (hstand : time.isSome → current l ∈ exprEnds) :
    Reads E (costOption time ≤ b + 4) (Reader.grammar b).time (tokensOfTime time ++ l)
      (writtenOption time) l := by
  have hends := Grammar.not_range_operandEnds _ hl
  cases time with
  | none => exact (Grammar.takes_noTime hends.2.1).reads (by simp [costOption])
  | some e =>
      have hplain : e.isBinary = false → e.isBinary = false ∧ e.isRollup = false := by
        intro hbinary
        refine ⟨hbinary, ?_⟩
        cases e with
        | rollup inner' range' time' => exact absurd rfl (hrollup _ rfl inner' range' time')
        | _ => rfl
      have hread := reads_bareInParens (ht e rfl) (hreadable e rfl) hplain (b := b) hends.2.2.2.2
        fun _ => e.standsBefore_exprEnds (hstand rfl)
      exact Grammar.reads_time hat hread

include hdeep in
theorem readsBack_rollup (hat : ∀ cause, E cause → E (.atExpr cause)) {inner : Expr}
    {range : Range} {time : Option Expr} (h : (rollup inner range time).Readable)
    (hi : inner.ReadsBack E) (ht : ∀ e ∈ time, e.ReadsBack E) :
    (rollup inner range time).ReadsBack E := by
  have hparts := allNodes_rollup.1 h
  have hlegible : LegibleRollup inner range time := hparts.1
  have hoperand : ∀ b l, current l ∈ operandEnds → (rollup inner range time).standsBefore l →
      Reads E ((rollup inner range time).cost ≤ b) (Reader.operand b)
        ((rollup inner range time).tokens ++ l) (rollup inner range time).written l := by
    intro budget l hl hstand
    have hfirst := current_range hlegible.visible l
    have hall : ∀ t ∈ ["[", "offset", "@"], t ∈ bareEnds ∧ Grammar.startsRange t := by decide
    have hrange := hall _ hfirst
    refine Reader.reads_operand hdeep (nestingCost_le_cost _) fun b hb => ?_
    have htime := reads_timeTokens hat ht hparts.2.2 hlegible.time b hl hstand
    -- Behind the range stands its time, or else what follows the rollup.
    have hshape : current (tokensOfTime time ++ l) = "@" ∨
        writtenOption time = none ∧ tokensOfTime time ++ l = l := by
      cases time with
      | none => exact .inr ⟨rfl, rfl⟩
      | some e => exact .inl rfl
    have hinner := reads_bareInParens hi hparts.2.1 plain_of_innerNeedsParens (b := b) hrange.1
      fun hneeded => standsBefore_range (plain_of_innerNeedsParens hneeded).2 hlegible.inner hfirst
    have hrollup := Grammar.reads_rollup (inParens inner.innerNeedsParens inner.written)
      hlegible.window.readable hlegible.offset hl htime hshape
    have hall := Grammar.reads_rangedOperand
      (notTemplates_parenTokens hi plain_of_innerNeedsParens hrange.1) hinner hrange.2 hrollup
    rw [hb]
    simp only [tokens, written, cost, List.append_assoc]
    exact hall.congr Nat.max_le.symm
  -- A rollup is no bare operand, and is read wherever a whole operand may stand.
  constructor
  · intro _ hrollup
    cases hrollup
  · intro _ hrollup
    cases hrollup
  · intro _
    exact hoperand
  · intro b l hl
    exact reads_expression (hoperand b l (Reader.not_operator_exprEnds _ hl).2.1 fun _ => hl) hl

/-! ## Binary operators -/

theorem continues_append {t next : String} {more l : List String} (hl : current l ∈ exprEnds) :
    continues (t :: next :: (more ++ l)) = continues (t :: next :: more) := by
  have hall : ∀ t ∈ exprEnds, (t == "(") = false ∧ (t == "\x7b") = false := by decide
  have hends := hall _ hl
  have hempty : ("" == "(") = false ∧ ("" == "\x7b") = false := by decide
  by_cases hplus : t = "+"
  · subst hplus
    cases more with
    | nil => simp only [continues, List.nil_append, hends, current_nil, hempty]
    | cons m more => simp only [continues, List.cons_append, current_cons]
  · rw [continues_of_ne (by simpa using hplus), continues_of_ne (by simpa using hplus)]

/-- The end of an expression makes no difference behind the tokens of an operator and its right
operand. -/
theorem standsBefore_append {e : Expr} {b : BinaryOp} {ts l : List String} (hts : ts ≠ [])
    (hl : current l ∈ exprEnds) (h : e.standsBefore (b.tokens ++ ts)) :
    e.standsBefore (b.tokens ++ (ts ++ l)) := by
  -- All but strings look no further than the operator.
  have hcurrent : current (b.tokens ++ (ts ++ l)) = current (b.tokens ++ ts) := rfl
  cases e with
  | number n =>
      intro hminus
      rw [hcurrent]
      exact h hminus
  | string value =>
      -- A string looks two tokens ahead, to the first one behind the operator and the next.
      have hne : b.modifierTokens ++ ts ≠ [] := by simp [hts]
      rcases List.exists_cons_of_ne_nil hne with ⟨next, more, hmore⟩
      have hshort : b.tokens ++ ts = b.op.symbol :: next :: more := by
        simp [BinaryOp.tokens, hmore]
      have hlong : b.tokens ++ (ts ++ l) = b.op.symbol :: next :: (more ++ l) := by
        rw [← List.append_assoc, hshort]
        rfl
      have hstop : continues (b.tokens ++ ts) = false := h
      show continues (b.tokens ++ (ts ++ l)) = false
      rw [hlong, continues_append hl, ← hshort]
      exact hstop
  | selector s =>
      intro hgroups hname
      rw [hcurrent]
      exact h hgroups hname
  | rollup inner range time =>
      intro htime
      rw [hcurrent]
      exact h htime
  | _ => trivial

/-- The operator comes on top of its left operand. -/
theorem attach_written {l r : Expr} {b : BinaryOp}
    (hbinary : l.leftNeedsParens b.op = false → l.isBinary = false)
    (hnegation : l.leftNeedsParens b.op = false → l.isNegative →
      Operator.sub.yieldsTo b.op = false) :
    (inParens (l.leftNeedsParens b.op) l.written).attach b r =
      binary b (inParens (l.leftNeedsParens b.op) l.written) r := by
  cases hneeded : l.leftNeedsParens b.op with
  | true => rfl
  | false =>
      have hplain := hbinary hneeded
      cases l with
      | number n =>
          simp only [inParens, written, writtenNumber, Bool.false_eq_true, if_false]
          split
          · rename_i hminus
            have hstays := hnegation hneeded hminus
            simp [attach, BinaryOp.plain, hstays]
          · rfl
      | binary _ _ _ => cases hplain
      | _ => rfl

theorem mem_operandEnds (b : BinaryOp) (l : List String) : current (b.tokens ++ l) ∈ operandEnds := by
  have hall : ∀ op : Operator, op.symbol ∈ operandEnds := by
    intro op
    cases op <;> decide
  exact hall b.op

section Binary

variable {b : BinaryOp} {l r : Expr}

section Attached

variable (hl : l.ReadsBack E) (hr : r.ReadsBack E) (hleft : l.Readable) (hright : r.Readable)
include hdeep hl hr hleft hright

/-- The operator with its operands, but without the mark that the names of metrics are kept.  It may
take away an operand from what is read of the left one. -/
theorem reads_attached (hwellFormed : b.WellFormed) (hlegible : b.Legible)
    (hstand : l.leftNeedsParens b.op = false → l.standsBefore (b.tokens ++ rightTokens r))
    (hmore : b.takesMore (current (rightTokens r)) = false) (budget : Nat) {left : List String}
    (hend : current left ∈ exprEnds) :
    Reads E (max (parenCost (l.leftNeedsParens b.op) l.cost) (1 + parenCost r.rightNeedsParens r.cost) ≤
        budget) (Reader.expression budget)
      (parenTokens (l.leftNeedsParens b.op) l.tokens ++ (b.tokens ++ (rightTokens r ++ left)))
      ((inParens (l.leftNeedsParens b.op) l.written).attach { b with keepNames := false }
        (inParens r.rightNeedsParens r.written)) left := by
  have hfirst := start_parenTokens r.rightNeedsParens (tokens_start hright)
  have hends := Reader.not_operator_exprEnds _ hend
  have hbinary : ∀ needed, (needed = l.leftNeedsParens b.op) → needed = false → l.isBinary = false := by
    rintro _ rfl hneeded
    cases l <;> first | rfl | cases hneeded
  have hbinaryRight : r.rightNeedsParens = false → r.isBinary = false := by
    intro hneeded
    cases r <;> first | rfl | cases hneeded
  have hcurrent : current (rightTokens r ++ left) = current (rightTokens r) :=
    current_append hfirst.1 left
  have hplus : current (rightTokens r ++ left) ≠ "+" := by
    rw [hcurrent]
    refine hfirst.2.ne fun c cs heq => ?_
    have htext : "+".toList = ['+'] := by decide
    rw [htext] at heq
    cases heq
    decide
  have hmodifiers := Reader.takes_modifiers (l := rightTokens r ++ left) hwellFormed hlegible
    (by rw [hcurrent]; exact hmore) hplus
  have hrightOperand : ∀ budget, Reads E (parenCost r.rightNeedsParens r.cost ≤ budget)
      (Reader.operand budget) (rightTokens r ++ left) (inParens r.rightNeedsParens r.written) left :=
    fun budget => reads_operandInParens hdeep hr hright hbinaryRight hends.2.1
      fun _ => r.standsBefore_exprEnds hend
  -- The chain takes the operator and its right operand, and attaches them to the left one.
  have hchain := Reader.reads_chain hdeep budget (inParens (l.leftNeedsParens b.op) l.written) hmodifiers
    hrightOperand hend
  have hleftOperand := reads_operandInParens hdeep hl hleft (hbinary _ rfl) (b := budget)
    (mem_operandEnds b (rightTokens r ++ left)) fun hneeded =>
      standsBefore_append hfirst.1 hend (hstand hneeded)
  exact (reads_bind hleftOperand hchain).congr Nat.max_le.symm

end Attached

include hdeep in
/-- An operator in parentheses, with the mark that the names of metrics are kept. -/
theorem reads_keeping {ts : List String} {x y : Expr} {cost : Nat}
    (hstart : ts ≠ [] ∧ StartsOperand (current ts))
    (h : ∀ budget left, current left ∈ exprEnds →
      Reads E (cost ≤ budget) (Reader.expression budget) (ts ++ left) (binary b x y) left)
    (budget : Nat) {left : List String} (hleft : current left ∈ exprEnds) :
    Reads E (cost + nestingCost ≤ budget) (Reader.expression budget)
      ("(" :: (ts ++ ")" :: "keep_metric_names" :: left))
      (tuple [binary { b with keepNames := true } x y]) left := by
  have hoperand : Reads E (cost + nestingCost ≤ budget) (Reader.operand budget)
      ("(" :: (ts ++ ")" :: "keep_metric_names" :: left))
      (tuple [binary { b with keepNames := true } x y]) left := by
    refine Reader.reads_operand hdeep (Nat.le_add_left _ _) fun b' hbudget => ?_
    have hmarked := Grammar.reads_markedParens (l := left) (readsItem_of_starts hstart (h b'))
    have hnotRange := (Grammar.not_range_operandEnds _
      (Reader.not_operator_exprEnds _ hleft).2.1).2.2.2.1
    rw [hbudget]
    exact Grammar.reads_fullOperand (notTemplates_paren _)
      (hmarked.congr fits_parens) hnotRange
  exact reads_expression hoperand hleft

include hdeep in
/-- An operator is read from its tokens, if it is read from those without the mark that the names of
metrics are kept. -/
theorem reads_marked {c : BinaryOp} {x y : Expr} {cost : Nat} (hl : l.Readable)
    (hc : c.keepNames = false)
    (h : ∀ budget left, current left ∈ exprEnds →
      Reads E (cost ≤ budget) (Reader.expression budget)
        (parenTokens (l.leftNeedsParens b.op) l.tokens ++ (b.tokens ++ (rightTokens r ++ left)))
        (binary c x y) left)
    (budget : Nat) {left : List String} (hleft : current left ∈ exprEnds) :
    Reads E (parenCost b.keepNames cost ≤ budget) (Reader.expression budget)
      ((binary b l r).tokens ++ left)
      (inParens b.keepNames (binary { c with keepNames := b.keepNames } x y)) left := by
  cases hkeep : b.keepNames with
  | false =>
      have hsame : { c with keepNames := false } = c := by rw [← hc]
      have hread := h budget left hleft
      simpa [tokens, hkeep, parenCost, inParens, rightTokens, hsame] using hread
  | true =>
      have hstart := start_append (start_parenTokens (l.leftNeedsParens b.op) (tokens_start hl))
        (b.tokens ++ rightTokens r)
      have hread := reads_keeping hdeep hstart (fun b' left' hleft' => by
        rw [List.append_assoc, List.append_assoc]
        exact h b' left' hleft') budget hleft
      simpa [tokens, hkeep, parenCost, inParens, rightTokens] using hread

section Readable

variable (h : (binary b l r).Readable) (hl : l.ReadsBack E) (hr : r.ReadsBack E)
include hdeep h hl hr

/-- The operator with its operands, but without the mark that the names of metrics are kept. -/
theorem reads_unmarked (budget : Nat) {left : List String} (hleft : current left ∈ exprEnds) :
    Reads E (max (parenCost (l.leftNeedsParens b.op) l.cost) (1 + parenCost r.rightNeedsParens r.cost) ≤
        budget) (Reader.expression budget)
      (parenTokens (l.leftNeedsParens b.op) l.tokens ++ (b.tokens ++ (rightTokens r ++ left)))
      (binary { b with keepNames := false } (inParens (l.leftNeedsParens b.op) l.written)
        (inParens r.rightNeedsParens r.written)) left := by
  have hparts := allNodes_binary.1 h
  have hlegible : LegibleBinary b l r := hparts.1
  have hbinary : l.leftNeedsParens b.op = false → l.isBinary = false := by
    intro hneeded
    cases l <;> first | rfl | cases hneeded
  have hread := reads_attached hdeep hl hr hparts.2.1 hparts.2.2 hlegible.wellFormed
    hlegible.legible hlegible.left hlegible.right budget hleft
  have hattach : (inParens (l.leftNeedsParens b.op) l.written).attach { b with keepNames := false }
      (inParens r.rightNeedsParens r.written) =
      binary { b with keepNames := false } (inParens (l.leftNeedsParens b.op) l.written)
        (inParens r.rightNeedsParens r.written) :=
    attach_written (b := { b with keepNames := false }) hbinary hlegible.negation
  rwa [hattach] at hread

theorem readsBack_binary : (binary b l r).ReadsBack E := by
  have hparts := allNodes_binary.1 h
  constructor
  · intro hbinary
    cases hbinary
  · intro hbinary
    cases hbinary
  · intro hbinary
    cases hbinary
  · intro budget left hleft
    have hunmarked := reads_unmarked hdeep h hl hr
    exact reads_marked hdeep hparts.2.1 rfl (fun b' _ => hunmarked b') budget hleft

end Readable

end Binary

/-! ## Spelling -/

theorem not_mem_of_legible {labels : List String} (h : LegibleLabels labels) : "" ∉ labels :=
  fun hmem => (h.legible "" hmem).ne_empty rfl

/-- The labels and strings of an operator that can be read back are tokens. -/
theorem isSpelled_binary {b : BinaryOp} (hwellFormed : b.WellFormed) (hlegible : b.Legible)
    (l r : Expr) : (binary b l r).IsSpelled := by
  refine ⟨?_, ?_, ?_, hwellFormed.asBool⟩
  · exact fun m hm => not_mem_of_legible (hlegible.matching m hm)
  · exact fun j hj => not_mem_of_legible (hlegible.join j hj)
  · intro lead hlead name hname
    rcases (hwellFormed.joinLead lead hlead).2 with ⟨value, hvalue⟩
    simp [hvalue] at hname

theorem isSpelled_rollup {range : Range} (hwindow : ∀ d ∈ range.window, LegibleDuration d)
    (hstep : ∀ d ∈ range.step, ReadableDuration d ∧ IsStepText d.text)
    (hoffset : ∀ d ∈ range.offset, LegibleOffset d) (inner : Expr) (time : Option Expr) :
    (rollup inner range time).IsSpelled := by
  refine ⟨fun d hd => ?_, fun d hd => ?_, fun d hd => ?_⟩
  · rw [(hwindow d hd).render_eq]
    exact (hwindow d hd).numeral
  · rw [(hstep d hd).1.render_eq]
    exact (hstep d hd).2
  · have hrender : d.render = d.text := by simp [Duration.render, (hoffset d hd).resolved]
    rw [hrender]
    exact (hoffset d hd).magnitude.numeral

/-- A node that can be read back from its text has tokens for its names, numbers and durations. -/
theorem IsReadable.isSpelled {e : Expr} (h : e.IsReadable) : e.IsSpelled := by
  cases e with
  | number n => exact LegibleNumber.token h
  | duration d =>
      have hrender : d.render = d.text := by simp [Duration.render, h.1]
      show IsNumeral d.render
      rw [hrender]
      exact isNumeral_of_isPositiveDuration h.2
  | string value => trivial
  | concat s => exact h.elim
  | selector s =>
      have hlegible : LegibleSelector s := h
      refine ⟨fun name hname => (hlegible.name name hname).1.ne_empty, ?_⟩
      exact fun g hg f hf => (hlegible.groups g hg f hf).label.ne_empty
  | selectorExpr s => exact h.elim
  | call name args keepNames => exact h.1.ne_empty
  | aggregate a args =>
      have hlegible : LegibleAggregation a := h
      exact ⟨hlegible.name.ne_empty, fun g hg => not_mem_of_legible (hlegible.grouping g hg)⟩
  | binary b l r =>
      have hlegible : LegibleBinary b l r := h
      exact isSpelled_binary hlegible.wellFormed hlegible.legible l r
  | rollup inner range time =>
      have hlegible : LegibleRollup inner range time := h
      exact isSpelled_rollup hlegible.window.window
        (fun d hd => ⟨(hlegible.window.step d hd).readable, hlegible.step d hd⟩) hlegible.offset inner
        time
  | tuple items => trivial
  | withTemplates ts body => exact h.elim

theorem spelled_of_readable {e : Expr} (h : e.Readable) : e.Spelled :=
  fun n hn => (h n hn).isSpelled

/-! ## Queries -/

include hdeep in
/-- The tokens of a readable expression are read in each place where it may stand. -/
theorem readsBack (hat : ∀ cause, E cause → E (.atExpr cause)) {e : Expr} (h : e.Readable) :
    e.ReadsBack E := by
  induction e using Expr.inductionOn with
  | number n => exact readsBack_number hdeep h
  | duration d => exact readsBack_duration hdeep h
  | string value => exact readsBack_string hdeep value
  | concat s => exact h.self.elim
  | selector s => exact readsBack_selector hdeep h
  | selectorExpr s => exact h.self.elim
  | call name args keep ih =>
      exact readsBack_call hdeep h fun a ha => ih a ha ((allNodes_call.1 h).2 a ha)
  | aggregate a args ih =>
      exact readsBack_aggregate hdeep h fun x hx => ih x hx ((allNodes_aggregate.1 h).2 x hx)
  | binary b l r ihl ihr =>
      have hparts := allNodes_binary.1 h
      exact readsBack_binary hdeep h (ihl hparts.2.1) (ihr hparts.2.2)
  | rollup inner range time ih iht =>
      have hparts := allNodes_rollup.1 h
      exact readsBack_rollup hdeep hat h (ih hparts.2.1) fun e he => iht e he (hparts.2.2 e he)
  | tuple items ih =>
      exact readsBack_tuple hdeep h fun e he => ih e he ((allNodes_tuple.1 h).2 e he)
  | withTemplates ts body _ _ => exact h.self.elim

theorem texts_render {e : Expr} (h : e.Spelled) :
    Lexeme.texts e.render.toList = (e.tokens, true) :=
  (lexes_render h).texts

/-- A text is read as its tokens are. -/
theorem ofText_of_reads {text : String} {ts : List String} {p : Prop} {e : Expr}
    (htexts : Lexeme.texts text.toList = (ts, true))
    (h : Reads E p (Reader.expression depthBudget) ts e []) :
    (p → ofText text = .ok e) ∧ (¬p → ∃ cause, ofText text = .error cause ∧ E cause) := by
  simp only [ofText, Feed.ofText_of_texts htexts]
  constructor
  · intro hfits
    rcases (h 0).1 hfits with ⟨ahead, heq⟩
    simp [Bind.bind, Except.bind, heq]
    rfl
  · intro hfits
    rcases (h 0).2 hfits with ⟨cause, heq, hcause⟩
    exact ⟨cause, by simp [Bind.bind, Except.bind, heq], hcause⟩

/-- The text of an expression is read as what is written there, if the budget for depth allows. -/
theorem ReadsBack.ofText_render {e : Expr} (h : e.ReadsBack E) (hspelled : e.Spelled) :
    (e.cost ≤ depthBudget → ofText e.render = .ok e.written) ∧
      (¬e.cost ≤ depthBudget → ∃ cause, ofText e.render = .error cause ∧ E cause) := by
  have hread := h.expression depthBudget [] (by decide)
  rw [List.append_nil] at hread
  exact ofText_of_reads (texts_render hspelled) hread

end Expr

end SeriesQuery
