import SeriesQuery.Proofs.ReadingParts
import SeriesQuery.Proofs.WellFormed

/-!
# Reading expressions from their tokens

The tokens of the canonical text of an expression are read as `Expr.written`: the expression with
the parentheses that were put around operands, and with negative numbers as negations.  That is so
for `Readable` expressions.

* `Expr.cost` — how much of the budget for depth is needed;
* `Expr.standsBefore` — what may come behind an operand without changing how it is read;
* `Expr.reads_expression` — the tokens are read as they should be, if the budget allows.
-/

namespace SeriesQuery

open Text

/-! ## What is read -/

/-- The number that a token writes. -/
def numeralOf (token : String) : NumberLiteral :=
  match NumberLiteral.ofToken token with
  | .ok n => n
  | .error _ => .ofFloat 0.0

namespace Expr

/-- The text of the node starts with a minus. -/
def isNegative : Expr → Bool
  | number n => isNegated n.render
  | _ => false

/-- A number as it is read from its text. -/
def writtenNumber (text : String) : Expr :=
  if isNegated text then binary (.plain .sub) (.ofFloat 0.0) (number (numeralOf (magnitude text)))
  else number (numeralOf text)

/-- An expression in parentheses, where they are needed. -/
def inParens (needed : Bool) (e : Expr) : Expr :=
  if needed then tuple [e] else e

mutual

/-- The expression that is read from the canonical text of the expression. -/
def written : Expr → Expr
  | number n => writtenNumber n.render
  | duration d => duration d
  | string value => string value
  | concat s => concat s
  | selector s => selector s.reread
  | selectorExpr s => selectorExpr s
  | call name args keep => call name (writtenList args) keep
  | aggregate a args => aggregate a (writtenList args)
  | binary b l r =>
      let e := binary b (inParens (l.leftNeedsParens b.op) (written l))
        (inParens r.rightNeedsParens (written r))
      if b.keepNames then tuple [e] else e
  | rollup inner range time =>
      rollup (inParens inner.innerNeedsParens (written inner)) range.reread (writtenOption time)
  | tuple items => tuple (writtenList items)
  | withTemplates ts body => withTemplates ts body

/-- The expressions that are read. -/
def writtenList : List Expr → List Expr
  | [] => []
  | e :: es => written e :: writtenList es

/-- The time that is read, which stands in parentheses if it is a binary operator. -/
def writtenOption : Option Expr → Option Expr
  | none => none
  | some e => some (inParens e.isBinary (written e))

end

/-! ## Depth -/

/-- The cost of an expression, which is one operand more where it stands in parentheses. -/
def parenCost (needed : Bool) (cost : Nat) : Nat :=
  if needed then cost + nestingCost else cost

mutual

/-- How much of the budget for depth it takes to read the canonical text. -/
def cost : Expr → Nat
  | number n => parenCost (isNegated n.render) nestingCost
  | call _ args _ => nestingCost + costList args
  | aggregate _ args => nestingCost + costList args
  | binary b l r =>
      parenCost b.keepNames (max (parenCost (l.leftNeedsParens b.op) (cost l))
        (1 + parenCost r.rightNeedsParens (cost r)))
  | rollup inner _ time => max (parenCost inner.innerNeedsParens (cost inner)) (costOption time)
  | tuple items => nestingCost + costList items
  | _ => nestingCost

/-- The greatest cost of the expressions. -/
def costList : List Expr → Nat
  | [] => 0
  | e :: es => max (cost e) (costList es)

/-- The cost of the time of a rollup. -/
def costOption : Option Expr → Nat
  | none => 0
  | some e => parenCost e.isBinary (cost e)

end

/-! ## Expressions that can be read back -/

/-- The tokens that may come behind an expression. -/
def exprEnds : List String :=
  ["", ")", ","]

/-- The tokens that may come behind an operand. -/
def operandEnds : List String :=
  exprEnds ++ Operator.all.map Operator.symbol

/-- The tokens that may come behind an operand without a range. -/
def bareEnds : List String :=
  operandEnds ++ ["[", "offset", "@"]

/-- The operand is read alike in front of these tokens.  A range behind a negation belongs to what
is negated, a sum with a string may go on with the string, and the name of an aggregate is read as
an aggregate in front of a word. -/
def standsBefore : Expr → List String → Prop
  | number n, l => isNegated n.render → Grammar.startsRange (current l) = false
  | string _, l => continues l = false
  | selector s, l => s.writtenGroups = [] → (∃ name ∈ s.name?, isAggregateName name) →
      startsIdent (current l).toList → current l = "offset"
  | rollup _ _ time, l => time.isSome → current l ∈ exprEnds
  | _, _ => True

end Expr

/-- The text is a number without a sign that can be read back. -/
structure LegibleNumber (text : String) : Prop where
  token : IsNumber text
  notDuration : isPositiveDuration text = false
  value : ∃ n, NumberLiteral.ofToken text = .ok n

theorem legibleNumber_of_isOk {text : String} (htoken : IsNumber text)
    (hduration : isPositiveDuration text = false) (hvalue : (NumberLiteral.ofToken text).isOk) :
    LegibleNumber text := by
  refine ⟨htoken, hduration, ?_⟩
  cases hread : NumberLiteral.ofToken text with
  | error cause =>
      rw [hread] at hvalue
      cases hvalue
  | ok n => exact ⟨n, rfl⟩

/-- The name and the filters of the selector can be read back. -/
structure LegibleSelector (s : Selector) : Prop where
  name : ∀ name ∈ s.name?, IsLegible name ∧ Grammar.isNumberWord (escapeIdent name) = false
  groups : LegibleGroups s.writtenGroups

/-- The labels and the limit of the aggregate can be read back. -/
structure LegibleAggregation (a : Aggregation) : Prop where
  name : IsLegible a.name
  isAggregate : isAggregateName a.name
  lower : lower a.name = a.name
  grouping : ∀ g ∈ a.grouping, LegibleLabels g.labels
  limit : a.limit < 2 ^ 64

namespace Expr

/-- The tokens of the right operand. -/
def rightTokens (r : Expr) : List String :=
  parenTokens r.rightNeedsParens r.tokens

/-- The operator and its operands are told apart as they should be: the left operand ends before the
operator and is not reached by it, and no modifier is found in the right operand. -/
structure LegibleBinary (b : BinaryOp) (l r : Expr) : Prop where
  wellFormed : b.WellFormed
  legible : b.Legible
  left : l.leftNeedsParens b.op = false → l.standsBefore (b.tokens ++ rightTokens r)
  negation : l.leftNeedsParens b.op = false → l.isNegative → Operator.sub.yieldsTo b.op = false
  right : b.takesMore (current (rightTokens r)) = false

/-- The range is read as the range of its inner expression, and no other range belongs to its
time. -/
structure LegibleRollup (inner : Expr) (range : Range) (time : Option Expr) : Prop where
  window : LegibleWindow range
  step : ∀ d ∈ range.step, IsStepText d.text
  offset : ∀ d ∈ range.offset, LegibleOffset d
  visible : range.tokens ++ tokensOfTime time ≠ []
  inner : inner.isNegative = false
  time : ∀ e ∈ time, ∀ inner' range' time', e ≠ rollup inner' range' time'

/-- The node can be read back from its text. -/
def IsReadable : Expr → Prop
  | number n => LegibleNumber (magnitude n.render)
  | duration d => d.isTemplate = false ∧ isPositiveDuration d.text
  | string _ => True
  | selector s => LegibleSelector s
  | call name _ _ => IsLegible name ∧ isFunctionName name ∧ isAggregateName name = false
  | aggregate a _ => LegibleAggregation a
  | binary b l r => LegibleBinary b l r
  | rollup inner range time => LegibleRollup inner range time
  | tuple _ => True
  | concat _ | selectorExpr _ | withTemplates .. => False

/-- All nodes can be read back from their texts. -/
abbrev Readable (e : Expr) : Prop :=
  e.AllNodes IsReadable

end Expr

/-! ## First tokens -/

/-- The token may start an operand: it is none that ends or continues one. -/
def StartsOperand (t : String) : Prop :=
  ∃ c cs, t.toList = c :: cs ∧ c ∉ [')', ',', '+']

theorem StartsOperand.ne {t other : String} (h : StartsOperand t)
    (hother : ∀ c cs, other.toList = c :: cs → c ∈ [')', ',', '+']) : t ≠ other := by
  rintro rfl
  rcases h with ⟨c, cs, htext, hc⟩
  exact hc (hother c cs htext)

theorem StartsOperand.ne_close {t : String} (h : StartsOperand t) : t ≠ ")" := by
  refine h.ne fun c cs heq => ?_
  have htext : ")".toList = [')'] := by decide
  rw [htext] at heq
  cases heq
  decide

theorem startsOperand_of_startsIdent {t : String} (h : startsIdent t.toList) : StartsOperand t := by
  cases htext : t.toList with
  | nil =>
      rw [htext] at h
      cases h
  | cons c cs =>
      refine ⟨c, cs, htext, ?_⟩
      rw [htext] at h
      have hpunctuation := (blank_of_startsIdent h).2.2
      have hsign : c ≠ '+' := by
        rintro rfl
        have hfirst : startsIdent ('+' :: cs) = false := rfl
        rw [hfirst] at h
        cases h
      have hne : ∀ d, isPunctuation d → c ≠ d := by
        rintro d hd rfl
        rw [hd] at hpunctuation
        cases hpunctuation
      simp [hsign, hne ')' (by decide), hne ',' (by decide)]

theorem startsOperand_escapeIdent {name : String} (h : name ≠ "") :
    StartsOperand (escapeIdent name) :=
  startsOperand_of_startsIdent (startsIdent_escapeIdent h)

theorem startsOperand_of_isNumeral {t : String} (h : IsNumeral t) : StartsOperand t := by
  rcases h.start with ⟨c, cs, htext, hstart⟩
  refine ⟨c, cs, htext, ?_⟩
  intro hc
  have hall : ∀ d ∈ [')', ',', '+'], startsNumeral d = false := by decide
  rw [hall c hc] at hstart
  cases hstart

theorem startsIdent_of_isPlainWord {t : String} (h : isPlainWord t) : startsIdent t.toList := by
  unfold isPlainWord at h
  cases htext : t.toList with
  | nil => simp [htext] at h
  | cons c cs =>
      simp only [htext, Bool.and_eq_true] at h
      simp [startsIdent, h.1]

theorem startsOperand_of_isNumber {t : String} (h : IsNumber t) : StartsOperand t := by
  rcases h with hnumeral | hword
  · exact startsOperand_of_isNumeral hnumeral
  · exact startsOperand_of_startsIdent (startsIdent_of_isPlainWord (isPlainWord_of_isNumberWord hword))

theorem startsOperand_paren : StartsOperand "(" :=
  ⟨'(', [], by decide, by decide⟩

theorem startsOperand_brace : StartsOperand "\x7b" :=
  ⟨'{', [], by decide, by decide⟩

theorem startsOperand_minus : StartsOperand "-" :=
  ⟨'-', [], by decide, by decide⟩

/-- The tokens of an operand in parentheses, where these are needed, start an operand too. -/
theorem start_parenTokens {ts : List String} (needed : Bool)
    (h : ts ≠ [] ∧ StartsOperand (current ts)) :
    parenTokens needed ts ≠ [] ∧ StartsOperand (current (parenTokens needed ts)) := by
  unfold parenTokens
  split
  · exact ⟨by simp, startsOperand_paren⟩
  · exact h

theorem start_append {ts : List String} (h : ts ≠ [] ∧ StartsOperand (current ts))
    (us : List String) : ts ++ us ≠ [] ∧ StartsOperand (current (ts ++ us)) := by
  refine ⟨by simp [h.1], ?_⟩
  rw [current_append h.1]
  exact h.2

theorem isFunctionName_of_isAggregateName {name : String} (h : isAggregateName name) :
    isFunctionName name := by
  unfold isAggregateName Builtin.findKind? at h
  unfold isFunctionName
  cases hfind : Builtin.find? name with
  | none => simp [hfind] at h
  | some f => rfl

namespace Expr

theorem start_selector {s : Selector} (h : LegibleSelector s) :
    s.tokens ≠ [] ∧ StartsOperand (current s.tokens) := by
  unfold Selector.tokens
  cases hname : s.name? with
  | none => exact ⟨by simp [groupTokens], startsOperand_brace⟩
  | some name => exact ⟨by simp, startsOperand_escapeIdent (h.name name hname).1.ne_empty⟩

theorem tokens_start {e : Expr} (h : e.Readable) :
    e.tokens ≠ [] ∧ StartsOperand (current e.tokens) := by
  induction e using Expr.inductionOn with
  | number n =>
      have hnumber := h.self
      simp only [tokens, signedTokens]
      split
      · exact ⟨by simp, startsOperand_minus⟩
      · rename_i hplain
        have htoken := hnumber.token
        rw [magnitude_of_not_isNegated (by simpa using hplain)] at htoken
        exact ⟨by simp, startsOperand_of_isNumber htoken⟩
  | duration d =>
      have hnumeral := isNumeral_of_isPositiveDuration h.self.2
      have hrender : d.render = d.text := by simp [Duration.render, h.self.1]
      simp only [tokens, hrender]
      exact ⟨by simp, startsOperand_of_isNumeral hnumeral⟩
  | string value =>
      have htext : (quote value).toList = '"' :: (value.toList.flatMap quoteChar ++ ['"']) := by
        simp [quote]
      exact ⟨by simp [tokens], '"', _, htext, by decide⟩
  | concat s => exact h.self.elim
  | selector s => exact start_selector h.self
  | selectorExpr s => exact h.self.elim
  | call name args keepNames ih =>
      exact ⟨by simp [tokens], startsOperand_escapeIdent h.self.1.ne_empty⟩
  | aggregate a args ih =>
      exact ⟨by simp [tokens], startsOperand_escapeIdent h.self.name.ne_empty⟩
  | binary b l r ihl ihr =>
      have hleft := start_parenTokens (l.leftNeedsParens b.op) (ihl (allNodes_binary.1 h).2.1)
      simp only [tokens]
      split
      · exact ⟨by simp, startsOperand_paren⟩
      · rw [List.append_assoc]
        exact start_append hleft _
  -- The first token of a rollup is that of what is inside, or a parenthesis.
  | rollup inner range time ih iht =>
      have hinner := start_parenTokens inner.innerNeedsParens (ih (allNodes_rollup.1 h).2.1)
      simp only [tokens]
      rw [List.append_assoc]
      exact start_append hinner _
  | tuple items ih => exact ⟨by simp [tokens, listTokens], startsOperand_paren⟩
  | withTemplates ts body _ _ => exact h.self.elim

end Expr

/-! ## What a first token tells -/

theorem startsNumber_of_isNumeral {t : String} (h : IsNumeral t)
    (hduration : isPositiveDuration t = false) : startsNumber t.toList := by
  rcases h.start with ⟨c, cs, htext, hstart⟩
  have htoken := h.token
  rw [htext, scanToken_of_startsNumeral hstart] at htoken
  unfold splitSignOrNumber at htoken
  rw [splitSign_of_startsNumeral hstart] at htoken
  unfold isPositiveDuration at hduration
  rw [htext] at hduration ⊢
  cases hsplit : splitDuration (c :: cs) with
  | some found =>
      simp only [hsplit, Except.ok.injEq] at htoken
      rw [hsplit, htoken] at hduration
      cases hduration
  | none =>
      simp only [hsplit] at htoken
      by_contra hnumber
      simp [hnumber] at htoken

theorem startsNumber_of_startsIdent {cs : List Char} (h : startsIdent cs) :
    startsNumber cs = false := by
  cases cs with
  | nil => cases h
  | cons c cs =>
      have hne : c ≠ '.' ∧ isDigit c = false := by
        simp only [startsIdent, Bool.or_eq_true, beq_iff_eq] at h
        rcases h with rfl | hletter
        · decide
        · have hle := le_toNat_of_isIdentStart hletter
          constructor
          · rintro rfl
            exact absurd hle (by decide)
          · rw [Bool.eq_false_iff]
            intro hdigit
            have hrange := isDigit_iff.1 hdigit
            omega
      simp [startsNumber, hne.1, hne.2]

theorem startsQuoted_of_startsIdent {cs : List Char} (h : startsIdent cs) :
    startsQuoted cs = false := by
  cases cs with
  | nil => cases h
  | cons c cs =>
      rw [Bool.eq_false_iff]
      intro hquoted
      simp only [startsQuoted, isQuote, Bool.or_eq_true, beq_iff_eq] at hquoted
      have hall : ∀ d ∈ ['"', '\'', '`'], (d == '\\' || isIdentStart d) = false := by decide
      have hmem : c ∈ ['"', '\'', '`'] := by
        simp only [List.mem_cons, List.not_mem_nil, or_false]
        tauto
      have hnone := hall c hmem
      simp only [startsIdent] at h
      rw [hnone] at h
      cases h

theorem isPositiveDuration_of_startsIdent {t : String} (h : startsIdent t.toList) :
    isPositiveDuration t = false := by
  rw [Bool.eq_false_iff]
  intro hduration
  rw [startsIdent_of_numeral (isNumeral_of_isPositiveDuration hduration)] at h
  cases h

theorem ne_empty_of_startsIdent {t : String} (h : startsIdent t.toList) : t ≠ "" := by
  rintro rfl
  cases h

/-! ## Operands without a range -/

namespace Grammar

variable {g : Grammar} {E : ParseError → Prop} {p : Prop} {s l : List String} {e : Expr}

theorem reads_ident {t : String} (hident : startsIdent t.toList) (hword : isNumberWord t = false)
    (h : Reads E p g.identExpr (t :: l) e s) : Reads E p g.bareOperand (t :: l) e s := by
  refine Reader.takes_token.bind ?_
  simp only [current_cons, beq_eq_false_iff_ne.2 (ne_empty_of_startsIdent hident),
    isPositiveDuration_of_startsIdent hident, startsNumber_of_startsIdent hident, hword,
    startsQuoted_of_startsIdent hident, hident, Bool.or_self, if_true]
  exact h

theorem numeralOf_eq {t : String} (h : LegibleNumber t) :
    NumberLiteral.ofToken t = .ok (numeralOf t) := by
  rcases h.value with ⟨n, hn⟩
  simp [numeralOf, hn]

theorem takes_number {t : String} (h : LegibleNumber t) :
    Takes g.bareOperand (t :: l) (.number (numeralOf t)) l := by
  have hstart : (startsNumber t.toList || isNumberWord t) = true := by
    rcases h.token with hnumeral | hword
    · simp [startsNumber_of_isNumeral hnumeral h.notDuration]
    · simp [hword]
  have hne : t ≠ "" := by
    rintro rfl
    revert hstart
    decide
  refine Reader.takes_token.bind ?_
  simp only [current_cons, beq_eq_false_iff_ne.2 hne, h.notDuration, hstart, if_true]
  exact (Reader.takes_ofExcept (numeralOf_eq h)).bind (Reader.takes_bump.bind takes_pure)

theorem takes_durationOperand {d : Duration} (hresolved : d.isTemplate = false)
    (hduration : isPositiveDuration d.text) :
    Takes g.bareOperand (d.text :: l) (.duration d) l := by
  have hne : d.text ≠ "" := by
    intro heq
    rw [heq] at hduration
    revert hduration
    decide
  have hd : d = ⟨d.text, false⟩ := by
    cases d
    cases hresolved
    rfl
  refine Reader.takes_token.bind ?_
  simp only [current_cons, beq_eq_false_iff_ne.2 hne, hduration, if_true]
  rw [← hd]
  exact Reader.takes_bump.bind takes_pure

/-- A string literal, with what it goes on with behind it. -/
theorem reads_quoted {value : String} (h : Reads E p stringOperand (quote value :: l) e s) :
    Reads E p g.bareOperand (quote value :: l) e s := by
  have htext : (quote value).toList = '"' :: (value.toList.flatMap quoteChar ++ ['"']) := by
    simp [quote]
  have hne : quote value ≠ "" := by
    intro heq
    rw [heq] at htext
    cases htext
  -- No literal is taken for a duration, a number or a word for one, which are tried first.
  have hduration : isPositiveDuration (quote value) = false := by
    rw [Bool.eq_false_iff]
    intro hfound
    rcases (isNumeral_of_isPositiveDuration hfound).start with ⟨c, cs, hcs, hstart⟩
    rw [htext] at hcs
    cases hcs
    exact absurd hstart (by decide)
  have hnumber : startsNumber (quote value).toList = false := by
    rw [htext]
    rfl
  have hword : isNumberWord (quote value) = false := by
    rw [Bool.eq_false_iff]
    intro hfound
    have hplain := isPlainWord_of_isNumberWord hfound
    unfold isPlainWord at hplain
    rw [htext] at hplain
    simp only [Bool.and_eq_true] at hplain
    exact absurd hplain.1 (by decide)
  refine Reader.takes_token.bind ?_
  simp only [current_cons, beq_eq_false_iff_ne.2 hne, hduration, hnumber, hword, Bool.or_self,
    Reader.startsQuoted_quote, if_true]
  exact h

theorem takes_stringOperand (value : String) (hl : continues l = false) :
    Takes g.bareOperand (quote value :: l) (.string value) l := by
  refine reads_quoted ((Reader.takes_stringExpr hl).bind ?_)
  simp only [StringExpr.literal?_ofLiteral]
  exact takes_pure

theorem reads_tuple (h : Reads E p g.tuple ("(" :: l) e s) : Reads E p g.bareOperand ("(" :: l) e s := by
  refine Reader.takes_token.bind ?_
  have hclass : isPositiveDuration "(" = false ∧ startsNumber "(".toList = false ∧
      isNumberWord "(" = false ∧ startsQuoted "(".toList = false ∧ startsIdent "(".toList = false ∧
      ("(" == "") = false := by decide
  simp only [current_cons, hclass, Bool.or_self, beq_self_eq_true, if_true]
  exact h

theorem reads_brace (h : Reads E p Reader.metric ("\x7b" :: l) e s) :
    Reads E p g.bareOperand ("\x7b" :: l) e s := by
  refine Reader.takes_token.bind ?_
  have hclass : isPositiveDuration "\x7b" = false ∧ startsNumber "\x7b".toList = false ∧
      isNumberWord "\x7b" = false ∧ startsQuoted "\x7b".toList = false ∧
      startsIdent "\x7b".toList = false ∧ ("\x7b" == "") = false ∧ ("\x7b" == "(") = false := by
    decide
  simp only [current_cons, hclass, Bool.or_self, beq_self_eq_true, if_true]
  exact h

theorem reads_minus (h : Reads E p g.negation ("-" :: l) e s) :
    Reads E p g.bareOperand ("-" :: l) e s := by
  refine Reader.takes_token.bind ?_
  have hclass : isPositiveDuration "-" = false ∧ startsNumber "-".toList = false ∧
      isNumberWord "-" = false ∧ startsQuoted "-".toList = false ∧
      startsIdent "-".toList = false ∧ ("-" == "") = false ∧ ("-" == "(") = false ∧
      ("-" == "\x7b") = false := by
    decide
  simp only [current_cons, hclass, Bool.or_self, beq_self_eq_true, if_true]
  exact h

/-! ### Names -/

/-- Behind a name this token says that the name is that of a metric. -/
def tellsMetric (isAggregate : Bool) (next : String) : Bool :=
  next == "" || sameWord next "offset" ||
    if startsIdent next.toList then !isAggregate
    else isOperatorWord next || (next != "(" && ["\x7b", "[", ")", ",", "@"].contains next)

theorem reads_metricName {t next : String} (hl : l[0]?.getD "" = next)
    (hnext : tellsMetric (isAggregateName (unescapeIdent t)) next)
    (h : Reads E p Reader.metric (t :: l) e s) : Reads E p g.identExpr (t :: l) e s := by
  refine Reader.takes_token.bind ((Reader.takes_lookAt 1).bind ?_)
  simp only [current_cons, List.getElem?_cons_succ, hl]
  unfold tellsMetric at hnext
  by_cases hfirst : (next == "" || sameWord next "offset") = true
  · simp only [hfirst, if_true]
    exact h
  · rw [Bool.not_eq_true] at hfirst
    simp only [hfirst, Bool.false_or] at hnext
    by_cases hident : startsIdent next.toList = true
    · simp only [hident, if_true, Bool.not_eq_true'] at hnext
      simp only [hfirst, hident, hnext, if_true]
      exact h
    · rw [Bool.not_eq_true] at hident
      simp only [hident] at hnext
      by_cases hoperator : isOperatorWord next = true
      · simp only [hfirst, hident, hoperator, if_true]
        exact h
      · rw [Bool.not_eq_true] at hoperator
        have hlast : next ≠ "(" ∧ ["\x7b", "[", ")", ",", "@"].contains next = true := by
          simpa [hoperator] using hnext
        have hparen : (next == "(") = false := beq_eq_false_iff_ne.2 hlast.1
        simp only [hfirst, hident, hoperator, hparen, hlast.2, if_true]
        exact h

theorem reads_calledName {t : String} {isAggregate : Bool}
    (hname : isAggregateName (unescapeIdent t) = isAggregate)
    (h : Reads E p (if isAggregate then g.aggregate else g.call) (t :: "(" :: l) e s) :
    Reads E p g.identExpr (t :: "(" :: l) e s := by
  refine Reader.takes_token.bind ((Reader.takes_lookAt 1).bind ?_)
  have hparen : ("(" == "" || sameWord "(" "offset") = false ∧ startsIdent "(".toList = false ∧
      isOperatorWord "(" = false := by decide
  simp only [current_cons, List.getElem?_cons_succ, List.getElem?_cons_zero, Option.getD_some,
    hparen, hname, beq_self_eq_true, if_true]
  cases isAggregate <;> exact h

end Grammar
/-! ## Names of functions -/

theorem unescape_of_forall {cs : List Char} (h : ∀ c ∈ cs, c ≠ '\\') : unescape cs = cs := by
  simpa [unescape] using unescape_append h []

/-- A name whose identifier is some word without escapes is that word. -/
theorem sameWord_of_escapeIdent {name word : String} (h : IsLegible name)
    (hword : '\\' ∉ word.toList.map Char.toLower)
    (hsame : sameWord (escapeIdent name) word) : sameWord name word := by
  have htext := toList_of_sameWord hsame
  have hplain : ∀ c ∈ (escapeIdent name).toList, c ≠ '\\' := by
    rintro c hc rfl
    have hmem : ('\\' : Char).toLower ∈ word.toList.map Char.toLower := by
      rw [← htext]
      exact List.mem_map_of_mem hc
    exact hword hmem
  have heq : escapeIdent name = name := by
    have hunescape := h.unescape
    rw [unescapeIdent, unescape_of_forall hplain, String.ofList_toList] at hunescape
    exact hunescape
  rwa [heq] at hsame

theorem isFunctionName_congr {name other : String} (h : sameWord name other) :
    isFunctionName name = isFunctionName other := by
  have heq : lower name = lower other := by simpa [sameWord] using h
  simp [isFunctionName, Builtin.find?, heq]

theorem isNumberWord_of_isFunctionName {name : String} (hlegible : IsLegible name)
    (h : isFunctionName name) : Grammar.isNumberWord (escapeIdent name) = false := by
  rw [Bool.eq_false_iff]
  intro hword
  simp only [Grammar.isNumberWord, Bool.or_eq_true] at hword
  have hnone : isFunctionName "inf" = false ∧ isFunctionName "nan" = false := by decide
  rcases hword with hsame | hsame
  · rw [isFunctionName_congr (sameWord_of_escapeIdent hlegible (by decide) hsame), hnone.1] at h
    cases h
  · rw [isFunctionName_congr (sameWord_of_escapeIdent hlegible (by decide) hsame), hnone.2] at h
    cases h

theorem notWith_of_isFunctionName {name : String} (hlegible : IsLegible name)
    (h : isFunctionName name) : sameWord (escapeIdent name) "with" = false := by
  rw [Bool.eq_false_iff]
  intro hsame
  have hnone : isFunctionName "with" = false := by decide
  rw [isFunctionName_congr (sameWord_of_escapeIdent hlegible (by decide) hsame), hnone] at h
  cases h

/-! ## Metrics, calls and tuples -/

namespace Grammar

variable {g : Grammar} {l : List String}

theorem tellsMetric_bareEnds : ∀ t ∈ Expr.bareEnds, tellsMetric false t ∧
    ((startsIdent t.toList → t = "offset") → tellsMetric true t) := by
  decide

theorem brace_not_mem_bareEnds : "\x7b" ∉ Expr.bareEnds := by
  decide

theorem takes_metricOperand {s : Selector} (h : LegibleSelector s)
    (hl : current l ∈ Expr.bareEnds) (hstand : (Expr.selector s).standsBefore l) :
    Takes g.bareOperand (s.tokens ++ l) (.selector s.reread) l := by
  have hbrace : current l ≠ "\x7b" := by
    intro heq
    rw [heq] at hl
    exact brace_not_mem_bareEnds hl
  have hmetric := Reader.takes_metric (fun name hname => (h.name name hname).1) h.groups hbrace
  unfold Selector.tokens at hmetric ⊢
  cases hname : s.name? with
  | none =>
      simp only [hname] at hmetric
      exact reads_brace hmetric
  | some name =>
      simp only [hname, List.cons_append] at hmetric ⊢
      have hlegible := h.name name hname
      refine reads_ident (startsIdent_escapeIdent hlegible.1.ne_empty) hlegible.2 ?_
      -- The token behind the name tells that it is a metric: a brace, or what stands behind it.
      cases hgroups : s.writtenGroups with
      | cons group groups =>
          simp only [hgroups] at hmetric
          refine reads_metricName (show _ = "\x7b" from rfl) ?_ hmetric
          have hboth : ∀ isAggregate, tellsMetric isAggregate "\x7b" := by decide
          exact hboth _
      | nil =>
          simp only [hgroups] at hmetric
          have hnext : ([] ++ l)[0]?.getD "" = current l := by
            cases l <;> rfl
          refine reads_metricName hnext ?_ hmetric
          have hends := tellsMetric_bareEnds _ hl
          rw [hlegible.1.unescape]
          cases haggregate : isAggregateName name with
          | false => exact hends.1
          | true => exact hends.2 fun hident => hstand hgroups ⟨name, hname, haggregate⟩ hident

theorem words_bareEnds : ∀ t ∈ Expr.bareEnds, sameWord t "keep_metric_names" = false ∧
    (sameWord t "by" || sameWord t "without") = false ∧ sameWord t "limit" = false := by
  decide

section Arguments

variable {args : List Expr} {fits : Expr → Prop}
  (hargs : ∀ a ∈ args, Reader.ReadsItem E (fits a) g.expression a.tokens a.written)
include hargs

theorem reads_arguments (l : List String) :
    Reads E (∀ a ∈ args, fits a) g.arguments (listTokens (args.map Expr.tokens) ++ l)
      (args.map Expr.written) l :=
  Reader.reads_parenthesized .args hargs l

theorem reads_call {name : String} (hlegible : IsLegible name) (hfunction : isFunctionName name)
    (hcall : isAggregateName name = false) (keep : Bool) (hl : current l ∈ Expr.bareEnds) :
    Reads E (∀ a ∈ args, fits a) g.bareOperand
      (escapeIdent name :: (listTokens (args.map Expr.tokens) ++
        ((if keep then ["keep_metric_names"] else []) ++ l)))
      (.call name (args.map Expr.written) keep) l := by
  refine reads_ident (startsIdent_escapeIdent hlegible.ne_empty)
    (isNumberWord_of_isFunctionName hlegible hfunction) ?_
  refine reads_calledName (show _ = false by rw [hlegible.unescape, hcall]) ?_
  refine (Reader.takes_identifier hlegible .function).bind ((reads_arguments hargs _).bind ?_)
  cases keep with
  | true =>
      have hword : sameWord "keep_metric_names" "keep_metric_names" := by decide
      exact (Reader.takes_isWord hword).ifTrue (Reader.takes_bump.bind takes_pure)
  | false =>
      have hnone : Takes Reader.atKeepNames l false l :=
        Reader.takes_notWord (words_bareEnds _ hl).1
      exact hnone.ifFalse takes_pure

omit hargs in
theorem takes_laterGrouping {grouping : Option Grouping}
    (hgrouping : ∀ x ∈ grouping, LegibleLabels x.labels) {l : List String}
    (hl : (sameWord (current l) "by" || sameWord (current l) "without") = false) :
    Takes (laterGrouping none) (optionTokens Grouping.tokens grouping ++ l) grouping l := by
  have hat := Reader.takes_atGrouping (s := optionTokens Grouping.tokens grouping ++ l)
  cases grouping with
  | none =>
      simp only [optionTokens, List.nil_append, hl] at hat ⊢
      exact hat.ifFalse takes_pure
  | some x =>
      have hword : (sameWord (current (x.tokens ++ l)) "by" ||
          sameWord (current (x.tokens ++ l)) "without") = true := by
        cases x <;> simp only [Grouping.tokens, List.cons_append, current_cons] <;> decide
      simp only [optionTokens, hword] at hat ⊢
      refine hat.ifTrue ?_
      exact (Reader.takes_grouping (hgrouping x rfl)).bind takes_pure

omit hargs in
theorem suffix_limit (a : Aggregation) (l : List String) (hl : current l ∈ Expr.bareEnds) :
    (sameWord (current ((if 0 < a.limit then ["limit", toString a.limit] else []) ++ l)) "by" ||
      sameWord (current ((if 0 < a.limit then ["limit", toString a.limit] else []) ++ l))
        "without") = false := by
  split
  · simp only [List.cons_append, current_cons]
    decide
  · exact (words_bareEnds _ hl).2.1

theorem reads_aggregate {a : Aggregation} (h : LegibleAggregation a)
    (hl : current l ∈ Expr.bareEnds) :
    Reads E (∀ a ∈ args, fits a) g.bareOperand
      (escapeIdent a.name :: (listTokens (args.map Expr.tokens) ++ (a.suffixTokens ++ l)))
      (.aggregate a (args.map Expr.written)) l := by
  have hfunction := isFunctionName_of_isAggregateName h.isAggregate
  refine reads_ident (startsIdent_escapeIdent h.name.ne_empty)
    (isNumberWord_of_isFunctionName h.name hfunction) ?_
  refine reads_calledName (show _ = true by rw [h.name.unescape, h.isAggregate]) ?_
  refine (Reader.takes_identifier h.name .aggregate).bind (Reader.takes_token.bind ?_)
  have hparen : startsIdent "(".toList = false := by decide
  simp only [current_cons, hparen]
  refine Takes.bind (r := pure none) takes_pure ?_
  refine (Reader.takes_isToken rfl).ifTrue ?_
  refine (reads_arguments hargs _).bind ?_
  unfold Aggregation.suffixTokens
  rw [List.append_assoc]
  -- No grouping stands before the arguments, so one behind them is the first.
  refine (takes_laterGrouping h.grouping (suffix_limit a l hl)).bind ?_
  have hname : (⟨lower a.name, a.grouping, a.limit⟩ : Aggregation) = a := by rw [h.lower]
  split
  · have hword : sameWord "limit" "limit" := by decide
    refine (Reader.takes_isWord hword).bind
      (Takes.bind (r := Reader.limit) (Reader.takes_limit h.limit) ?_)
    rw [hname]
    exact takes_pure
  · rename_i hnone
    have hzero : a.limit = 0 := by omega
    refine (Reader.takes_notWord (words_bareEnds _ hl).2.2).bind
      (Takes.bind (r := pure 0) takes_pure ?_)
    rw [← hzero, hname]
    exact takes_pure

theorem reads_items (hl : current l ∈ Expr.bareEnds) :
    Reads E (∀ a ∈ args, fits a) g.bareOperand (listTokens (args.map Expr.tokens) ++ l)
      (.tuple (args.map Expr.written)) l := by
  refine reads_tuple ((reads_arguments hargs l).bind ?_)
  have hnone : Takes Reader.atKeepNames l false l := Reader.takes_notWord (words_bareEnds _ hl).1
  exact hnone.ifFalse takes_pure

end Arguments

section Parens

variable {fits : Prop} {ts : List String} {e : Expr}
  (h : Reader.ReadsItem E fits g.expression ts e)
include h

theorem reads_argument (l : List String) :
    Reads E fits g.arguments ("(" :: (ts ++ ")" :: l)) [e] l := by
  rcases h with ⟨hne, hparen, hread⟩
  have hstart : current (ts ++ ")" :: l) ≠ ")" := by rwa [current_append hne]
  exact Reader.reads_itemsInParens (Reader.reads_lastItem _ _ hstart (hread _ (.inr rfl)))

/-- An expression in parentheses. -/
theorem reads_parens (hl : current l ∈ Expr.bareEnds) :
    Reads E fits g.bareOperand ("(" :: (ts ++ ")" :: l)) (.tuple [e]) l := by
  refine reads_tuple ((reads_argument h l).bind ?_)
  have hnone : Takes Reader.atKeepNames l false l := Reader.takes_notWord (words_bareEnds _ hl).1
  exact hnone.ifFalse takes_pure

end Parens

/-- A binary operator in parentheses with the mark that the names of metrics are kept. -/
theorem reads_markedParens {fits : Prop} {ts : List String} {b : BinaryOp} {x y : Expr}
    (h : Reader.ReadsItem E fits g.expression ts (.binary b x y)) :
    Reads E fits g.bareOperand ("(" :: (ts ++ ")" :: "keep_metric_names" :: l))
      (.tuple [.binary { b with keepNames := true } x y]) l := by
  have hword : sameWord "keep_metric_names" "keep_metric_names" := by decide
  refine reads_tuple ((reads_argument h _).bind ?_)
  exact (Reader.takes_isWord hword).ifTrue (Reader.takes_bump.bind takes_pure)

/-- A negative number is read as the negation of an operand. -/
theorem reads_negation {fits : Prop} {t : String} {e : Expr}
    (h : Reads E fits g.operand (t :: l) e l) :
    Reads E fits g.bareOperand ("-" :: t :: l) (.binary (.plain .sub) (.ofFloat 0.0) e) l :=
  reads_minus (Reader.takes_bump.bind (h.bind takes_pure))

/-! ## Ranges -/

theorem takes_atTemplates {s : List String}
    (h : sameWord (current s) "with" = false ∨ s[1]?.getD "" ≠ "(") :
    Takes atTemplates s false s := by
  by_cases hwith : sameWord (current s) "with" = true
  · have hparen : (s[1]?.getD "" == "(") = false := by
      rcases h with h | h
      · rw [hwith] at h
        cases h
      · exact beq_eq_false_iff_ne.2 h
    have hword := Reader.takes_atWord (s := s) "with"
    rw [hwith] at hword
    refine hword.ifTrue ((Reader.takes_lookAt 1).bind ?_)
    rw [hparen]
    exact takes_pure
  · rw [Bool.not_eq_true] at hwith
    exact (Reader.takes_notWord hwith).ifFalse takes_pure

section Full

variable {p q : Prop} {s m : List String} {e inner : Expr}
  (hs : sameWord (current s) "with" = false ∨ s[1]?.getD "" ≠ "(")
include hs

theorem reads_fullOperand (h : Reads E p g.bareOperand s e l)
    (hl : startsRange (current l) = false) : Reads E p g.fullOperand s e l := by
  refine (takes_atTemplates hs).ifFalse (h.bind (Reader.takes_token.bind ?_))
  simp only [hl]
  exact takes_pure

theorem reads_rangedOperand (h : Reads E p g.bareOperand s inner m)
    (hm : startsRange (current m)) (hr : Reads E q (g.rollup inner) m e l) :
    Reads E (p ∧ q) g.fullOperand s e l := by
  refine (takes_atTemplates hs).ifFalse (reads_bind h (Reader.takes_token.bind ?_))
  simp only [hm, if_true]
  exact hr

end Full

theorem not_range_operandEnds : ∀ t ∈ Expr.operandEnds, t ≠ "[" ∧ t ≠ "@" ∧
    sameWord t "offset" = false ∧ startsRange t = false ∧ t ∈ Expr.bareEnds := by
  decide

theorem reads_time (hat : ∀ cause, E cause → E (.atExpr cause)) {p : Prop} {s m : List String}
    {e : Expr} (h : Reads E p g.bareOperand s e m) : Reads E p g.time ("@" :: s) (some e) m := by
  refine (Reader.takes_isToken rfl).ifTrue (Reader.takes_bump.bind ?_)
  intro ahead
  constructor
  · intro hp
    rcases (h ahead).1 hp with ⟨ahead', heq⟩
    exact ⟨ahead', by simp only [heq]⟩
  · intro hp
    rcases (h ahead).2 hp with ⟨cause, heq, hcause⟩
    exact ⟨.atExpr cause, by simp only [heq], hat cause hcause⟩

theorem takes_noTime {s : List String} (h : current s ≠ "@") : Takes g.time s none s :=
  (Reader.takes_notToken h).ifFalse takes_pure

theorem takes_laterTime {s : List String} (h : current s ≠ "@") (e : Expr) :
    Takes (g.laterTime (some e)) s (some e) s := by
  refine (Reader.takes_notToken h).bind ?_
  exact takes_pure

theorem reads_laterTime {p : Prop} {s m : List String} {time : Option Expr}
    (h : Reads E p g.time s time m) : Reads E p (g.laterTime none) s time m :=
  (Reader.takes_atToken "@").bind h

theorem takes_keepsNone {α : Type} {k : Bool → Reader α} {a : α}
    (hl : current l ∈ Expr.bareEnds) (hk : Takes (k false) l a l) :
    Takes (Reader.atKeepNames >>= k) l a l :=
  Takes.bind (Reader.takes_notWord (words_bareEnds _ hl).1) hk

/-- The range of an operand, with the time behind the offset.  Where there is no offset, none may
follow the time. -/
theorem reads_rangeAndTime {p : Prop} {s : List String} (inner : Expr) {range : Range}
    {time : Option Expr} (hwindow : ReadableWindow range)
    (hoffset : ∀ d ∈ range.offset, LegibleOffset d) (hl : current l ∈ Expr.bareEnds)
    (hs : current s ≠ "[")
    (hend : range.offset = none → sameWord (current l) "offset" = false ∧ current l ≠ "@")
    (htime : Reads E p g.time s time l) :
    Reads E p (g.rollup inner) (range.tokens ++ s) (.rollup inner range.reread time) l := by
  unfold Range.tokens
  rw [List.append_assoc]
  cases hrange : range.offset with
  -- The time stands behind the offset, and none is found in front of it.
  | some d =>
      have hword : current (optionTokens (fun d => "offset" :: signedTokens d.render) (some d) ++ s) =
          "offset" := rfl
      have hafter := Reader.takes_window (l := optionTokens
        (fun d => "offset" :: signedTokens d.render) (some d) ++ s) hwindow (by rw [hword]; decide)
      refine hafter.bind ((takes_noTime (by rw [hword]; decide)).bind ?_)
      refine (Reader.takes_offset (hoffset d hrange)).bind ((reads_laterTime htime).bind ?_)
      have hdone : Takes (pure (.rollup inner { range.reread with offset := some d } time) :
          Reader Expr) l (.rollup inner range.reread time) l := by
        have heq : { range.reread with offset := some d } = range.reread := by
          simp [Range.reread, hrange]
        rw [heq]
        exact takes_pure
      exact takes_keepsNone hl hdone
  -- The time is read where it might stand before an offset, and no second one behind that.
  | none =>
      have hends := hend hrange
      have hdone : ∀ time, Takes (pure (.rollup inner { range.reread with offset := none } time) :
          Reader Expr) l (.rollup inner range.reread time) l := by
        intro time
        have heq : { range.reread with offset := none } = range.reread := by
          simp [Range.reread, hrange]
        rw [heq]
        exact takes_pure
      have hoffsetNone := Reader.takes_noOffset (l := l) hends.1
      simp only [optionTokens, List.nil_append]
      refine (Reader.takes_window hwindow hs).bind (htime.bind ?_)
      refine hoffsetNone.bind ?_
      cases time with
      | none =>
          refine (reads_laterTime (takes_noTime hends.2)).bind ?_
          exact takes_keepsNone hl (hdone none)
      | some e =>
          refine (takes_laterTime hends.2 e).bind ?_
          exact takes_keepsNone hl (hdone (some e))

theorem reads_rollup {p : Prop} {s : List String} (inner : Expr) {range : Range}
    {time : Option Expr} (hwindow : ReadableWindow range)
    (hoffset : ∀ d ∈ range.offset, LegibleOffset d) (hl : current l ∈ Expr.operandEnds)
    (htime : Reads E p g.time s time l) (hs : current s = "@" ∨ time = none ∧ s = l) :
    Reads E p (g.rollup inner) (range.tokens ++ s) (.rollup inner range.reread time) l := by
  have hends := not_range_operandEnds _ hl
  refine reads_rangeAndTime inner hwindow hoffset hends.2.2.2.2 ?_ (fun _ => ⟨hends.2.2.1, hends.2.1⟩)
    htime
  rcases hs with hs | ⟨_, rfl⟩
  · rw [hs]
    decide
  · exact hends.1

end Grammar

end SeriesQuery
