import SeriesQuery.Proofs.EmbeddedOperands
import SeriesQuery.Proofs.LeftOperands

/-!
# Marks behind ranges

The mark that the names of metrics are kept belongs to a call or to an operator in parentheses.  It
may stand behind a range of the operand.  A call gets the mark there as it does before the range; an
operator does not, as it is still in its parentheses where the range is read, and the mark is left
behind (`parse_keepNames_range`).
-/

namespace SeriesQuery

open Text

/-! ## Tokens of operands and of ranges -/

namespace Expr

/-- All these tokens together are read as the expression. -/
def Denotes (ts : List String) (e : Expr) : Prop :=
  ∃ ahead ahead', Reader.expression depthBudget ⟨ts, none, ahead⟩ = .ok (e, ⟨[], none, ahead'⟩)

/-- The tokens are those of the expressions with commas between them, and of the closing parenthesis.
A comma may stand behind the last expression. -/
inductive DenotesList : List String → List Expr → Prop where
  | nil : DenotesList [")"] []
  | last {ts : List String} {e : Expr} : Denotes ts e → DenotesList (ts ++ [")"]) [e]
  | cons {ts us : List String} {e : Expr} {es : List Expr} :
      Denotes ts e → DenotesList us es → DenotesList (ts ++ "," :: us) (e :: es)

/-- In front of a parenthesis the token is the name of a function. -/
structure IsCallName (t : String) : Prop where
  ident : startsIdent t.toList
  notNumber : Grammar.isNumberWord t = false
  notTemplates : sameWord t "with" = false
  notAggregate : isAggregateName (unescapeIdent t) = false

/-- The tokens are those of a call without a mark. -/
def DenotesCall (xs : List String) (name : String) (args : List Expr) : Prop :=
  ∃ t us, xs = t :: "(" :: us ∧ IsCallName t ∧ name = unescapeIdent t ∧ DenotesList us args

/-- The tokens are those of expressions in parentheses. -/
def DenotesParens (xs : List String) (items : List Expr) : Prop :=
  ∃ us, xs = "(" :: us ∧ DenotesList us items

end Expr

/-- A window and an offset, of which either may be missing. -/
def Reader.suffix : Reader Range := do
  let range ← window
  let offset ← offset
  return { range with offset }

/-- All these tokens together are read as a range, and there are some. -/
structure DenotesRange (ss : List String) (range : Range) : Prop where
  visible : ss ≠ []
  read : ∃ ahead ahead', Reader.suffix ⟨ss, none, ahead⟩ = .ok (range, ⟨[], none, ahead'⟩)

/-! ## Lists -/

theorem Refuses.fails {α : Type} {r : Reader α} {s l : List String} {a : α} (h : Refuses r s) :
    Reads (fun _ => True) False r s a l := by
  intro ahead
  obtain ⟨cause, herror⟩ := h ahead
  exact ⟨False.elim, fun _ => ⟨cause, herror, trivial⟩⟩

namespace Reader

/-- No operand starts with a closing parenthesis. -/
theorem refuses_closing (budget : Nat) (s : List String) :
    Refuses (expression budget) (")" :: s) := by
  refine Refuses.bind ?_
  by_cases hbudget : 4 ≤ budget
  · obtain ⟨b, rfl⟩ := Nat.exists_eq_add_of_le' hbudget
    rw [operand_add]
    have hnone : Takes Grammar.atTemplates (")" :: s) false (")" :: s) :=
      Grammar.takes_atTemplates (.inl (by rw [current_cons]; decide))
    have hclass : isPositiveDuration ")" = false ∧ startsNumber ")".toList = false ∧
        Grammar.isNumberWord ")" = false ∧ startsQuoted ")".toList = false ∧
        startsIdent ")".toList = false ∧ (")" == "") = false ∧ (")" == "(") = false ∧
        (")" == "\x7b") = false ∧ (")" == "-") = false ∧ (")" == "+") = false := by
      decide
    have hbare : Refuses (grammar b).bareOperand (")" :: s) := by
      refine takes_token.refuses ?_
      simp only [current_cons, hclass, Bool.or_self]
      exact refuses_unexpected _ _
    exact hnone.refuses hbare.bind
  · rw [operand_of_lt (by omega)]
    exact refuses_throw _

end Reader

namespace Expr

variable {ts us : List String} {e : Expr} {es : List Expr}

theorem Denotes.not_refuses (h : Denotes ts e) : ¬Refuses (Reader.expression depthBudget) ts := by
  obtain ⟨ahead, ahead', hread⟩ := h
  intro hrefuses
  obtain ⟨cause, herror⟩ := hrefuses ahead
  rw [hread] at herror
  cases herror

theorem Denotes.ne_nil (h : Denotes ts e) : ts ≠ [] := by
  rintro rfl
  exact h.not_refuses (Reader.refuses_expression depthBudget)

theorem Denotes.current_ne (h : Denotes ts e) (l : List String) : current (ts ++ l) ≠ ")" := by
  rw [current_append h.ne_nil]
  cases ts with
  | nil => decide
  | cons t ts =>
      rintro rfl
      exact h.not_refuses (Reader.refuses_closing depthBudget ts)

/-- An expression is read as one of a list, unless it is nested too deep there. -/
theorem Denotes.reads (h : Denotes ts e) (budget : Nat) {l : List String}
    (hl : current l = "," ∨ current l = ")") :
    ∃ p : Prop, Reads ParseError.OfNesting p (Reader.expression budget) (ts ++ l) e l := by
  obtain ⟨ahead, ahead', hread⟩ := h
  have hends : current l ∈ exprEnds := by
    rcases hl with hl | hl <;> rw [hl] <;> decide
  have hembeds := Reader.embeds_expression ParseError.OfNesting.tooNested (fun _ => .atExpr)
    depthBudget budget ts
  obtain ⟨p, -, hreads⟩ := (hembeds _ _ _ hread).2 l (.inr hends)
  exact ⟨p, hreads⟩

/-- The induction is on the list, each part of which takes some of the fuel. -/
theorem DenotesList.reads_items (h : DenotesList us es) (what : Construct) (budget : Nat)
    (fuel : Nat) (hfuel : us.length ≤ fuel) (l : List String) :
    ∃ p : Prop, Reads ParseError.OfNesting p
      (Reader.items what (Reader.expression budget) fuel) (us ++ l) es (")" :: l) := by
  induction h generalizing fuel with
  | nil =>
      obtain ⟨fuel, rfl⟩ := Nat.exists_eq_add_of_le' hfuel
      have hend : Takes (Reader.items what (Reader.expression budget) (fuel + 1)) (")" :: l) []
          (")" :: l) :=
        (Reader.takes_isToken rfl).ifTrue takes_pure
      exact ⟨True, hend.reads trivial⟩
  | last h =>
      rw [List.length_append, List.length_singleton] at hfuel
      obtain ⟨fuel, rfl⟩ := Nat.exists_eq_add_of_le' (Nat.le_of_add_left_le hfuel)
      obtain ⟨p, hitem⟩ := h.reads budget (l := ")" :: l) (.inr rfl)
      rw [List.append_assoc, List.singleton_append]
      exact ⟨p, Reader.reads_lastItem what fuel (h.current_ne _) hitem⟩
  | @cons _ us _ _ h _ ih =>
      rw [List.length_append, List.length_cons] at hfuel
      obtain ⟨fuel, rfl⟩ := Nat.exists_eq_add_of_le' (by omega : 1 ≤ fuel)
      obtain ⟨p, hitem⟩ := h.reads budget (l := "," :: (us ++ l)) (.inl rfl)
      obtain ⟨q, hrest⟩ := ih fuel (by omega)
      rw [List.append_assoc, List.cons_append]
      refine ⟨p ∧ q, (Reader.takes_notToken (h.current_ne _)).ifFalse (reads_bind hitem ?_)⟩
      refine (Reader.takes_isToken rfl).ifTrue (Reader.takes_bump.bind ?_)
      exact hrest.bind takes_pure

theorem DenotesList.reads_arguments (h : DenotesList us es) (budget : Nat) (l : List String) :
    ∃ p : Prop, Reads ParseError.OfNesting p (Reader.grammar budget).arguments
      ("(" :: (us ++ l)) es l := by
  have hfuel : us.length ≤ (us ++ l).length + 1 := by
    rw [List.length_append]
    omega
  obtain ⟨p, hitems⟩ := h.reads_items .args budget _ hfuel l
  exact ⟨p, Reader.reads_itemsInParens hitems⟩

end Expr

/-! ## Ranges -/

theorem sameWord_congr {t word : String} (h : sameWord t word) (other : String) :
    sameWord t other = sameWord word other := by
  have heq : lower t = lower word := by simpa [sameWord] using h
  simp only [sameWord, heq]

namespace DenotesRange

variable {ss : List String} {range : Range} (h : DenotesRange ss range)
include h

/-- The tokens of the window come before those of the offset. -/
theorem split : ∃ (window : Range) (offset : Option Duration) (m : List String),
    range = { window with offset } ∧ (current ss = "[" ∨ m = ss) ∧
      (m = [] ∨ sameWord (current m) "offset") ∧
      ∀ l, l = [] ∨ current l ∈ rangeEnds →
        Takes Reader.window (ss ++ l) window (m ++ l) ∧ Takes Reader.offset (m ++ l) offset l := by
  obtain ⟨ahead, ahead', hread⟩ := h.read
  obtain ⟨window, ⟨m, failure, middle⟩, hwindow, hrest⟩ := Reader.exists_of_bind hread
  -- Neither part has a depth, so each is read in front of the ends without conditions.
  have hembeds : ∀ {s}, Embeds (fun _ => False) rangeEnds True Reader.window Reader.window s ∧
      Embeds (fun _ => False) rangeEnds True Reader.offset Reader.offset s :=
    ⟨Reader.embeds_window, Reader.embeds_offset⟩
  obtain ⟨hfailure, hreads⟩ := hembeds.1 _ _ _ hwindow
  cases (hfailure : failure = none)
  obtain ⟨offset, left, hoffset, hdone⟩ := Reader.exists_of_bind hrest
  cases hdone
  obtain ⟨-, hreads'⟩ := hembeds.2 _ _ _ hoffset
  refine ⟨window, offset, m, rfl, ?_, ?_, fun l hl => ?_⟩
  · by_cases hopen : current ss = "["
    · exact .inl hopen
    · have hnone : Takes Reader.window ss .none ss :=
        (Reader.takes_notToken hopen).ifFalse takes_pure
      obtain ⟨_, heq⟩ := hnone.eq ahead
      rw [hwindow] at heq
      cases heq
      exact .inr rfl
  · by_cases hword : sameWord (current m) "offset" = true
    · exact .inr hword
    · obtain ⟨_, heq⟩ := (Reader.takes_noOffset (by simpa using hword)).eq middle
      rw [hoffset] at heq
      cases heq
      exact .inl rfl
  · obtain ⟨p, hp, hfirst⟩ := hreads l hl
    obtain ⟨q, hq, hsecond⟩ := hreads' l hl
    exact ⟨hfirst.congr (iff_true_intro (hp trivial)), hsecond.congr (iff_true_intro (hq trivial))⟩

theorem start (l : List String) : Grammar.startsRange (current (ss ++ l)) ∧
    sameWord (current (ss ++ l)) "keep_metric_names" = false := by
  obtain ⟨-, -, m, -, hopen, hword, -⟩ := h.split
  rw [current_append h.visible]
  rcases hopen with hopen | rfl
  · rw [hopen]
    decide
  · have hoffset := hword.resolve_left h.visible
    refine ⟨by simp [Grammar.startsRange, hoffset], ?_⟩
    rw [sameWord_congr hoffset]
    decide

end DenotesRange

namespace Grammar

/-- The mark behind a range is taken by an operand that can have it. -/
inductive TakesMark (inner : Expr) : List String → Expr → List String → Prop where
  | marked {e : Expr} {l : List String} :
      inner.markKeepNames = some e → TakesMark inner ("keep_metric_names" :: l) e l
  | left {l : List String} : inner.markKeepNames = none → TakesMark inner l inner l
  | absent {l : List String} :
      sameWord (current l) "keep_metric_names" = false → TakesMark inner l inner l

variable {g : Grammar} {ss l m : List String} {range : Range} {inner e : Expr}

theorem takes_rollup (h : DenotesRange ss range) (hl : l = [] ∨ current l ∈ rangeEnds)
    (hmark : TakesMark inner l e m) :
    Takes (g.rollup inner) (ss ++ l) (.rollup e range none) m := by
  obtain ⟨window, offset, rest, rfl, -, hword, hreads⟩ := h.split
  obtain ⟨hwindow, hoffset⟩ := hreads l hl
  -- A time might stand behind the window or behind the offset, and stands at neither place.
  have hends : ∀ t ∈ "" :: rangeEnds, t ≠ "@" := by decide
  have hafter : current l ≠ "@" := hends _ (current_mem hl)
  have hbetween : current (rest ++ l) ≠ "@" := by
    rcases hword with rfl | hword
    · exact hafter
    · have hne : rest ≠ [] := by
        rintro rfl
        exact absurd hword (by decide)
      rw [current_append hne]
      intro hat
      rw [hat] at hword
      exact absurd hword (by decide)
  refine hwindow.bind ((takes_noTime hbetween).bind (hoffset.bind ?_))
  refine (reads_laterTime (takes_noTime hafter)).bind ?_
  have hkept : sameWord "keep_metric_names" "keep_metric_names" := by decide
  cases hmark with
  | marked hmark =>
      refine (Reader.takes_isWord hkept).ifTrue ?_
      rw [hmark]
      exact Reader.takes_bump.bind takes_pure
  | left hmark =>
      refine (Reader.takes_atWord _).bind ?_
      rw [hmark]
      split <;> exact takes_pure
  | absent hword => exact (Reader.takes_notWord hword).ifFalse takes_pure

/-! ## Operands -/

variable {xs : List String} {name : String} {args items marked : List Expr}

theorem reads_callBefore (h : Expr.DenotesCall xs name args)
    (hmark : TakesMark (.call name args false) l e m) (budget : Nat) :
    ∃ p : Prop, Reads ParseError.OfNesting p (Reader.grammar budget).bareOperand (xs ++ l) e m := by
  obtain ⟨t, us, rfl, hname, rfl, hlist⟩ := h
  obtain ⟨p, hargs⟩ := hlist.reads_arguments budget l
  refine ⟨p, reads_ident hname.ident hname.notNumber (reads_calledName hname.notAggregate ?_)⟩
  have hident : Takes (Reader.identifier .function) (t :: "(" :: (us ++ l)) (unescapeIdent t)
      ("(" :: (us ++ l)) := by
    refine Reader.takes_token.bind ?_
    simp only [current_cons, hname.ident, if_true]
    exact Reader.takes_bump.bind takes_pure
  refine hident.bind (hargs.bind ?_)
  have hkept : sameWord "keep_metric_names" "keep_metric_names" := by decide
  cases hmark with
  | marked hmark =>
      cases hmark
      exact (Reader.takes_isWord hkept).ifTrue (Reader.takes_bump.bind takes_pure)
  | left hmark => cases hmark
  | absent hword => exact (Reader.takes_notWord hword).ifFalse takes_pure

theorem reads_parensBefore (h : Expr.DenotesParens xs items)
    (hmark : sameWord (current l) "keep_metric_names" = false ∨ markLone items = none)
    (budget : Nat) : ∃ p : Prop, Reads ParseError.OfNesting p
      (Reader.grammar budget).bareOperand (xs ++ l) (.tuple items) l := by
  obtain ⟨us, rfl, hlist⟩ := h
  obtain ⟨p, hitems⟩ := hlist.reads_arguments budget l
  refine ⟨p, reads_tuple (hitems.bind ((Reader.takes_atWord _).bind ?_))⟩
  rcases hmark with hword | hmark
  · simp only [hword]
    exact takes_pure
  · rw [hmark]
    split <;> exact takes_pure

theorem reads_parensWithMark (h : Expr.DenotesParens xs items)
    (hmark : markLone items = some marked) (budget : Nat) : ∃ p : Prop,
      Reads ParseError.OfNesting p (Reader.grammar budget).bareOperand
        (xs ++ "keep_metric_names" :: l) (.tuple marked) l := by
  obtain ⟨us, rfl, hlist⟩ := h
  obtain ⟨p, hitems⟩ := hlist.reads_arguments budget ("keep_metric_names" :: l)
  have hkept : sameWord "keep_metric_names" "keep_metric_names" := by decide
  refine ⟨p, reads_tuple (hitems.bind ((Reader.takes_isWord hkept).ifTrue ?_))⟩
  rw [hmark]
  exact Reader.takes_bump.bind takes_pure

end Grammar

/-! ## Queries -/

namespace Expr

section Queries

variable {query inside : String} {xs ss left : List String} {range : Range} {x e : Expr} {p : Prop}

theorem DenotesCall.start {name : String} {args : List Expr} (h : DenotesCall xs name args)
    (l : List String) : NotTemplates (xs ++ l) ∧ current (xs ++ l) ≠ ")" := by
  obtain ⟨t, us, rfl, hname, -, -⟩ := h
  refine ⟨notTemplates_of_current hname.notTemplates _, ?_⟩
  rintro rfl
  exact absurd hname.ident (by decide)

theorem DenotesParens.start {items : List Expr} (h : DenotesParens xs items) (l : List String) :
    NotTemplates (xs ++ l) ∧ current (xs ++ l) ≠ ")" := by
  obtain ⟨us, rfl, -⟩ := h
  refine ⟨notTemplates_paren _, ?_⟩
  rw [List.cons_append, current_cons]
  decide

theorem parse_of_reads {ts : List String} (htexts : Lexeme.texts query.toList = (ts, true))
    (h : Reads ParseError.OfNesting p (Reader.expression depthBudget) ts e []) :
    parse query = (e.expandTemplates >>= normalize) ∨ IsTooNested query := by
  have hread := ofText_of_reads htexts h
  by_cases hp : p
  · left
    unfold parse
    rw [hread.1 hp]
    rfl
  · right
    obtain ⟨cause, herror, hnesting⟩ := hread.2 hp
    refine ⟨cause, ?_, hnesting⟩
    unfold parse
    rw [herror]
    rfl

theorem parse_of_ofText_error (h : ∃ cause, ofText query = .error cause) :
    ∃ cause, parse query = .error cause := by
  obtain ⟨cause, herror⟩ := h
  refine ⟨cause, ?_⟩
  unfold parse
  rw [herror]
  rfl

/-- Around a range it does not matter whether the operand stands in parentheses. -/
theorem expandTemplates_rollup_tuple (x : Expr) (range : Range) (time : Option Expr) :
    (rollup (tuple [x]) range time).expandTemplates = (rollup x range time).expandTemplates := by
  have hinner := expandTemplates_inParens true x
  unfold expandTemplates at hinner ⊢
  have htuple : expandWith (enterTemplate maxExpansionDepth) builtinScope (tuple [x]) =
      expandWith (enterTemplate maxExpansionDepth) builtinScope x := hinner
  rw [expandWith, expandWith, htuple]

variable (hrange : DenotesRange ss range)
include hrange

theorem reads_rangedExpression {b : Nat} {s l : List String} (hstart : NotTemplates s)
    (hx : Reads ParseError.OfNesting p (Reader.grammar b).bareOperand s x (ss ++ l))
    (hl : l = [] ∨ current l ∈ rangeEnds) (hmark : Grammar.TakesMark x l e left)
    (hstop : Operator.ofWord? (current left) = none) :
    Reads ParseError.OfNesting p (Reader.expression (b + 4)) s (rollup e range none) left := by
  have hrollup := Grammar.takes_rollup (g := Reader.grammar b) hrange hl hmark
  have hoperand : Reads ParseError.OfNesting p (Reader.operand (b + 4)) s (rollup e range none)
      left := by
    rw [Reader.operand_add]
    exact (Grammar.reads_rangedOperand hstart hx (hrange.start l).1
      (hrollup.reads trivial)).congr (and_iff_left trivial)
  exact hoperand.bind (Reader.takes_chainStop _ _ hstop)

/-- A range behind the parentheses around an operand and its mark. -/
theorem reads_rangeBehindMark {b : Nat}
    (hstart : ∀ l, NotTemplates (xs ++ l) ∧ current (xs ++ l) ≠ ")")
    (hx : Reads ParseError.OfNesting p (Reader.grammar b).bareOperand
      (xs ++ "keep_metric_names" :: ")" :: ss) x (")" :: ss)) :
    Reads ParseError.OfNesting p (Reader.expression (b + 8))
      ("(" :: (xs ++ "keep_metric_names" :: ")" :: ss)) (rollup (tuple [x]) range none) [] := by
  have hword := (hrange.start []).2
  rw [List.append_nil] at hword
  have hitem : Reads ParseError.OfNesting p (Reader.expression (b + 4))
      (xs ++ "keep_metric_names" :: ")" :: ss) x (")" :: ss) :=
    Reader.reads_loneOperand (hstart _).1 hx (by rw [current_cons]; decide)
      (by rw [current_cons]; decide)
  have htuple : Reads ParseError.OfNesting p (Reader.grammar (b + 4)).bareOperand
      ("(" :: (xs ++ "keep_metric_names" :: ")" :: ss)) (tuple [x]) ss := by
    refine Grammar.reads_tuple
      ((Reader.reads_itemsInParens (Reader.reads_lastItem _ _ (hstart _).2 hitem)).bind ?_)
    exact (Reader.takes_notWord hword).ifFalse takes_pure
  exact reads_rangedExpression hrange (notTemplates_paren _) (by rwa [List.append_nil]) (.inl rfl)
    (.left rfl) rfl

variable (hquery : Lexeme.texts query.toList = (xs ++ (ss ++ ["keep_metric_names"]), true))
  (hinside : Lexeme.texts inside.toList =
    ("(" :: (xs ++ "keep_metric_names" :: ")" :: ss), true))

include hinside in
theorem parse_rangeBehindMark (hstart : ∀ l, NotTemplates (xs ++ l) ∧ current (xs ++ l) ≠ ")")
    (hx : ∃ p : Prop, Reads ParseError.OfNesting p (Reader.grammar (depthBudget - 8)).bareOperand
      (xs ++ "keep_metric_names" :: ")" :: ss) x (")" :: ss)) :
    parse inside = ((rollup x range none).expandTemplates >>= normalize) ∨ IsTooNested inside := by
  obtain ⟨p, hread⟩ := hx
  have hparse := parse_of_reads hinside (reads_rangeBehindMark hrange hstart hread)
  rwa [expandTemplates_rollup_tuple] at hparse

include hquery in
/-- Behind the range of expressions in parentheses the mark is left. -/
theorem parse_markBehindParens {items : List Expr} (h : DenotesParens xs items) :
    ∃ cause, parse query = .error cause := by
  have hword := (hrange.start ["keep_metric_names"]).2
  obtain ⟨p, hx⟩ := Grammar.reads_parensBefore h (.inl hword) (depthBudget - 4)
  have hmark : Grammar.TakesMark (tuple items) ["keep_metric_names"] (tuple items) _ := .left rfl
  have hread := reads_rangedExpression hrange (h.start _).1 hx (.inr (by decide)) hmark (by decide)
  exact parse_of_ofText_error (ofText_of_left hquery hread)

include hinside in
omit hrange in
/-- Expressions in parentheses that are no lone operator do not get the mark in any place. -/
theorem parse_markWithinParens {items : List Expr} (h : DenotesParens xs items)
    (hmark : Grammar.markLone items = none) : ∃ cause, parse inside = .error cause := by
  obtain ⟨p, hx⟩ := Grammar.reads_parensBefore (l := "keep_metric_names" :: ")" :: ss) h (.inr hmark)
    (depthBudget - 8)
  have hitem : Reads ParseError.OfNesting p (Reader.expression (depthBudget - 4))
      (xs ++ "keep_metric_names" :: ")" :: ss) (tuple items) ("keep_metric_names" :: ")" :: ss) :=
    Reader.reads_loneOperand (h.start _).1 hx (by rw [current_cons]; decide)
      (by rw [current_cons]; decide)
  -- Behind the item neither a comma nor the closing parenthesis is found.
  have hne : ∀ t ∈ [",", ")"], current ("keep_metric_names" :: ")" :: ss) ≠ t := by
    rw [current_cons]
    decide
  have hrefuses : ∀ fuel, Refuses (Reader.items .args (Reader.expression (depthBudget - 4))
      (fuel + 1)) (xs ++ "keep_metric_names" :: ")" :: ss) := fun fuel =>
    (Reader.takes_notToken (h.start _).2).refuses (hitem.refuses
      ((Reader.takes_notToken (hne _ (by simp))).refuses
        ((Reader.takes_notToken (hne _ (by simp))).refuses (refuses_unexpected _ _))))
  have htuple : Reads (fun _ => True) False (Reader.grammar (depthBudget - 4)).bareOperand
      ("(" :: (xs ++ "keep_metric_names" :: ")" :: ss)) (tuple []) [] :=
    Grammar.reads_tuple (Reads.fails_bind (a := []) (m := [])
      (Reader.reads_itemsInParens (hrefuses _).fails))
  have hread := Reader.reads_loneOperand (notTemplates_paren _) htuple (by decide) (by decide)
  obtain ⟨cause, herror, -⟩ := (ofText_of_reads hinside hread).2 not_false
  exact parse_of_ofText_error ⟨cause, herror⟩

end Queries

end Expr

/-! ## Marks -/

/-- A mark behind the range of a call is read as one before the range.  Behind the range of
parentheses it is never read, though within other parentheses it is that of an operator. -/
theorem parse_keepNames_range {query inside : String} {xs ss : List String} {range : Range}
    (hrange : DenotesRange ss range)
    (hquery : Lexeme.texts query.toList = (xs ++ (ss ++ ["keep_metric_names"]), true))
    (hinside : Lexeme.texts inside.toList =
      ("(" :: (xs ++ "keep_metric_names" :: ")" :: ss), true)) :
    (∀ name args, Expr.DenotesCall xs name args →
      let e := Expr.rollup (.call name args true) range none
      (parse query = (e.expandTemplates >>= normalize) ∨ IsTooNested query) ∧
        (parse inside = (e.expandTemplates >>= normalize) ∨ IsTooNested inside)) ∧
    ∀ items, Expr.DenotesParens xs items →
      (∃ cause, parse query = .error cause) ∧
        (∀ b l r, items = [.binary b l r] →
          let e := Expr.rollup (.binary { b with keepNames := true } l r) range none
          parse inside = (e.expandTemplates >>= normalize) ∨ IsTooNested inside) ∧
        (Grammar.markLone items = none → ∃ cause, parse inside = .error cause) := by
  constructor
  · intro name args h
    -- The call is given the mark by whichever reader comes to it first.
    have hmark : ∀ l, Grammar.TakesMark (.call name args false) ("keep_metric_names" :: l)
        (.call name args true) l := fun _ => .marked rfl
    constructor
    · have hword := (hrange.start ["keep_metric_names"]).2
      obtain ⟨p, hx⟩ := Grammar.reads_callBefore h (.absent hword) (depthBudget - 4)
      exact Expr.parse_of_reads hquery
        (Expr.reads_rangedExpression hrange (h.start _).1 hx (.inr (by decide)) (hmark []) rfl)
    · exact Expr.parse_rangeBehindMark hrange hinside h.start
        (Grammar.reads_callBefore h (hmark _) (depthBudget - 8))
  · intro items h
    refine ⟨Expr.parse_markBehindParens hrange hquery h, ?_, Expr.parse_markWithinParens hinside h⟩
    rintro b l r rfl
    have hparse := Expr.parse_rangeBehindMark hrange hinside h.start
      (Grammar.reads_parensWithMark h rfl (depthBudget - 8))
    rwa [Expr.expandTemplates_rollup_tuple] at hparse

/-- The last five minutes. -/
def lastMinutes : Range :=
  ⟨some ⟨"5m", false⟩, none, none, false⟩

theorem denotes_lastMinutes : DenotesRange ["[", "5m", "]"] lastMinutes :=
  ⟨by simp, 0, 0, by with_unfolding_all rfl⟩

/-- The sum of two metrics. -/
def sumOfTwo : Expr :=
  .binary (.plain .add) (.selector (.ofName "a")) (.selector (.ofName "b"))

theorem denotes_sumOfTwo : Expr.DenotesParens ["(", "a", "+", "b", ")"] [sumOfTwo] := by
  have hsum : Expr.Denotes ["a", "+", "b"] sumOfTwo := ⟨0, 0, by with_unfolding_all rfl⟩
  exact ⟨["a", "+", "b", ")"], rfl, .last hsum⟩

theorem parse_keepNames_range_rate :
    parse "rate(foo)[5m] keep_metric_names" = parse "(rate(foo) keep_metric_names)[5m]" ∧
      (parse "rate(foo)[5m] keep_metric_names").isOk ∧
      ∃ cause, parse "(a + b)[5m] keep_metric_names" = .error cause := by
  have hname : Expr.IsCallName "rate" :=
    ⟨by decide, by decide, by decide, by decide +kernel⟩
  have hfoo : Expr.Denotes ["foo"] (.selector (.ofName "foo")) :=
    ⟨0, 0, by with_unfolding_all rfl⟩
  have hcall : Expr.DenotesCall ["rate", "(", "foo", ")"] "rate" [.selector (.ofName "foo")] :=
    ⟨"rate", ["foo", ")"], rfl, hname, by decide +kernel, .last hfoo⟩
  have hbehind : Lexeme.texts "rate(foo)[5m] keep_metric_names".toList =
      (["rate", "(", "foo", ")"] ++ (["[", "5m", "]"] ++ ["keep_metric_names"]), true) := by
    decide +kernel
  have hbefore : Lexeme.texts "(rate(foo) keep_metric_names)[5m]".toList = ("(" ::
      (["rate", "(", "foo", ")"] ++ "keep_metric_names" :: ")" :: ["[", "5m", "]"]), true) := by
    decide +kernel
  have hparens : Lexeme.texts "(a + b)[5m] keep_metric_names".toList =
      (["(", "a", "+", "b", ")"] ++ (["[", "5m", "]"] ++ ["keep_metric_names"]), true) := by
    decide +kernel
  have hmarked : Lexeme.texts "((a + b) keep_metric_names)[5m]".toList = ("(" ::
      (["(", "a", "+", "b", ")"] ++ "keep_metric_names" :: ")" :: ["[", "5m", "]"]), true) := by
    decide +kernel
  have hok : (parse "rate(foo)[5m] keep_metric_names").isOk ∧
      (parse "(rate(foo) keep_metric_names)[5m]").isOk := by
    decide +kernel
  obtain ⟨hfirst, hsecond⟩ :=
    (parse_keepNames_range denotes_lastMinutes hbehind hbefore).1 _ _ hcall
  have hread := hfirst.resolve_right (not_isTooNested hok.1)
  exact ⟨hread.trans (hsecond.resolve_right (not_isTooNested hok.2)).symm, hok.1,
    ((parse_keepNames_range denotes_lastMinutes hparens hmarked).2 _ denotes_sumOfTwo).1⟩

/-- The mark behind the range of a sum is refused. -/
theorem not_parse_keepNames_range :
    ¬∀ (query inside : String) (xs ss : List String) (b : BinaryOp) (l r : Expr) (range : Range),
      Expr.DenotesParens xs [.binary b l r] → DenotesRange ss range →
      Lexeme.texts query.toList = (xs ++ (ss ++ ["keep_metric_names"]), true) →
      Lexeme.texts inside.toList = ("(" :: (xs ++ "keep_metric_names" :: ")" :: ss), true) →
      (parse query).isOk = (parse inside).isOk := by
  intro hclaim
  have hsame := hclaim "(a + b)[5m] keep_metric_names" "((a + b) keep_metric_names)[5m]" _ _ _ _ _ _
    denotes_sumOfTwo denotes_lastMinutes (by decide +kernel) (by decide +kernel)
  revert hsame
  decide +kernel

end SeriesQuery
