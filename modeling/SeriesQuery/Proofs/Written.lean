import SeriesQuery.Proofs.Outcomes
import SeriesQuery.Syntax.Query

/-!
# What the grammar reads

`Expr.Written` says what holds of the trees that the grammar reads, with the bodies of their
templates: calls and aggregates have names of their kind, filters are valid, operators have the
modifiers that they may have, and numbers and durations have the text that they were read from.  Each
rule of the grammar keeps to it.
-/

namespace SeriesQuery

open Text

/-! ## Trees as they are written -/

namespace BinaryOp

/-- The modifiers are those that the operator may have. -/
structure Written (b : BinaryOp) : Prop where
  asBool : b.asBool → b.op.isComparison
  join : b.join.isSome → b.matching.isSome ∧ b.op.isSetOperator = false
  joinLead : b.joinLead.isSome → b.join.isSome

theorem written_plain (op : Operator) : (plain op).Written where
  asBool := by simp [plain]
  join := by simp [plain]
  joinLead := by simp [plain]

theorem Written.withKeepNames {b : BinaryOp} (h : b.Written) (keepNames : Bool) :
    { b with keepNames }.Written where
  asBool := h.asBool
  join := h.join
  joinLead := h.joinLead

end BinaryOp

/-- The number has the value of the text that it keeps. -/
def NumberLiteral.Written (n : NumberLiteral) : Prop :=
  ∀ text ∈ n.text, readNumber text = .ok n.value

/-- The text is a duration without a sign, or a bare number of seconds. -/
def IsSpan (text : String) : Prop :=
  isPositiveDuration text ∨
    startsNumber text.toList ∧ Reader.bareSeconds text = .ok ⟨text, false⟩

/-- The duration is the name of a template, or has a text without a sign. -/
def Duration.Written (d : Duration) : Prop :=
  d.isTemplate ∨ IsSpan d.text

/-- The durations are those that a range may have; only its offset may have a minus. -/
structure Range.Written (r : Range) : Prop where
  window : ∀ d ∈ r.window, d.Written
  step : ∀ d ∈ r.step, d.Written
  offset : ∀ d ∈ r.offset, d.Written ∨ ∃ text, IsSpan text ∧ d.text = "-" ++ text

/-- All filters of the selector are valid. -/
def Selector.Valid (s : Selector) : Prop :=
  ∀ g ∈ s.groups, ∀ f ∈ g, f.isValid

namespace Expr

/-- The tree is one that the grammar may read. -/
inductive Written : Expr → Prop where
  | number {n : NumberLiteral} : n.Written → Written (.number n)
  | duration {d : Duration} :
      d.isTemplate = false → isPositiveDuration d.text → Written (.duration d)
  | string (value : String) : Written (.string value)
  | concat (s : StringExpr) : Written (.concat s)
  | selector {s : Selector} : s.Valid → Written (.selector s)
  | selectorExpr (s : SelectorExpr) : Written (.selectorExpr s)
  | call {name : String} {args : List Expr} {keepNames : Bool} :
      isAggregateName name = false → (∀ e ∈ args, Written e) → Written (.call name args keepNames)
  | aggregate {a : Aggregation} {args : List Expr} :
      isAggregateName a.name → (∀ e ∈ args, Written e) → Written (.aggregate a args)
  | binary {b : BinaryOp} {l r : Expr} :
      b.Written → Written l → Written r → Written (.binary b l r)
  | rollup {inner : Expr} {range : Range} {time : Option Expr} :
      range.Written → Written inner → (∀ e ∈ time, Written e) → Written (.rollup inner range time)
  | tuple {items : List Expr} : (∀ e ∈ items, Written e) → Written (.tuple items)
  | withTemplates {ts : List Template} {body : Expr} :
      (∀ t ∈ ts, Written t.body) → Written body → Written (.withTemplates ts body)

theorem Written.attach {left right : Expr} {b : BinaryOp} (hl : Written left) (hb : b.Written)
    (hr : Written right) : Written (left.attach b right) := by
  fun_induction Expr.attach left b right with
  | case1 b right c l r _ ih =>
      cases hl with
      | binary hc hl hr' => exact .binary hc hl (ih hr' hb hr)
  | case2 => exact .binary hb hl hr
  | case3 => exact .binary hb hl hr

theorem Written.markKeepNames {e : Expr} (h : Written e) : ∀ e' ∈ e.markKeepNames, Written e' := by
  intro e' he'
  cases h with
  | call hname hargs =>
      cases he'
      exact .call hname hargs
  | binary hb hl hr =>
      cases he'
      exact .binary (hb.withKeepNames true) hl hr
  | _ => cases he'

end Expr

/-! ## Parts without operands -/

theorem gives_check (f : LabelFilter) : Gives (fun g => g.isValid) f.check := by
  unfold LabelFilter.check
  split
  · exact gives_ok ‹_›
  · exact gives_error _

theorem gives_ofParts? (op : FilterOp) (label value : String) :
    Gives (fun g => g.isValid) (LabelFilter.ofParts? op label value) :=
  gives_check _

theorem gives_toFilter (f : FilterExpr) : Gives (fun g => g.isValid) f.toFilter := by
  unfold FilterExpr.toFilter
  split
  · exact gives_error _
  · split
    · have hparts := gives_ofParts? f.op f.label ‹_›
      intro g hg
      cases h : LabelFilter.ofParts? f.op f.label ‹_› with
      | error cause => rw [h] at hg; cases hg
      | ok g' =>
          rw [h] at hg
          cases hg
          exact hparts g h
    · exact gives_error _

theorem gives_toSelector (s : SelectorExpr) : Gives Selector.Valid s.toSelector :=
  Gives.map (gives_mapM fun _ _ => gives_mapM fun f _ => gives_toFilter f) fun _ h => h

namespace Reader

theorem yields_ofSelectorExpr (s : SelectorExpr) : Yields Expr.Written (ofSelectorExpr s) := by
  unfold ofSelectorExpr
  split
  · exact (yields_ofExcept (gives_toSelector s)).bind fun _ h => yields_pure (.selector h)
  · exact yields_pure (.selectorExpr s)

theorem yields_metric : Yields Expr.Written metric := by
  refine yields_bind_any fun text => ?_
  split
  · refine yields_bind_any fun name => yields_bind_any fun atBrace => ?_
    split
    · exact yields_bind_any fun _ => yields_ofSelectorExpr _
    · exact yields_ofSelectorExpr _
  · exact yields_bind_any fun _ => yields_ofSelectorExpr _

theorem yields_boolModifier (op : Operator) :
    Yields (fun asBool : Bool => asBool → op.isComparison) (boolModifier op) := by
  refine yields_bind_any fun atBool => ?_
  split
  · split
    · exact yields_bind_any fun _ => yields_pure fun _ => ‹_›
    · exact yields_misuse _
  · exact yields_pure (by simp)

theorem yields_join (op : Operator) :
    Yields (fun found => (found.1.isSome → op.isSetOperator = false) ∧
      (found.2.isSome → found.1.isSome)) (join op) := by
  refine yields_bind_any fun text => ?_
  split
  · exact yields_pure (by simp)
  · split
    · exact yields_misuse _
    · rename_i hset
      refine yields_bind_any fun _ => yields_bind_any fun atList => ?_
      -- The labels may be missing, and are read alike behind that.
      split <;> refine yields_bind_any fun names => yields_bind_any fun lead => ?_
      · exact yields_pure ⟨fun _ => by simpa using hset, fun _ => rfl⟩
      · exact yields_pure ⟨fun _ => by simpa using hset, fun _ => rfl⟩

theorem yields_modifiers (op : Operator) : Yields BinaryOp.Written (modifiers op) := by
  refine (yields_boolModifier op).bind fun asBool hbool => yields_bind_any fun text => ?_
  split
  · exact yields_pure ⟨hbool, by simp, by simp⟩
  · refine yields_bind_any fun _ => yields_bind_any fun names => ?_
    refine (yields_join op).bind fun found hfound => ?_
    exact yields_pure ⟨hbool, fun h => ⟨rfl, hfound.1 h⟩, hfound.2⟩

/-! ## Durations -/

theorem gives_bareSeconds (text : String) :
    Gives (fun d => d = ⟨text, false⟩) (bareSeconds text) := by
  unfold bareSeconds
  split
  · split
    · split
      · exact gives_ok rfl
      · exact gives_error _
    · exact gives_error _
  · exact gives_error _

theorem yields_durationName (text : String) : Yields Duration.Written (durationName text) := by
  unfold durationName
  dsimp only
  split
  · exact yields_bind_any fun _ => yields_pure (.inl rfl)
  · exact yields_bind_any fun _ => yields_pure (.inl rfl)

theorem yields_duration : Yields Duration.Written duration := by
  refine yields_bind_any fun text => ?_
  split
  · exact yields_durationName text
  split
  · exact yields_bind_any fun _ => yields_pure (.inr (.inl ‹_›))
  split
  · rename_i hstart
    have hbare : Gives (fun d => d.Written) (bareSeconds text) := by
      intro d hd
      have htext := gives_bareSeconds text d hd
      subst htext
      exact .inr (.inr ⟨hstart, hd⟩)
    exact (yields_ofExcept hbare).bind fun d hd => yields_bind_any fun _ => yields_pure hd
  · exact yields_unexpected _ _

theorem yields_step : Yields (fun found => ∀ d ∈ found.1, Duration.Written d) step := by
  refine yields_bind_any fun text => ?_
  split
  · refine yields_bind_any fun _ => ?_
    -- A colon may be the whole token, and the step is read alike behind that.
    split
    case' isTrue => refine yields_bind_any fun _ => ?_
    all_goals
      refine yields_bind_any fun atEnd => ?_
      split
      · exact yields_pure (by simp)
      · exact yields_duration.bind fun d hd => yields_pure (by simpa using hd)
  · exact yields_pure (by simp)

theorem yields_window : Yields (fun range => (∀ d ∈ range.window, d.Written) ∧
    ∀ d ∈ range.step, d.Written) window := by
  refine yields_bind_any fun atBracket => ?_
  split
  · refine yields_bind_any fun _ => yields_bind_any fun atColon => ?_
    have hnone : Yields (fun width : Option Duration => ∀ d ∈ width, d.Written) (pure none) :=
      yields_pure (by simp)
    have hsome : Yields (fun width => ∀ d ∈ width, Duration.Written d) (some <$> duration) :=
      yields_duration.map fun d hd => by simpa using hd
    -- The window may be missing, and the step is read alike behind it.
    dsimp only
    split
    case' isTrue => refine hnone.bind fun width hwidth => ?_
    case' isFalse => refine hsome.bind fun width hwidth => ?_
    all_goals
      refine yields_step.bind fun found hfound => yields_bind_any fun atEnd => ?_
      split
      · exact yields_bind_any fun _ => yields_pure ⟨hwidth, hfound⟩
      · exact yields_unexpected _ _
  · exact yields_pure ⟨by simp [Range.none], by simp [Range.none]⟩

theorem yields_offset : Yields (fun offset => ∀ d ∈ offset,
    d.Written ∨ ∃ text, IsSpan text ∧ d.text = "-" ++ text) offset := by
  refine yields_bind_any fun atOffset => ?_
  split
  · refine yields_bind_any fun _ => yields_bind_any fun atMinus => ?_
    split
    · refine yields_bind_any fun _ => yields_duration.bind fun d hd => ?_
      split
      · exact yields_throw _
      · rename_i hplain
        rcases hd with htemplate | hspan
        · exact absurd htemplate hplain
        · exact yields_pure fun d' hd' => (by cases hd'; exact .inr ⟨d.text, hspan, rfl⟩)
    · exact yields_duration.bind fun d hd => yields_pure fun d' hd' => (by cases hd'; exact .inl hd)
  · exact yields_pure (by simp)

end Reader

/-! ## Names of functions -/

theorem toLower_toLower (c : Char) : c.toLower.toLower = c.toLower := by
  unfold Char.toLower
  split
  · rename_i hupper
    split
    · rename_i hagain
      -- A capital and the small letter behind it are not both in the range of capitals.
      exfalso
      revert hupper hagain
      simp [UInt32.le_iff_toNat_le, UInt32.toNat_add]
      omega
    · rfl
  · rfl

theorem lower_lower (s : String) : lower (lower s) = lower s := by
  simp only [lower, String.toList_ofList, List.map_map]
  congr 1
  exact List.map_congr_left fun c _ => toLower_toLower c

theorem isAggregateName_lower (name : String) :
    isAggregateName (lower name) = isAggregateName name := by
  simp [isAggregateName, Builtin.findKind?, Builtin.find?, lower_lower]

theorem gives_identifier (what : Construct) (feed : Feed) :
    Gives (fun found => found.1 = unescapeIdent feed.token) (Reader.identifier what feed) := by
  unfold Reader.identifier
  refine gives_seq (gives_token feed) fun found hfound => ?_
  cases hfound
  dsimp only
  split
  · exact yields_bind_any (Q := (· = unescapeIdent feed.token)) (fun _ => yields_pure rfl) feed
  · exact yields_unexpected (P := (· = unescapeIdent feed.token)) _ _ feed

theorem gives_lookAt (n : Nat) (feed : Feed) :
    Gives (fun found => found.2.token = feed.token) (Reader.lookAt n feed) := by
  unfold Reader.lookAt Feed.lookAt
  split
  · exact gives_ok rfl
  · exact gives_error _
  · exact gives_ok rfl

/-! ## Operands -/

namespace Grammar

theorem written_markLone {items items' : List Expr} (hitems : ∀ e ∈ items, Expr.Written e)
    (h : markLone items = some items') : ∀ e ∈ items', Expr.Written e := by
  intro e he
  unfold markLone at h
  split at h
  · rename_i b l r
    cases h
    rcases List.mem_singleton.1 he with rfl
    cases hitems _ List.mem_cons_self with
    | binary hb hl hr => exact .binary (hb.withKeepNames true) hl hr
  · cases h

theorem gives_ofToken (token : String) :
    Gives NumberLiteral.Written (NumberLiteral.ofToken token) := by
  intro n hn
  cases hread : readNumber token with
  | error cause =>
      rw [NumberLiteral.ofToken, hread] at hn
      cases hn
  | ok x =>
      rw [NumberLiteral.ofToken, hread] at hn
      cases hn
      intro text htext
      cases htext
      exact hread

theorem written_ofFloat (x : Float) : (NumberLiteral.ofFloat x).Written := by
  intro text htext
  cases htext

theorem yields_number (text : String) : Yields Expr.Written (number text) :=
  (yields_ofExcept (gives_ofToken text)).bind fun _ hn =>
    yields_bind_any fun _ => yields_pure (.number hn)

theorem yields_stringOperand : Yields Expr.Written stringOperand := by
  refine yields_bind_any fun s => ?_
  split
  · exact yields_pure (.string _)
  · exact yields_pure (.concat s)

/-- The readers for inner expressions keep to what the grammar may read. -/
structure Sound (g : Grammar) : Prop where
  expression : Yields Expr.Written g.expression
  operand : Yields Expr.Written g.operand

section

variable {g : Grammar} (hg : g.Sound)
include hg

theorem yields_arguments : Yields (fun args => ∀ e ∈ args, Expr.Written e) g.arguments :=
  yields_parenthesized hg.expression

theorem yields_template : Yields (fun t => Expr.Written t.body) g.template := by
  refine yields_bind_any fun name => yields_bind_any fun params => yields_bind_any fun _ => ?_
  exact hg.expression.bind fun body hbody => yields_pure hbody

theorem yields_withTemplates : Yields Expr.Written g.withTemplates := by
  refine yields_bind_any fun _ => ?_
  refine (yields_parenthesized (yields_template hg)).bind fun templates htemplates => ?_
  split
  · exact yields_throw _
  · exact hg.expression.bind fun body hbody => yields_pure (.withTemplates htemplates hbody)

/-- A name that is no aggregate is read as a call. -/
theorem gives_call {feed : Feed} (h : isAggregateName (unescapeIdent feed.token) = false) :
    Gives (fun result => Expr.Written result.1) (g.call feed) := by
  unfold call
  have hread := gives_identifier .function feed
  refine Gives.read (P := (· = unescapeIdent feed.token)) hread fun name hname => ?_
  refine (yields_arguments hg).bind fun args hargs => yields_bind_any fun keep => ?_
  rw [← hname] at h
  split
  · exact yields_bind_any fun _ => yields_pure (.call h hargs)
  · exact yields_pure (.call h hargs)

theorem gives_aggregate {feed : Feed} (h : isAggregateName (unescapeIdent feed.token)) :
    Gives (fun result => Expr.Written result.1) (g.aggregate feed) := by
  unfold aggregate
  have hread := gives_identifier .aggregate feed
  refine Gives.read (P := (· = unescapeIdent feed.token)) hread fun name hname => ?_
  have haggregate : isAggregateName (lower name) := by
    rw [isAggregateName_lower, hname]
    exact h
  refine yields_bind_any fun text => ?_
  dsimp only
  split
  case' isTrue =>
    refine yields_bind_any fun atGrouping => ?_
    split
  -- Whatever stands before the arguments, they are read alike.
  all_goals
    refine yields_bind_any fun earlier => yields_bind_any fun atParen => ?_
    split
    · refine (yields_arguments hg).bind fun args hargs => yields_bind_any fun grouping => ?_
      refine yields_bind_any fun atLimit => ?_
      split
      · exact yields_bind_any fun limit => yields_pure (.aggregate haggregate hargs)
      · exact yields_bind_any fun limit => yields_pure (.aggregate haggregate hargs)
    · exact yields_unexpected _ _

/-- The name tells an aggregate from a call, and is still there when one of them is read. -/
theorem yields_identExpr : Yields Expr.Written g.identExpr := by
  intro feed
  unfold identExpr
  refine gives_seq (gives_token feed) fun found hfound => ?_
  cases hfound
  refine gives_seq (gives_lookAt 1 feed) fun found hfound => ?_
  dsimp only
  split
  · exact Reader.yields_metric found.2
  · split
    · split
      · exact gives_aggregate hg (by rwa [hfound])
      · exact Reader.yields_metric found.2
    · split
      · exact Reader.yields_metric found.2
      · split
        · split
          · exact gives_aggregate hg (by rwa [hfound])
          · rename_i hcall
            rw [← hfound] at hcall
            exact gives_call hg (Bool.eq_false_iff.2 hcall)
        · split
          · exact Reader.yields_metric found.2
          · exact yields_bind_any (fun _ => yields_unexpected _ _) found.2

theorem yields_tuple : Yields Expr.Written g.tuple := by
  refine (yields_arguments hg).bind fun items hitems => yields_bind_any fun keep => ?_
  split
  · split
    · exact yields_bind_any fun _ => yields_pure (.tuple (written_markLone hitems ‹_›))
    · exact yields_pure (.tuple hitems)
  · exact yields_pure (.tuple hitems)

theorem yields_negation : Yields Expr.Written g.negation := by
  refine yields_bind_any fun _ => hg.operand.bind fun e he => ?_
  exact yields_pure (.binary (BinaryOp.written_plain _) (.number (written_ofFloat _)) he)

theorem yields_bareOperand : Yields Expr.Written g.bareOperand := by
  refine yields_bind_any fun text => ?_
  split
  · exact yields_throw _
  split
  · exact yields_bind_any fun _ => yields_pure (.duration rfl ‹_›)
  split
  · exact yields_number text
  split
  · exact yields_stringOperand
  split
  · exact yields_identExpr hg
  split
  · exact yields_tuple hg
  split
  · exact Reader.yields_metric
  split
  · exact yields_negation hg
  split
  · exact yields_bind_any fun _ => hg.operand
  · exact yields_unexpected _ _

theorem yields_time : Yields (fun time => ∀ e ∈ time, Expr.Written e) g.time := by
  refine yields_bind_any fun atTime => ?_
  split
  · refine yields_bind_any fun _ feed => ?_
    have hoperand := yields_bareOperand hg feed
    split
    · rename_i e feed h
      have he := hoperand _ h
      exact gives_ok (by simpa using he)
    · exact gives_error _
  · exact yields_pure (by simp)

theorem yields_laterTime {earlier : Option Expr} (h : ∀ e ∈ earlier, Expr.Written e) :
    Yields (fun time => ∀ e ∈ time, Expr.Written e) (g.laterTime earlier) := by
  refine yields_bind_any fun atTime => ?_
  split
  · exact yields_misuse _
  · split
    · exact yields_pure h
    · exact yields_time hg

theorem yields_rollup {inner : Expr} (h : inner.Written) : Yields Expr.Written (g.rollup inner) := by
  refine Reader.yields_window.bind fun range hrange => ?_
  refine (yields_time hg).bind fun earlier hearlier => ?_
  refine Reader.yields_offset.bind fun offset hoffset => ?_
  refine (yields_laterTime hg hearlier).bind fun time htime => yields_bind_any fun keep => ?_
  have hall : { range with offset }.Written := ⟨hrange.1, hrange.2, hoffset⟩
  split
  · split
    · exact yields_bind_any fun _ => yields_pure (.rollup hall (h.markKeepNames _ ‹_›) htime)
    · exact yields_pure (.rollup hall h htime)
  · exact yields_pure (.rollup hall h htime)

theorem yields_fullOperand : Yields Expr.Written g.fullOperand := by
  refine yields_bind_any fun atTemplates => ?_
  split
  · exact yields_withTemplates hg
  · refine (yields_bareOperand hg).bind fun inner hinner => yields_bind_any fun text => ?_
    split
    · exact yields_rollup hg hinner
    · exact yields_pure hinner

end

end Grammar

/-! ## Queries -/

namespace Reader

/-- Operands and chains are read with a smaller budget each time. -/
theorem yields_operand_and_chain (budget : Nat) :
    Yields Expr.Written (operand budget) ∧
      ∀ left : Expr, left.Written → Yields Expr.Written (chain budget left) := by
  -- Operands read chains, and chains read operands, so both are shown at once.
  induction budget using Nat.strongRecOn with
  | ind budget ih =>
      constructor
      · unfold operand
        split
        · rename_i budget
          have hsmaller := ih budget (by omega)
          have hexpression := hsmaller.1.bind hsmaller.2
          exact Grammar.yields_fullOperand ⟨hexpression, hsmaller.1⟩
        · exact yields_throw _
      · intro left hleft
        unfold chain
        split
        · rename_i budget
          refine yields_bind_any fun text => ?_
          split
          · exact yields_pure hleft
          · refine yields_bind_any fun _ => (yields_modifiers _).bind fun b hb => ?_
            refine (ih budget (by omega)).1.bind fun right hright => ?_
            refine yields_bind_any fun keepNames => ?_
            have hattach := hleft.attach (hb.withKeepNames keepNames) hright
            have hchain := (ih budget (by omega)).2 _ hattach
            dsimp only
            split
            · exact yields_bind_any fun _ => hchain
            · exact hchain
        · refine yields_bind_any fun text => ?_
          split
          · exact yields_pure hleft
          · exact yields_throw _

end Reader

/-- A query is read as a tree that the grammar may read. -/
theorem Expr.gives_ofText (query : String) : Gives Expr.Written (Expr.ofText query) := by
  refine gives_bind_any fun feed => ?_
  have hexpression := (Reader.yields_operand_and_chain depthBudget).1.bind
    (Reader.yields_operand_and_chain depthBudget).2
  refine (hexpression feed).bind fun found hfound => ?_
  dsimp only
  split
  · exact gives_ok hfound
  · exact gives_error _

end SeriesQuery
