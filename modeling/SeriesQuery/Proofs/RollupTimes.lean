import SeriesQuery.Proofs.RangeTexts

/-!
# Times of rollups

The text of a rollup ends with its time, in parentheses only where the time is an operator.  The
time is read as an operand without a range, and so a range that stands behind it belongs to the
outer rollup, or to none: a time that is a rollup itself is never read back, and every other time is
(`parse_render_rollupTime`).
-/

namespace SeriesQuery

open Text

/-- The window, the step and the offset are read back, as far as there are any. -/
structure Range.Legible (r : Range) : Prop where
  window : LegibleWindow r
  step : ∀ d ∈ r.step, IsStepText d.text
  offset : ∀ d ∈ r.offset, LegibleOffset d
  inherits : r.inheritStep → r.step = .none

namespace Range.Legible

variable {r : Range} (h : r.Legible)
include h

theorem resolved : r.Resolved where
  window d hd := (h.window.window d hd).resolved
  step d hd := (h.window.step d hd).resolved
  offset d hd := (h.offset d hd).resolved

theorem reread_eq : r.reread = r :=
  reread_of_inherits h.inherits

end Range.Legible

namespace Expr

section Times

variable {name : String} {range : Range} {e e' : Expr} (hname : IsLegible name)
  (hword : Grammar.isNumberWord (escapeIdent name) = false) (hrange : range.Legible)

/-! ## Times that are read back -/

/-- A range of a metric with a time that is in simple form. -/
theorem normalize_timed {s : Selector} {y : Expr} (h : normalize y = .ok e) :
    normalize (rollup (selector s) range (some y)) = .ok (rollup (selector s) range (some e)) ∨
      normalize (rollup (selector s) range (some y)) = .error (.tooNested maxDepth) := by
  obtain ⟨-, hsimple, hcheck⟩ := normalize_eq_ok_iff.1 h
  refine normalize_or_tooNested ?_ ?_
  · simp only [dropParens, dropParensOption, foldConstants, foldConstantsOption, hsimple]
  · simp only [checkFunctions, checkFunctionsOption, hcheck]
    rfl

include hname hword hrange

theorem readable_timed (hreadable : e.Readable) (hplain : e.isRollup = false) :
    (rollup (selector (.ofName name)) range (some e)).Readable := by
  refine allNodes_rollup.2 ⟨⟨hrange.window, hrange.step, hrange.offset, ?_, rfl, ?_⟩,
    (allNodes_atom rfl).2 (legibleSelector_ofName hname hword), ?_⟩
  · simp [tokensOfTime, timeTokens]
  · rintro _ ⟨⟩ inner range' time rfl
    cases hplain
  · rintro _ ⟨⟩
    exact hreadable

/-- A time that is no rollup is read back, if its own text is. -/
theorem parse_render_timed (hreadable : e.Readable) (hplain : e.isRollup = false)
    (hself : parse e.render = .ok e') :
    parse (rollup (selector (.ofName name)) range (some e)).render =
        .ok (rollup (selector (.ofName name)) range (some e')) ∨
      IsTooNested (rollup (selector (.ofName name)) range (some e)).render := by
  obtain ⟨y, hexpand, hnormal⟩ := exists_normalize_of_parse_render hreadable hself
  have hwritten : (rollup (selector (.ofName name)) range (some e)).written =
      rollup (selector (.ofName name)) range (some (inParens e.isBinary e.written)) := by
    simp [written, writtenOption, innerNeedsParens, inParens, hrange.reread_eq,
      Selector.reread_ofName hname.ne_empty]
  have hexpanded : (rollup (selector (.ofName name)) range (some e)).written.expandTemplates =
      .ok (rollup (selector (.ofName name)) range (some y)) := by
    rw [hwritten]
    refine expandTemplates_rollup_iff.2
      ⟨hrange.resolved, _, some y, expandTemplates_metric name, ?_, rfl⟩
    have htime := (expandTemplates_inParens e.isBinary e.written).trans hexpand
    exact congrArg (some <$> ·) htime
  rcases parse_render_of_readable (readable_timed hname hword hrange hreadable hplain) with
    heq | hdeep
  · have hstep := congrArg (· >>= normalize) hexpanded
    rw [hstep] at heq
    exact (normalize_timed hnormal).imp heq.trans fun herror => ⟨_, heq.trans herror, .tooNested⟩
  · exact .inr hdeep

end Times

/-! ## Times that are rollups -/

end Expr

namespace Grammar

variable {g : Grammar} {E : ParseError → Prop} {p : Prop} {s m l : List String} {inner v : Expr}
  {range : Range} (hwindow : ReadableWindow range)
include hwindow

/-- An offset behind the time is that of the rollup. -/
theorem reads_timeBeforeOffset (inner : Expr) {d : Duration} (hd : LegibleOffset d)
    (htime : Reads E p g.time ("@" :: s) (some v) ("offset" :: signedTokens d.render ++ l))
    (hl : current l ∈ Expr.operandEnds) :
    Reads E p (g.rollup inner) (range.windowTokens ++ "@" :: s)
      (.rollup inner { range.reread with offset := some d } (some v)) l := by
  have hends := not_range_operandEnds _ hl
  have hat : current ("@" :: s) ≠ "[" := by
    rw [current_cons]
    decide
  refine (Reader.takes_window hwindow hat).bind (htime.bind ?_)
  refine (Reader.takes_offset hd).bind ((takes_laterTime hends.2.1 v).bind ?_)
  exact takes_keepsNone hends.2.2.2.2 takes_pure

/-- There is no time but one. -/
theorem fails_secondTime {offset : Option Duration} {e : Expr}
    (htime : Reads (fun _ => True) p g.time ("@" :: s) (some v) m)
    (hoffset : Takes Reader.offset m offset ("@" :: l)) :
    Reads (fun _ => True) False (g.rollup inner) (range.windowTokens ++ "@" :: s) e [] := by
  have hat : current ("@" :: s) ≠ "[" := by
    rw [current_cons]
    decide
  have hsecond : Reads (fun _ => True) False (g.laterTime (some v)) ("@" :: l) (some v) [] :=
    (Reader.takes_isToken rfl).ifTrue fun _ => ⟨False.elim, fun _ => ⟨_, rfl, trivial⟩⟩
  refine (Reader.takes_window hwindow hat).bind ((reads_bind htime (q := False) ?_).congr (by simp))
  exact hoffset.bind hsecond.fails_bind

end Grammar

namespace Expr

/-- A range starts with its window, its offset or its time. -/
theorem suffix_cases {inner : Expr} {range : Range} {time : Option Expr}
    (h : LegibleRollup inner range time) :
    current (range.tokens ++ tokensOfTime time) = "[" ∨
      (∃ d l, LegibleOffset d ∧ (l = [] ∨ ∃ l', l = "@" :: l') ∧
        range.tokens ++ tokensOfTime time = "offset" :: signedTokens d.render ++ l) ∨
      ∃ l, range.tokens ++ tokensOfTime time = "@" :: l := by
  have htime : tokensOfTime time = [] ∨ ∃ l, tokensOfTime time = "@" :: l := by
    cases time with
    | none => exact .inl rfl
    | some e => exact .inr ⟨_, rfl⟩
  by_cases hwindow : range.windowTokens = []
  · cases hoffset : range.offset with
    | some d =>
        refine .inr (.inl ⟨d, _, h.offset d hoffset, htime, ?_⟩)
        simp [Range.tokens, hwindow, hoffset, optionTokens]
    | none =>
        have hvisible := h.visible
        simp only [Range.tokens, hwindow, hoffset, optionTokens, List.nil_append] at hvisible ⊢
        exact .inr (.inr (htime.resolve_left hvisible))
  · obtain ⟨window, heq⟩ := Range.windowTokens_start hwindow
    left
    simp only [Range.tokens, heq, List.cons_append, current_cons]

section Moved

variable {name : String} {range range' : Range} {inner e' : Expr} {time : Option Expr}
  (hname : IsLegible name) (hword : Grammar.isNumberWord (escapeIdent name) = false)
  (hrange : range.Legible) (hreadable : (rollup inner range' time).Readable)
include hreadable

/-- Of a rollup in the place of a time the inner expression is read. -/
theorem reads_timeOfRollup (budget : Nat) : ∃ (p : Prop) (v : Expr), Reads (fun _ => True) p
    (Reader.grammar budget).time ("@" :: (rollup inner range' time).tokens) (some v)
    (range'.tokens ++ tokensOfTime time) := by
  have hparts := allNodes_rollup.1 hreadable
  have hlegible : LegibleRollup inner range' time := hparts.1
  have hinner : inner.ReadsBack fun _ => True := readsBack trivial (fun _ _ => trivial) hparts.2.1
  have hfirst := current_range hlegible.visible []
  rw [List.append_nil] at hfirst
  have hends : ∀ t ∈ ["[", "offset", "@"], t ∈ bareEnds := by decide
  have htokens : (rollup inner range' time).tokens =
      parenTokens inner.innerNeedsParens inner.tokens ++ (range'.tokens ++ tokensOfTime time) := by
    simp [tokens]
  rw [htokens]
  exact ⟨_, _, Grammar.reads_time (fun _ _ => trivial) (reads_bareInParens hinner hparts.2.1
    plain_of_innerNeedsParens (hends _ hfirst) fun hneeded =>
      standsBefore_range (plain_of_innerNeedsParens hneeded).2 hlegible.inner hfirst)⟩

omit hreadable

/-- Of the tokens of a range with the time `ts` another range is read, with an offset where there was
none; or tokens are left, or none is read. -/
def ReadsElse (budget : Nat) (name : String) (range : Range) (ts : List String) : Prop :=
  ∃ (p : Prop) (v : Expr) (offset : Option Duration) (l : List String),
    (p → l = [] → range.offset = none ∧ offset.isSome) ∧ Operator.ofWord? (current l) = none ∧
      Reads (fun _ => True) p ((Reader.grammar budget).rollup (selector (.ofName name)))
        (range.tokens ++ "@" :: ts)
        (rollup (selector (.ofName name)) { range with offset } (some v)) l

section ReadsElse

variable {budget : Nat} {p : Prop} {v : Expr} {ts s : List String}
  (htime : Reads (fun _ => True) p (Reader.grammar budget).time ("@" :: ts) (some v) s)
include hrange htime

/-- Where no offset is wanted behind the time, its range is left. -/
theorem readsElse_left (name : String) (hs : s ≠ []) (hstop : current s ∈ ["[", "offset", "@"])
    (hends : range.offset = none → sameWord (current s) "offset" = false ∧ current s ≠ "@") :
    ReadsElse budget name range ts := by
  have hstops : ∀ t ∈ ["[", "offset", "@"], t ∈ bareEnds ∧ Operator.ofWord? t = none := by decide
  have hat : current ("@" :: ts) ≠ "[" := by
    rw [current_cons]
    decide
  have hread := Grammar.reads_rangeAndTime (selector (.ofName name)) hrange.window.readable
    hrange.offset (hstops _ hstop).1 hat hends htime
  rw [hrange.reread_eq] at hread
  exact ⟨p, v, range.offset, s, fun _ hnil => absurd hnil hs, (hstops _ hstop).2, hread⟩

/-- An offset behind the time is that of the range, and a second time is refused. -/
theorem readsElse_offset (name : String) (hoffset : range.offset = none) {d : Duration}
    {l : List String} (hd : LegibleOffset d) (hl : l = [] ∨ ∃ l', l = "@" :: l')
    (hs : s = "offset" :: signedTokens d.render ++ l) : ReadsElse budget name range ts := by
  have hbefore : range.tokens = range.windowTokens := by
    simp [Range.tokens, hoffset, optionTokens]
  have hwindow := hrange.window.readable
  rw [hs] at htime
  unfold ReadsElse
  rw [hbefore]
  rcases hl with rfl | ⟨l, rfl⟩
  · have hread := Grammar.reads_timeBeforeOffset hwindow (selector (.ofName name)) hd htime
      (by decide)
    rw [hrange.reread_eq] at hread
    exact ⟨p, v, some d, [], fun _ _ => ⟨hoffset, rfl⟩, rfl, hread⟩
  · exact ⟨False, v, none, [], False.elim, rfl,
      Grammar.fails_secondTime hwindow htime (Reader.takes_offset hd)⟩

theorem readsElse_time (name : String) (hoffset : range.offset = none) {l : List String}
    (hs : s = "@" :: l) : ReadsElse budget name range ts := by
  have hbefore : range.tokens = range.windowTokens := by
    simp [Range.tokens, hoffset, optionTokens]
  have hnone : Takes Reader.offset ("@" :: l) none ("@" :: l) :=
    Reader.takes_noOffset (by rw [current_cons]; decide)
  rw [hs] at htime
  unfold ReadsElse
  rw [hbefore]
  exact ⟨False, v, none, [], False.elim, rfl,
    Grammar.fails_secondTime hrange.window.readable htime hnone⟩

end ReadsElse

include hrange hreadable

/-- The range of the time is left behind, or its offset goes to the outer rollup. -/
theorem readsElse_rollup (name : String) (budget : Nat) :
    ReadsElse budget name range (rollup inner range' time).tokens := by
  have hlegible : LegibleRollup inner range' time := (allNodes_rollup.1 hreadable).1
  have hfirst := current_range hlegible.visible []
  rw [List.append_nil] at hfirst
  obtain ⟨p, v, htime⟩ := reads_timeOfRollup hreadable budget
  have hleft := readsElse_left hrange htime name hlegible.visible hfirst
  cases hoffset : range.offset with
  | some d => exact hleft fun hnone => by rw [hoffset] at hnone; cases hnone
  | none =>
      rcases suffix_cases hlegible with hopen | ⟨d, l, hd, hl, hrest⟩ | ⟨l, hrest⟩
      · refine hleft fun _ => ?_
        rw [hopen]
        decide
      · exact readsElse_offset hrange htime name hoffset hd hl hrest
      · exact readsElse_time hrange htime name hoffset hrest

include hname hword

/-- A rollup in the place of a time makes the text another rollup with an offset, or none at all. -/
theorem ofText_rangeBeforeRollup :
    (∃ v offset, range.offset = none ∧ offset.isSome ∧
        ofText (rollup (selector (.ofName name)) range (some (rollup inner range' time))).render =
          .ok (rollup (selector (.ofName name)) { range with offset } (some v))) ∨
      ∃ cause, ofText (rollup (selector (.ofName name)) range
        (some (rollup inner range' time))).render = .error cause := by
  have hspelled : (rollup (selector (.ofName name)) range
      (some (rollup inner range' time))).Spelled := by
    refine allNodes_rollup.2 ⟨isSpelled_rollup hrange.window.window (fun d hd =>
      ⟨(hrange.window.step d hd).readable, hrange.step d hd⟩) hrange.offset _ _,
      spelled_of_readable ((allNodes_atom rfl).2 (legibleSelector_ofName hname hword)), ?_⟩
    rintro _ ⟨⟩
    exact spelled_of_readable hreadable
  have htokens : (rollup (selector (.ofName name)) range (some (rollup inner range' time))).tokens =
      (Selector.ofName name).tokens ++
        (range.tokens ++ "@" :: (rollup inner range' time).tokens) := by
    rw [tokens]
    simp [innerNeedsParens, parenTokens, tokensOfTime, timeTokens, tokens, isBinary]
  -- The metric ends where the range starts, or else at the sign of the time.
  have hfirst : current (range.tokens ++ "@" :: (rollup inner range' time).tokens) ∈
      ["[", "offset", "@"] := by
    have hvisible : range.tokens ++ tokensOfTime (some (rollup inner range' time)) ≠ [] := by
      simp [tokensOfTime, timeTokens]
    have hcurrent := current_range hvisible []
    rwa [List.append_nil] at hcurrent
  obtain ⟨p, v, offset, l, hmoved, hstop, hread⟩ :=
    readsElse_rollup hrange hreadable name (depthBudget - 4)
  have hoperand : Reads _ p (Reader.operand depthBudget) _ _ _ :=
    reads_rangeOfMetric hname hword hfirst hread
  have hexpression := hoperand.bind (Reader.takes_chainStop depthBudget _ hstop)
  have htexts := texts_render hspelled
  rw [htokens] at htexts
  -- What is left over behind the range makes the text no query at all.
  cases l with
  | cons t l => exact .inr (ofText_of_left htexts hexpression)
  | nil =>
      by_cases hp : p
      · obtain ⟨hnone, hsome⟩ := hmoved hp rfl
        exact .inl ⟨v, offset, hnone, hsome, (ofText_of_reads htexts hexpression).1 hp⟩
      · obtain ⟨cause, herror, -⟩ := (ofText_of_reads htexts hexpression).2 hp
        exact .inr ⟨cause, herror⟩

theorem not_same_rangeBeforeRollup
    (hparse : parse (rollup (selector (.ofName name)) range
      (some (rollup inner range' time))).render = .ok e') :
    e'.same (rollup (selector (.ofName name)) range (some (rollup inner range' time))) = false := by
  rcases ofText_rangeBeforeRollup hname hword hrange hreadable with
    ⟨v, offset, hnone, hsome, hread⟩ | ⟨cause, herror⟩
  · obtain ⟨-, inner', time', rfl⟩ := rollup_of_parse hread hparse
    rw [Bool.eq_false_iff]
    intro hsame
    obtain ⟨inner'', time'', heq, -, -⟩ := same_rollup_iff.1 hsame
    simp only [rollup.injEq] at heq
    have hoffset : offset = none := (congrArg Range.offset heq.2.1).trans hnone
    rw [hoffset] at hsome
    cases hsome
  · unfold parse at hparse
    rw [herror] at hparse
    cases hparse

end Moved

end Expr

/-! ## Times -/

/-- The text of a range of a metric with a time stands for the range, if the text of the time stands
for the time and the time is no rollup.  If the time is one, the text never stands for the range:
what is read is another rollup, with the offset of the time, or nothing at all. -/
theorem parse_render_rollupTime {name : String} {range : Range} {e e' : Expr}
    (hname : IsLegible name) (hword : Grammar.isNumberWord (escapeIdent name) = false)
    (hrange : range.Legible) (hreadable : e.Readable) (hself : parse e.render = .ok e')
    (hsame : e'.same e) :
    let r := Expr.rollup (.selector (.ofName name)) range (some e)
    (e.isRollup = false → (∃ r', parse r.render = .ok r' ∧ r'.same r) ∨ IsTooNested r.render) ∧
      (e.isRollup → ∀ r', parse r.render = .ok r' → r'.same r = false) := by
  intro r
  constructor
  · intro hplain
    refine (Expr.parse_render_timed hname hword hrange hreadable hplain hself).imp_left
      fun hparse => ⟨_, hparse, ?_⟩
    exact Expr.same_rollup_iff.2 ⟨_, some e', rfl, Expr.same_selector_iff.2 rfl, hsame⟩
  · intro hrollup r' hparse
    cases e with
    | rollup inner range' time =>
        exact Expr.not_same_rangeBeforeRollup hname hword hrange hreadable hparse
    | _ => cases hrollup

/-- Only an offset by five minutes. -/
def shiftedRange : Range :=
  ⟨none, none, some ⟨"5m", false⟩, false⟩

theorem legible_shiftedRange : shiftedRange.Legible where
  window := ⟨by simp [shiftedRange], by simp [shiftedRange]⟩
  step := by simp [shiftedRange]
  offset := by
    rintro d ⟨⟩
    exact ⟨rfl, legibleDuration_of_positive (by decide)⟩
  inherits := fun _ => rfl

/-- A difference in the place of a time. -/
def differenceTime : Expr :=
  .binary (.plain .sub) (.selector (.ofName "bar")) (.selector (.ofName "foo"))

theorem readable_differenceTime : differenceTime.Readable :=
  (Expr.OverMetrics.binary (BinaryOp.wellFormed_plain .sub) (BinaryOp.legible_plain .sub)
    (.metric (isMetricName_of_plain (by simp))) (.metric (isMetricName_of_plain (by simp)))).readable

theorem parse_render_rollupTime_difference :
    let r := Expr.rollup (.selector (.ofName "foo")) shiftedRange (some differenceTime)
    (parse "foo offset 5m @ (bar - foo)").toOption.any (·.same r) ∧
      ∃ r', parse r.render = .ok r' ∧ r'.same r := by
  intro r
  have hfoo : IsMetricName "foo" := isMetricName_of_plain (by simp)
  have hword : Grammar.isNumberWord (escapeIdent "foo") = false := by decide +kernel
  refine ⟨by decide +kernel, ?_⟩
  have hruns : (parse differenceTime.render).toOption.any (·.same differenceTime) ∧
      (parse r.render).isOk := by
    decide +kernel
  obtain ⟨e', hself, hsame⟩ := (Option.any_eq_true _ _).1 hruns.1
  have hread := (parse_render_rollupTime hfoo.legible hword legible_shiftedRange
    readable_differenceTime (toOption_eq_some_iff.1 hself) hsame).1 rfl
  exact hread.resolve_right (not_isTooNested hruns.2)

/-- The offset of a time goes to the outer rollup. -/
theorem not_parse_render_rollupTime :
    ¬∀ (query name : String) (range : Range) (e : Expr),
      parse query = .ok (.rollup (.selector (.ofName name)) range (some e)) → IsMetricName name →
      range.window = none → range.step = none →
      ∃ r', parse (Expr.rollup (.selector (.ofName name)) range (some e)).render = .ok r' ∧
        r'.same (.rollup (.selector (.ofName name)) range (some e)) := by
  intro hclaim
  have hruns : (parse "foo @ (bar offset 5m)").toOption.any (·.same (.rollup
        (.selector (.ofName "foo")) .none (some (.rollup (.selector (.ofName "bar")) shiftedRange none))))
      ∧ (parse (Expr.rollup (.selector (.ofName "foo")) .none
        (some (.rollup (.selector (.ofName "bar")) shiftedRange none))).render).toOption.any
          (·.same (.rollup (.selector (.ofName "foo")) .none
            (some (.rollup (.selector (.ofName "bar")) shiftedRange none)))) = false := by
    decide +kernel
  obtain ⟨e, hquery, hsame⟩ := (Option.any_eq_true _ _).1 hruns.1
  obtain ⟨inner, time, rfl, hinner, htime⟩ := Expr.same_rollup_iff.1 hsame
  cases time with
  | none => cases htime
  | some t =>
      rw [Expr.same_selector_iff.1 hinner, Expr.same_selectorRange_iff.1 htime,
        toOption_eq_some_iff] at hquery
      obtain ⟨r', hread, hsame'⟩ := hclaim _ _ _ _ hquery (isMetricName_of_plain (by simp)) rfl rfl
      have hother := hruns.2
      rw [hread] at hother
      change r'.same _ = false at hother
      rw [hsame'] at hother
      cases hother

end SeriesQuery
