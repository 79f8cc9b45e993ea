import SeriesQuery.Proofs.LeftOperands
import SeriesQuery.Proofs.PlainTexts
import SeriesQuery.Proofs.Reaching

/-!
# Texts of windows, steps and offsets

A range is written without blanks: the window stands in front of a colon or a bracket, the step goes
on with the colon, which starts an identifier, and the offset stands behind its word.  What comes
from a template, or stood behind a blank, may be no single token there.
-/

namespace SeriesQuery

open Text

/-! ## Durations in front of gaps -/

theorem Lexes.tokens {follow : Char → Bool} {cs rest : List Char} {ts : List String}
    (h : Lexes follow cs ts) (hrest : ∀ c ∈ rest.head?, follow c) :
    (Lexeme.texts (cs ++ rest)).1 = ts ++ (Lexeme.texts rest).1 := by
  rw [h rest hrest]

theorem isIdentChar_of_startsNumeral {c : Char} (h : startsNumeral c) : isIdentChar c := by
  simp only [startsNumeral, Bool.or_eq_true, beq_iff_eq] at h
  rcases h with hdigit | rfl
  · simp [isIdentChar, hdigit]
  · decide

/-- A duration that the grammar may read is read from its text. -/
theorem Duration.Written.readable {d : Duration} (h : d.Written) (hresolved : d.isTemplate = false) :
    ReadableDuration d := by
  refine ⟨hresolved, ?_⟩
  have heq : d = ⟨d.text, false⟩ := by
    cases d
    cases hresolved
    rfl
  rcases h with htemplate | hspan
  · rw [hresolved] at htemplate
    cases htemplate
  · rw [heq]
    exact hspan

namespace ReadableDuration

variable {d : Duration} (h : ReadableDuration d)
include h

theorem legible (hnumeral : IsNumeral d.text) : LegibleDuration d :=
  ⟨h.resolved, hnumeral, h.reads⟩

theorem isSpan : IsSpan d.text := by
  have hreads := h.reads
  rw [h.eq] at hreads
  exact hreads

/-- A duration that is found again in front of a gap is one token. -/
theorem isNumeral_of_current {rest : List Char} (hrest : AtGap rest)
    (hfound : current (Lexeme.texts (d.text.toList ++ rest)).1 = d.text) : IsNumeral d.text := by
  obtain ⟨c, cs, htext, hstart⟩ := h.start
  refine ⟨⟨c, cs, htext, hstart⟩, ?_⟩
  have hblank := blank_of_startsNumeral hstart
  have hgap : skipGap (d.text.toList ++ rest) = c :: cs ++ rest := by
    simp [htext, skipGap, skipGapFrom, hblank]
  have hne : "" ≠ d.text := fun hempty => by
    rw [← hempty] at htext
    cases htext
  cases hscan : scan (d.text.toList ++ rest) with
  | done =>
      rw [Lexeme.texts_of_done hscan] at hfound
      exact absurd hfound hne
  | failed cause left =>
      rw [Lexeme.texts_of_failed hscan] at hfound
      exact absurd hfound hne
  | token t left =>
      rw [Lexeme.texts_of_token hscan, current_cons] at hfound
      have htoken := scan_eq_token_iff.1 hscan
      -- The numeral is scanned alike with and without the rest, and so takes the whole text.
      have happend := @scanToken_numeral_append c cs rest hstart hrest
      rw [← hgap, htoken, ← htext] at happend
      obtain ⟨⟨first, more⟩, hfirst, heq⟩ := Option.map_eq_some_iff.1 happend.symm
      rw [toOption_eq_some_iff] at hfirst
      simp only [Prod.mk.injEq] at heq
      rw [heq.1, hfound] at hfirst
      have hconcat := scanToken_concat hfirst
      rwa [List.append_right_eq_self.1 hconcat] at hfirst

/-- The identifier that a step goes on with ends where the step or its characters do. -/
theorem afterIdent_dropWhile (rest : List Char) :
    ∀ c ∈ (d.text.toList.dropWhile isIdentChar ++ ']' :: rest).head?, afterIdent c := by
  intro c hc
  cases hdrop : d.text.toList.dropWhile isIdentChar with
  | nil =>
      rw [hdrop] at hc
      cases hc
      decide
  | cons e es =>
      rw [hdrop] at hc
      cases hc
      have hne : (d.text.toList.dropWhile isIdentChar) ≠ [] := by simp [hdrop]
      have hother := List.head_dropWhile_not isIdentChar hne
      have hmem : c ∈ d.text.toList :=
        (List.dropWhile_suffix isIdentChar).subset (by simp [hdrop])
      have hslash : c ≠ '\\' := by
        rintro rfl
        exact absurd (h.isSpan.isPlain _ hmem) (by decide)
      simp only [hdrop, List.head_cons] at hother
      simp [afterIdent, hother, hslash]

/-- The colon and the text of a step: the token is an identifier, as far as the text allows. -/
theorem current_step (rest : List Char) :
    current (Lexeme.texts (':' :: (d.text.toList ++ ']' :: rest))).1 =
      ":" ++ String.ofList (d.text.toList.takeWhile isIdentChar) := by
  have hword : (":" ++ String.ofList (d.text.toList.takeWhile isIdentChar)).toList =
      ':' :: d.text.toList.takeWhile isIdentChar := by simp
  have hne : ":" ++ String.ofList (d.text.toList.takeWhile isIdentChar) ≠ "" := by
    simp [← String.toList_inj, hword]
  have hlexes := lexes_word hne
    (escapeIdent_of_start hword (by decide) fun c hc => List.mem_takeWhile_imp hc)
  have hsplit : ':' :: (d.text.toList ++ ']' :: rest) =
      (':' :: d.text.toList.takeWhile isIdentChar) ++
        (d.text.toList.dropWhile isIdentChar ++ ']' :: rest) := by
    rw [List.cons_append, ← List.append_assoc, List.takeWhile_append_dropWhile]
  rw [hword] at hlexes
  rw [hsplit, hlexes.tokens (h.afterIdent_dropWhile rest)]
  rfl

/-- A step that is found again behind a colon is the rest of an identifier. -/
theorem isStepText_of_current {rest : List Char}
    (hfound : current (Lexeme.texts (':' :: (d.text.toList ++ ']' :: rest))).1 = ":" ++ d.text) :
    IsStepText d.text := by
  rw [h.current_step, String.append_right_inj, ← String.toList_inj, String.toList_ofList,
    List.takeWhile_eq_self_iff] at hfound
  exact hfound

/-- No colon stands alone in front of a step. -/
theorem current_step_ne (rest : List Char) :
    current (Lexeme.texts (':' :: (d.text.toList ++ ']' :: rest))).1 ≠ ":" := by
  obtain ⟨c, cs, htext, hstart⟩ := h.start
  rw [h.current_step, htext, List.takeWhile_cons, if_pos (isIdentChar_of_startsNumeral hstart)]
  intro halone
  have hlength := congrArg (fun t : String => t.toList.length) halone
  simp at hlength

end ReadableDuration

/-! ## What is read from the text of a range -/

/-- The text of the range is read as the range: the window and the magnitude of the offset are
tokens, and the step goes on with the token that a colon starts. -/
structure Range.Faithful (r : Range) : Prop where
  window : ∀ d ∈ r.window, LegibleDuration d
  step : ∀ d ∈ r.step, ReadableDuration d ∧ IsStepText d.text
  offset : ∀ d ∈ r.offset, LegibleOffset d
  inherits : r.inheritStep → r.step = .none
  visible : r.tokens ≠ []

/-- Nothing is lost of a range that has no step where the step of the query is meant. -/
theorem Range.reread_of_inherits {r : Range} (h : r.inheritStep → r.step = .none) :
    r.reread = r := by
  obtain ⟨window, step, offset, inheritStep⟩ := r
  cases inheritStep with
  | false => rfl
  | true =>
      have hnone : step = .none := h rfl
      rw [hnone]
      rfl

namespace Range.Faithful

variable {r : Range} (h : r.Faithful)
include h

theorem readableWindow : ReadableWindow r where
  window d hd := (h.window d hd).readable
  step d hd := (h.step d hd).1

theorem resolved : r.Resolved where
  window d hd := (h.window d hd).resolved
  step d hd := (h.step d hd).1.resolved
  offset d hd := (h.offset d hd).resolved

theorem reread_eq : r.reread = r :=
  reread_of_inherits h.inherits

end Range.Faithful

/-- The text of a window from the colon on. -/
def Range.windowEnd (r : Range) : List Char :=
  ((if r.isSubquery then ":" else "") ++ Range.renderDuration r.step ++ "]").toList

theorem Range.atGap_windowEnd (r : Range) (rest : List Char) : AtGap (r.windowEnd ++ rest) := by
  intro c hc
  unfold Range.windowEnd at hc
  cases hstep : r.step with
  | none =>
      cases hinherit : r.inheritStep <;>
        simp [Range.isSubquery, hstep, hinherit, Range.renderDuration] at hc <;> rw [← hc] <;> decide
  | some d =>
      simp [Range.isSubquery, hstep] at hc
      rw [← hc]
      decide

theorem tokens_bracket (rest : List Char) :
    (Lexeme.texts (']' :: rest)).1 = "]" :: (Lexeme.texts rest).1 :=
  (lexes_punctuation (c := ']') (by decide)).tokens fun _ _ => rfl

theorem WidthRead.numeral {width : Option Duration} (hreadable : ∀ d ∈ width, ReadableDuration d)
    {rest : List Char} (hrest : AtGap rest) {m : List String}
    (h : WidthRead (Lexeme.texts ((Range.renderDuration width).toList ++ rest)).1 width m) :
    (∀ d ∈ width, IsNumeral d.text) ∧ m = (Lexeme.texts rest).1 := by
  cases width with
  | none => exact ⟨by simp, h⟩
  | some d =>
      have hd := hreadable d rfl
      simp only [Range.renderDuration, hd.render_eq] at h
      have hnumeral := hd.isNumeral_of_current hrest h.1.symm
      refine ⟨fun d' hd' => by cases hd'; exact hnumeral, ?_⟩
      have hgap : ∀ c ∈ rest.head?, afterNumber c := by simpa [AtGap, afterNumber] using hrest
      rw [h.2, (lexes_number hnumeral).tokens hgap]
      rfl

theorem afterTerm_bracket (rest : List Char) : ∀ c ∈ (']' :: rest).head?, afterTerm c := by
  intro c hc
  cases hc
  decide

/-- Where no step is written, none is read. -/
theorem StepRead.tail_of_none {r : Range} (hstep : r.step = none) {rest : List Char}
    {m : List String}
    (h : StepRead (Lexeme.texts (r.windowEnd ++ rest)).1 r.inheritStep none m) :
    m.tail = (Lexeme.texts rest).1 := by
  cases hinherit : r.inheritStep with
  | false =>
      have htext : r.windowEnd ++ rest = ']' :: rest := by
        simp [Range.windowEnd, Range.isSubquery, hstep, hinherit, Range.renderDuration]
      rw [htext, tokens_bracket] at h
      rcases h with ⟨-, hm⟩ | ⟨hcolon, -⟩
      · exact hm
      · rw [current_cons] at hcolon
        exact absurd hcolon (by decide)
  | true =>
      have htext : r.windowEnd ++ rest = ":".toList ++ ']' :: rest := by
        simp [Range.windowEnd, Range.isSubquery, hstep, hinherit, Range.renderDuration]
      have hcolon : Lexes afterTerm ":".toList [":"] := lexes_plainWord (by decide)
      rw [htext, hcolon.tokens (afterTerm_bracket rest), tokens_bracket] at h
      rcases h with ⟨hother, -⟩ | ⟨-, hm⟩
      · exact absurd rfl hother
      · rw [hm]
        rfl

theorem StepRead.stepText {r : Range} (hreadable : ∀ d ∈ r.step, ReadableDuration d)
    {rest : List Char} {m : List String}
    (h : StepRead (Lexeme.texts (r.windowEnd ++ rest)).1 r.inheritStep r.step m) :
    (∀ d ∈ r.step, IsStepText d.text) ∧ (r.inheritStep → r.step = none) ∧
      m.tail = (Lexeme.texts rest).1 := by
  cases hstep : r.step with
  | none =>
      rw [hstep] at h
      exact ⟨by simp, fun _ => rfl, StepRead.tail_of_none hstep h⟩
  | some d =>
      have hd := hreadable d hstep
      have htext : r.windowEnd ++ rest = ':' :: (d.text.toList ++ ']' :: rest) := by
        simp [Range.windowEnd, Range.isSubquery, hstep, Range.renderDuration, hd.render_eq]
      rw [hstep, htext] at h
      obtain ⟨hinherit, ⟨hcurrent, hm⟩ | ⟨hcolon, -⟩⟩ := h
      · have hword := hd.isStepText_of_current hcurrent
        refine ⟨fun d' hd' => by cases hd'; exact hword, by simp [hinherit], ?_⟩
        have htokens := (lexes_stepText hword).tokens (afterTerm_bracket rest)
        rw [String.toList_append] at htokens
        have hcolon : ":".toList = [':'] := by decide
        rw [hcolon, List.singleton_append, List.cons_append, tokens_bracket] at htokens
        rw [hm, htokens]
        rfl
      · -- A colon alone is never found, as the step goes on with its identifier.
        exact absurd hcolon (hd.current_step_ne rest)

/-- An offset without a minus is one token. -/
theorem OffsetRead.legible_plain {d : Duration} (h : ReadableDuration d)
    (hread : OffsetRead ("offset" :: (Lexeme.texts d.text.toList).1) (some d)) :
    LegibleOffset d := by
  obtain ⟨c, cs, hcs, hstart⟩ := h.start
  have hminus : c ≠ '-' := by
    rintro rfl
    exact absurd hstart (by decide)
  have hpositive : isNegated d.text = false := by simp [isNegated, hcs, hminus]
  have hcurrent : d.text = current (Lexeme.texts d.text.toList).1 := by
    rcases hread d rfl with ⟨-, hnegated⟩ | ⟨-, hcurrent⟩
    · rw [hnegated] at hpositive
      simp [isNegated] at hpositive
    · exact hcurrent
  rw [← List.append_nil d.text.toList] at hcurrent
  refine ⟨h.resolved, ?_⟩
  rw [magnitude_of_not_isNegated hpositive, ← h.eq]
  exact h.legible (h.isNumeral_of_current (by simp [AtGap]) hcurrent.symm)

/-- A minus is a token by itself, and so is what stands behind it. -/
theorem tokens_negated {text : String} (h : ReadableDuration ⟨text, false⟩) :
    (Lexeme.texts ("-" ++ text).toList).1 = "-" :: (Lexeme.texts text.toList).1 := by
  obtain ⟨c, cs, hcs, hstart⟩ := h.start
  have hsign : Lexes afterSign ['-'] ["-"] := lexes_sign (by decide)
  have hfollow : ∀ e ∈ text.toList.head?, afterSign e := by
    intro e he
    rw [hcs] at he
    cases he
    have hword := isIdentChar_of_startsNumeral hstart
    simp only [afterSign, Bool.and_eq_true, bne_iff_ne]
    constructor <;> rintro rfl <;> exact absurd hword (by decide)
  rw [String.toList_append]
  exact hsign.tokens hfollow

theorem OffsetRead.legible {d : Duration} (hresolved : d.isTemplate = false)
    (hwritten : d.Written ∨ ∃ text, IsSpan text ∧ d.text = "-" ++ text)
    (h : OffsetRead ("offset" :: (Lexeme.texts d.text.toList).1) (some d)) : LegibleOffset d := by
  rcases hwritten with hplain | ⟨text, hspan, htext⟩
  · exact OffsetRead.legible_plain (hplain.readable hresolved) h
  · have hreadable : ReadableDuration ⟨text, false⟩ := Duration.Written.readable (.inr hspan) rfl
    have hmagnitude : magnitude d.text = text := by
      rw [htext]
      simp [magnitude]
    have hend : AtGap [] := by simp [AtGap]
    refine ⟨hresolved, ?_⟩
    rw [hmagnitude]
    refine hreadable.legible (hreadable.isNumeral_of_current hend ?_)
    have hread := h d rfl
    rw [List.tail_cons, htext, tokens_negated hreadable] at hread
    rcases hread with ⟨-, hcurrent⟩ | ⟨hother, -⟩
    · rw [String.append_right_inj] at hcurrent
      rw [List.append_nil]
      exact hcurrent.symm
    · exact absurd rfl hother

theorem tokens_offset (offset : Option Duration) :
    (Lexeme.texts (BinaryOp.renderOptional (fun d => "offset " ++ Duration.render d) offset).toList).1 =
      optionTokens (fun d => "offset" :: (Lexeme.texts d.render.toList).1) offset := by
  cases offset with
  | none => rfl
  | some d =>
      have hword : Lexes afterTerm "offset".toList ["offset"] := lexes_plainWord (by decide)
      have hspaced := lexes_space.append_any hword
      have hfollow : ∀ c ∈ (' ' :: d.render.toList).head?, afterTerm c := by
        intro c hc
        cases hc
        decide
      have htokens := hspaced.tokens hfollow
      have hany : ∀ c ∈ d.render.toList.head?, anyChar c := fun _ _ => rfl
      have hblank := lexes_space.tokens hany
      rw [List.singleton_append, List.nil_append] at hblank
      rw [hblank] at htokens
      simpa [BinaryOp.renderOptional, optionTokens] using htokens

theorem RangeRead.faithful {r : Range} (hwritten : r.Written) (hresolved : r.Resolved)
    (hvisible : r.tokens ≠ []) (h : RangeRead (Lexeme.texts r.render.toList).1 r) : r.Faithful := by
  have hwindow : ∀ d ∈ r.window, ReadableDuration d :=
    fun d hd => (hwritten.window d hd).readable (hresolved.window d hd)
  have hstep : ∀ d ∈ r.step, ReadableDuration d :=
    fun d hd => (hwritten.step d hd).readable (hresolved.step d hd)
  obtain ⟨m, hm, hoffset⟩ := h
  -- Each part is read in front of the tokens of the next one, so they are settled in order.
  have hparts : (∀ d ∈ r.window, IsNumeral d.text) ∧ (∀ d ∈ r.step, IsStepText d.text) ∧
      (r.inheritStep → r.step = none) ∧
        m = optionTokens (fun d => "offset" :: (Lexeme.texts d.render.toList).1) r.offset := by
    have hafter := tokens_offset r.offset
    unfold Range.render Range.renderWindow at hm
    split at hm
    · have htext : ("[" ++ Range.renderDuration r.window ++ (if r.isSubquery then ":" else "") ++
          Range.renderDuration r.step ++ "]" ++
          BinaryOp.renderOptional (fun d => "offset " ++ Duration.render d) r.offset).toList =
          ['['] ++ ((Range.renderDuration r.window).toList ++ (r.windowEnd ++
            (BinaryOp.renderOptional (fun d => "offset " ++ Duration.render d) r.offset).toList)) := by
        simp [Range.windowEnd]
      have hopen : Lexes anyChar ['['] ["["] := lexes_punctuation (by decide)
      rw [htext, hopen.tokens fun _ _ => rfl] at hm
      rcases hm with ⟨hother, -⟩ | ⟨-, t, u, hwidth, hend, rfl⟩
      · exact absurd rfl hother
      · obtain ⟨hnumeral, rfl⟩ := WidthRead.numeral hwindow (r.atGap_windowEnd _) hwidth
        obtain ⟨hword, hinherits, hleft⟩ := StepRead.stepText hstep hend
        exact ⟨hnumeral, hword, hinherits, hleft.trans hafter⟩
    · rename_i hnone
      simp only [Bool.or_eq_true, not_or, Bool.not_eq_true, Option.isSome_eq_false_iff,
        Option.isNone_iff_eq_none] at hnone
      rw [String.empty_append, hafter] at hm
      refine ⟨by simp [hnone], by simp [hnone], by simp [hnone], ?_⟩
      rcases hm with ⟨-, rfl⟩ | ⟨hopen, -⟩
      · rfl
      · cases hoffset : r.offset with
        | none => simp [hoffset, optionTokens] at hopen
        | some d => simp [hoffset, optionTokens] at hopen
  obtain ⟨hnumeral, hword, hinherits, rfl⟩ := hparts
  refine ⟨fun d hd => (hwindow d hd).legible (hnumeral d hd), fun d hd => ⟨hstep d hd, hword d hd⟩,
    fun d hd => ?_, hinherits, hvisible⟩
  have hplain := hresolved.offset d hd
  have hrender : d.render = d.text := by simp [Duration.render, hplain]
  have hfound : r.offset = some d := hd
  rw [hfound] at hoffset
  simp only [optionTokens, current_cons, hrender] at hoffset
  exact (hoffset (by decide)).legible hplain (hwritten.offset d hd)

/-! ## Rollups that are read -/

section Scope

variable {enter : Enter}

/-- In the outermost scope no template stands for a duration. -/
theorem resolved_of_expandDuration? {d found : Option Duration}
    (h : expandDuration? enter builtinScope d = .ok found) : Duration.Resolved d := by
  rintro d' rfl
  by_contra htemplate
  rw [Bool.not_eq_false] at htemplate
  simp only [expandDuration?, expandDuration, Duration.templateName?, htemplate, if_true,
    lookup_builtinScope, Frame.lookup] at h
  cases hfind : builtinTemplates.find? fun t => t.name == d'.text with
  | none =>
      rw [hfind] at h
      cases h
  | some t =>
      have hparams := params_builtinTemplates t (List.mem_of_find?_eq_some hfind)
      rw [hfind] at h
      simp only [Option.map_some, refer, hparams] at h
      cases h

theorem expandRange_builtinScope_iff {r r' : Range} :
    expandRange enter builtinScope r = .ok r' ↔ r.Resolved ∧ r' = r := by
  constructor
  · intro h
    have hresolved : r.Resolved := by
      unfold expandRange at h
      cases hwindow : expandDuration? enter builtinScope r.window with
      | error cause =>
          rw [hwindow] at h
          cases h
      | ok window =>
          cases hstep : expandDuration? enter builtinScope r.step with
          | error cause =>
              rw [hwindow, hstep] at h
              cases h
          | ok step =>
              cases hoffset : expandDuration? enter builtinScope r.offset with
              | error cause =>
                  rw [hwindow, hstep, hoffset] at h
                  cases h
              | ok offset =>
                  exact ⟨resolved_of_expandDuration? hwindow, resolved_of_expandDuration? hstep,
                    resolved_of_expandDuration? hoffset⟩
    rw [expandRange_of_resolved hresolved] at h
    cases h
    exact ⟨hresolved, rfl⟩
  · rintro ⟨hresolved, rfl⟩
    exact expandRange_of_resolved hresolved

end Scope

namespace Expr

/-- A rollup of the outermost scope is expanded part by part. -/
theorem expandTemplates_rollup_iff {inner e : Expr} {range : Range} {time : Option Expr} :
    (rollup inner range time).expandTemplates = .ok e ↔ range.Resolved ∧ ∃ inner' time',
      inner.expandTemplates = .ok inner' ∧
        expandOptionWith (enterTemplate maxExpansionDepth) builtinScope time = .ok time' ∧
          e = rollup inner' range time' := by
  unfold expandTemplates
  rw [expandWith]
  constructor
  · intro h
    -- The first part that cannot be expanded decides, so they are looked at in order.
    cases hinner : expandWith (enterTemplate maxExpansionDepth) builtinScope inner with
    | error cause =>
        rw [hinner] at h
        cases h
    | ok inner' =>
        cases hrange : expandRange (enterTemplate maxExpansionDepth) builtinScope range with
        | error cause =>
            rw [hinner, hrange] at h
            cases h
        | ok range' =>
            obtain ⟨hresolved, rfl⟩ := expandRange_builtinScope_iff.1 hrange
            cases htime : expandOptionWith (enterTemplate maxExpansionDepth) builtinScope time with
            | error cause =>
                rw [hinner, hrange, htime] at h
                cases h
            | ok time' =>
                rw [hinner, hrange, htime] at h
                cases h
                exact ⟨hresolved, inner', time', rfl, rfl, rfl⟩
  · rintro ⟨hresolved, inner', time', hinner, htime, rfl⟩
    rw [hinner, expandRange_of_resolved hresolved, htime]
    rfl

/-- A query that is read as a rollup stands for a rollup with the same range. -/
theorem rollup_of_parse {query : String} {inner e : Expr} {range : Range} {time : Option Expr}
    (hread : ofText query = .ok (rollup inner range time)) (hparse : parse query = .ok e) :
    range.Resolved ∧ ∃ inner' time', e = rollup inner' range time' := by
  unfold parse at hparse
  rw [hread] at hparse
  cases hexpand : (rollup inner range time).expandTemplates with
  | error cause =>
      simp only [Bind.bind, Except.bind, hexpand] at hparse
      cases hparse
  | ok y =>
      obtain ⟨hresolved, inner', time', -, -, rfl⟩ := expandTemplates_rollup_iff.1 hexpand
      simp only [Bind.bind, Except.bind, hexpand] at hparse
      obtain ⟨-, rfl, -⟩ := normalize_eq_ok_iff.1 hparse
      exact ⟨hresolved, _, _, by rw [dropParens, foldConstants]⟩

theorem isBinary_attach (left : Expr) (b : BinaryOp) (right : Expr) :
    (left.attach b right).isBinary := by
  unfold attach
  split
  · split <;> rfl
  · rfl

theorem isBinary_chained (first : Expr) {chain : List Link} (h : chain ≠ []) :
    (first.chained chain).isBinary := by
  rcases List.eq_nil_or_concat chain with rfl | ⟨chain, link, rfl⟩
  · exact absurd rfl h
  · rw [List.concat_eq_append, chained_append]
    exact isBinary_attach _ _ _

/-- An operator stands for no rollup. -/
theorem not_isRollup_of_isBinary {x e : Expr} (h : x.isBinary)
    (he : x.expandTemplates >>= normalize = .ok e) : e.isRollup = false := by
  cases x with
  | binary b l r =>
      have hexpanded : Gives (fun y => y.isBinary) (binary b l r).expandTemplates := by
        unfold expandTemplates
        rw [expandWith]
        exact gives_bind_any fun _ => gives_bind_any fun _ => gives_bind_any fun _ => gives_ok rfl
      cases hexpand : (binary b l r).expandTemplates with
      | error cause =>
          rw [hexpand] at he
          cases he
      | ok y =>
          have hbinary := hexpanded y hexpand
          rw [hexpand] at he
          obtain ⟨-, rfl, -⟩ := normalize_eq_ok_iff.1 he
          cases y with
          | binary c l' r' =>
              rw [dropParens, foldConstants]
              rcases foldBinary_cases c l'.dropParens.foldConstants r'.dropParens.foldConstants with
                heq | ⟨v, heq⟩ | ⟨value, heq⟩ <;> rw [heq] <;> rfl
          | _ => cases hbinary
  | _ => cases h

end Expr

/-! ## Ranges of metrics -/

theorem Feed.tokens_of_ofText {query : String} {feed : Feed} (h : Feed.ofText query = .ok feed) :
    feed.tokens = (Lexeme.texts query.toList).1 := by
  unfold Feed.ofText at h
  unfold Lexeme.texts
  generalize Lexeme.ofText query.toList = found at h ⊢
  rcases found with ⟨lexemes, failure⟩
  dsimp only at h ⊢
  split at h
  · cases h
  · cases h
    rfl

/-- What is known of the reader of expressions is known of what a query is read as. -/
theorem Reaches.ofText {query : String} {P : Expr → Prop}
    (h : Reaches (Reader.expression depthBudget) (Lexeme.texts query.toList).1 fun e _ => P e) :
    Gives P (Expr.ofText query) := by
  unfold Expr.ofText
  cases hfeed : Feed.ofText query with
  | error cause => exact gives_error _
  | ok feed =>
      have hexpression := h feed (Feed.tokens_of_ofText hfeed)
      have hrest : Gives P (Reader.expression depthBudget feed >>= fun found =>
          if found.2.tokens.isEmpty then .ok found.1 else .error (.leftOver found.2.place)) := by
        refine hexpression.bind fun found hfound => ?_
        split
        · exact gives_ok hfound
        · exact gives_error _
      exact hrest

namespace Range

variable {r : Range}

theorem head_render (r : Range) : ∀ c ∈ r.render.toList.head?, afterTerm c := by
  intro c hc
  unfold render renderWindow at hc
  split at hc
  · simp only [String.append_assoc, String.toList_append] at hc
    cases hc
    decide
  · cases hoffset : r.offset with
    | none =>
        rw [hoffset] at hc
        cases hc
    | some d =>
        simp only [hoffset, BinaryOp.renderOptional, String.empty_append, String.toList_append] at hc
        cases hc
        decide

theorem current_tokens (h : r.tokens ≠ []) : current (Lexeme.texts r.render.toList).1 = "[" ∨
    current (Lexeme.texts r.render.toList).1 = "offset" := by
  unfold tokens windowTokens at h
  unfold render renderWindow
  split
  · left
    have hopen : Lexes anyChar ['['] ["["] := lexes_punctuation (by decide)
    simp only [String.append_assoc, String.toList_append]
    exact congrArg current (hopen.tokens fun _ _ => rfl)
  · rename_i hnone
    rw [if_neg hnone] at h
    rw [String.empty_append, tokens_offset]
    cases hoffset : r.offset with
    | none => simp [hoffset, optionTokens] at h
    | some d => exact .inr rfl

end Range

namespace Expr

section Metric

variable {name : String} {range : Range} (hname : IsLegible name)
include hname

theorem render_metricRange : (rollup (selector (.ofName name)) range none).render =
    escapeIdent name ++ range.render := by
  have hne := hname.ne_empty
  simp [render, innerNeedsParens, parenthesize, render_selector, renderTimeOf,
    Selector.name?_ofName hne, Selector.writtenGroups_ofName hne]

variable (hword : Grammar.isNumberWord (escapeIdent name) = false)
include hword

theorem legibleSelector_ofName : LegibleSelector (.ofName name) where
  name := by
    rintro n hn
    rw [Selector.name?_ofName hname.ne_empty] at hn
    cases hn
    exact ⟨hname, hword⟩
  groups := by simp [Selector.writtenGroups_ofName hname.ne_empty, LegibleGroups]

/-- The text of a range without tokens is that of the metric. -/
theorem tokens_ne_nil_of_parse {e : Expr} (h : parse (escapeIdent name ++ range.render) = .ok e)
    (hrollup : e.isRollup) : range.tokens ≠ [] := by
  intro hempty
  have htext : range.render = "" := by
    simp only [Range.tokens, Range.windowTokens, List.append_eq_nil_iff] at hempty
    unfold Range.render Range.renderWindow
    split
    · rename_i hset
      simp [hset] at hempty
    · cases hoffset : range.offset with
      | none => rfl
      | some d => simp [hoffset, optionTokens] at hempty
  have hselector := parse_render_selector (legibleSelector_ofName hname hword)
  have hne := hname.ne_empty
  simp only [render_selector, Selector.name?_ofName hne, Selector.writtenGroups_ofName hne,
    List.isEmpty_nil, if_true, String.append_empty] at hselector
  rw [htext, String.append_empty, hselector] at h
  cases h
  cases hrollup

/-- The text of a range of a metric is read as a range of it, or as operators behind one. -/
theorem gives_ofText_metricRange (hvisible : range.tokens ≠ []) :
    Gives (fun x => ∃ range' time chain,
      x = (rollup (selector (.ofName name)) range' time).chained chain ∧
        (range'.Resolved → RangeRead (Lexeme.texts range.render.toList).1 range'))
      (ofText (escapeIdent name ++ range.render)) := by
  have htokens : (Lexeme.texts (escapeIdent name ++ range.render).toList).1 =
      escapeIdent name :: (Lexeme.texts range.render.toList).1 := by
    rw [String.toList_append, (lexes_name hname.ne_empty).tokens range.head_render]
    rfl
  refine Reaches.ofText ?_
  rw [htokens]
  exact Reader.reaches_rangedMetric hname hword (Range.current_tokens hvisible) (depthBudget - 4)

/-- What stands for a range of a metric is read from the tokens of the range. -/
theorem faithful_of_parse_render
    (h : parse (rollup (selector (.ofName name)) range none).render =
      .ok (rollup (selector (.ofName name)) range none)) : range.Faithful := by
  rw [render_metricRange hname] at h
  have hvisible := tokens_ne_nil_of_parse hname hword h rfl
  have hparse := h
  unfold parse at h
  cases hread : ofText (escapeIdent name ++ range.render) with
  | error cause =>
      rw [hread] at h
      cases h
  | ok x =>
      rw [hread] at h
      have hwritten := gives_ofText _ x hread
      obtain ⟨range', time, chain, rfl, hrange⟩ :=
        gives_ofText_metricRange hname hword hvisible x hread
      cases chain with
      -- Operators behind the range would have made it an operand.
      | cons link chain =>
          have hbinary := isBinary_chained (rollup (selector (.ofName name)) range' time)
            (List.cons_ne_nil link chain)
          exact absurd (not_isRollup_of_isBinary hbinary h) (by simp [isRollup])
      | nil =>
          simp only [chained, List.foldl_nil] at hread hwritten
          obtain ⟨hresolved, inner, time', heq⟩ := rollup_of_parse hread hparse
          simp only [rollup.injEq] at heq
          obtain ⟨-, rfl, -⟩ := heq
          cases hwritten with
          | rollup hparts hinner htime => exact (hrange hresolved).faithful hparts hresolved hvisible

theorem spelled_of_faithful (h : range.Faithful) :
    (rollup (selector (.ofName name)) range none).Spelled :=
  allNodes_rollup.2 ⟨isSpelled_rollup h.window h.step h.offset _ _,
    spelled_of_readable ((allNodes_atom rfl).2 (legibleSelector_ofName hname hword)), by simp⟩

/-- A metric with the range behind it is an operand. -/
theorem reads_rangeOfMetric {E : ParseError → Prop} {p : Prop} {budget : Nat} {s l : List String}
    {e : Expr} (hs : current s ∈ ["[", "offset", "@"])
    (h : Reads E p ((Reader.grammar budget).rollup (selector (.ofName name))) s e l) :
    Reads E p (Reader.operand (budget + 4)) ((Selector.ofName name).tokens ++ s) e l := by
  have hstarts : ∀ t ∈ ["[", "offset", "@"], t ∈ bareEnds ∧ Grammar.startsRange t ∧ t ≠ "(" := by
    decide
  have hstart := hstarts _ hs
  have hmetric := Grammar.takes_metricOperand (g := Reader.grammar budget)
    (legibleSelector_ofName hname hword) hstart.1 (standsBefore_range rfl rfl hs)
  rw [Selector.reread_ofName hname.ne_empty] at hmetric
  have hnext : ((Selector.ofName name).tokens ++ s)[1]?.getD "" = current s := by
    have hne := hname.ne_empty
    simp only [Selector.tokens, Selector.name?_ofName hne, Selector.writtenGroups_ofName hne]
    cases s <;> rfl
  rw [Reader.operand_add]
  have hoperand := Grammar.reads_rangedOperand (.inr (by rw [hnext]; exact hstart.2.2))
    (hmetric.reads (p := True) trivial) hstart.2.1 h
  exact hoperand.congr (by simp)

theorem takes_metricRange (h : range.Faithful) : Takes (Reader.expression depthBudget)
    (rollup (selector (.ofName name)) range none).tokens
    (rollup (selector (.ofName name)) range none) [] := by
  have htokens : (rollup (selector (.ofName name)) range none).tokens =
      (Selector.ofName name).tokens ++ (range.tokens ++ []) := by
    simp [tokens, innerNeedsParens, parenTokens, tokensOfTime]
  have hvisible : range.tokens ++ tokensOfTime none ≠ [] := by
    simpa [tokensOfTime] using h.visible
  have hhead : current (range.tokens ++ []) ∈ ["[", "offset", "@"] := current_range hvisible []
  have hrange := Grammar.reads_rollup (g := Reader.grammar (depthBudget - 4))
    (selector (.ofName name)) h.readableWindow h.offset (l := []) (by decide)
    (Grammar.takes_noTime (by decide)) (.inr ⟨rfl, rfl⟩)
  rw [h.reread_eq] at hrange
  have hoperand : Takes (Reader.operand depthBudget) _ _ _ :=
    reads_rangeOfMetric hname hword hhead hrange
  rw [htokens]
  exact hoperand.bind (Reader.takes_chainStop _ _ (by decide))

/-- A range that is faithful is read from its text. -/
theorem parse_render_of_faithful (h : range.Faithful) :
    parse (rollup (selector (.ofName name)) range none).render =
      .ok (rollup (selector (.ofName name)) range none) := by
  have htext := (ofText_of_reads (texts_render (spelled_of_faithful hname hword h))
    (takes_metricRange hname hword h)).1 trivial
  have hexpand : (rollup (selector (.ofName name)) range none).expandTemplates =
      .ok (rollup (selector (.ofName name)) range none) :=
    expandTemplates_rollup_iff.2 ⟨h.resolved, _, none, expandTemplates_metric name, rfl, rfl⟩
  have hnormal : normalize (rollup (selector (.ofName name)) range none) =
      .ok (rollup (selector (.ofName name)) range none) :=
    normalize_eq_ok_iff.2 ⟨rfl, rfl, rfl⟩
  unfold parse
  rw [htext]
  simp only [Bind.bind, Except.bind, hexpand]
  exact hnormal

end Metric
end Expr

/-! ## Faithful ranges -/

/-- The text of a range of a metric stands for the range exactly if the window and the magnitude of
the offset are tokens by themselves, the step is the rest of an identifier, and it is not said both
that there is a step and that the step of the query is meant. -/
theorem parse_render_metricRange {name : String} (hname : IsLegible name)
    (hword : Grammar.isNumberWord (escapeIdent name) = false) (range : Range) :
    (∃ e', parse (Expr.rollup (.selector (.ofName name)) range none).render = .ok e' ∧
      e'.same (.rollup (.selector (.ofName name)) range none)) ↔ range.Faithful := by
  constructor
  · rintro ⟨e', hparse, hsame⟩
    rw [Expr.same_selectorRange_iff.1 hsame] at hparse
    exact Expr.faithful_of_parse_render hname hword hparse
  · intro h
    exact ⟨_, Expr.parse_render_of_faithful hname hword h, Expr.same_selectorRange_iff.2 rfl⟩

/-- A subquery whose offset looks ahead. -/
def aheadRange : Range :=
  ⟨some ⟨"1h30m", false⟩, some ⟨"5m", false⟩, some ⟨"-1.5d", false⟩, false⟩

theorem faithful_aheadRange : aheadRange.Faithful where
  window := by
    rintro d ⟨⟩
    exact legibleDuration_of_positive (by decide)
  step := by
    rintro d ⟨⟩
    exact ⟨(legibleDuration_of_positive (by decide)).readable, by unfold IsStepText; decide⟩
  offset := by
    rintro d ⟨⟩
    exact ⟨rfl, legibleDuration_of_positive (by decide)⟩
  inherits := by decide
  visible := by decide

theorem parse_metricRange (query name : String) (range : Range)
    (h : (parse query).toOption.any
      (·.same (.rollup (.selector (.ofName name)) range none))) :
    parse query = .ok (.rollup (.selector (.ofName name)) range none) := by
  rcases (Option.any_eq_true _ _).1 h with ⟨e, he, hsame⟩
  rw [Expr.same_selectorRange_iff.1 hsame] at he
  exact toOption_eq_some_iff.1 he

theorem parse_render_metricRange_ahead :
    parse "foo[1h30m:5m] offset -1.5d" = .ok (.rollup (.selector (.ofName "foo")) aheadRange none) ∧
      ∃ e', parse (Expr.rollup (.selector (.ofName "foo")) aheadRange none).render = .ok e' ∧
        e'.same (.rollup (.selector (.ofName "foo")) aheadRange none) := by
  have hfoo : IsMetricName "foo" := isMetricName_of_plain (by simp)
  refine ⟨parse_metricRange _ _ _ (by decide +kernel), ?_⟩
  have hword : Grammar.isNumberWord (escapeIdent "foo") = false := by decide +kernel
  exact (parse_render_metricRange hfoo.legible hword aheadRange).2 faithful_aheadRange

/-- Without the blank behind its colon the step `1h-5m` ends at the minus. -/
theorem not_parse_render_metricRange :
    ¬∀ (query name : String) (range : Range),
      parse query = .ok (.rollup (.selector (.ofName name)) range none) → IsMetricName name →
      ∃ e', parse (Expr.rollup (.selector (.ofName name)) range none).render = .ok e' ∧
        e'.same (.rollup (.selector (.ofName name)) range none) := by
  intro hclaim
  have hparse := parse_metricRange "foo[1d: 1h-5m]" "foo"
    ⟨some ⟨"1d", false⟩, some ⟨"1h-5m", false⟩, none, false⟩ (by decide +kernel)
  obtain ⟨e', hread, hsame⟩ := hclaim _ _ _ hparse (isMetricName_of_plain (by simp))
  rw [Expr.same_selectorRange_iff.1 hsame] at hread
  have hword : Grammar.isNumberWord (escapeIdent "foo") = false := by decide +kernel
  have hfoo : IsLegible "foo" := (isMetricName_of_plain (by simp)).legible
  have hstep := ((Expr.faithful_of_parse_render hfoo hword hread).step _ rfl).2
  exact absurd (hstep '-' (by decide)) (by decide)

end SeriesQuery
