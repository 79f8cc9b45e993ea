import SeriesQuery.Proofs.Alike
import SeriesQuery.Proofs.Cursors

/-!
# What stands between tokens

Nothing of a text is lost where it is scanned: it is its tokens with gaps around them, and a gap
holds blanks and comments only (`Divides`).  A comment ends with its line; only behind the last
token may it end with the text.

Each step that scans leaves less text than there was, so that a cursor comes to the end of every
text, or to a failure (`takeAll_divides`).
-/

namespace SeriesQuery

open Text

/-! ## Gaps -/

/-- Blanks and comments, each comment with the line break that ends it.  The last comment has none
where the gap is at the end of the text. -/
inductive IsGap (atEnd : Bool) : List Char → Prop where
  | nil : IsGap atEnd []
  | blank {c : Char} {gap : List Char} :
      c ∈ [' ', '\t', '\n', '\x0b', '\x0c', '\r'] → IsGap atEnd gap → IsGap atEnd (c :: gap)
  | comment {line gap : List Char} :
      '\n' ∉ line → IsGap atEnd gap → IsGap atEnd ('#' :: line ++ '\n' :: gap)
  | lastComment {line : List Char} : atEnd → '\n' ∉ line → IsGap atEnd ('#' :: line)

/-- A comment is skipped with its line break, or to the end of the text if it has none. -/
theorem skipGapFrom_comment (rest : List Char) :
    '\n' ∉ rest ∧ skipGapFrom true rest = [] ∨
      ∃ line after, rest = line ++ '\n' :: after ∧ '\n' ∉ line ∧
        skipGapFrom true rest = skipGap after := by
  induction rest with
  | nil => exact .inl ⟨by simp, rfl⟩
  | cons c rest ih =>
      by_cases hbreak : c = '\n'
      · subst hbreak
        exact .inr ⟨[], rest, rfl, by simp, rfl⟩
      · have hmore : (c != '\n') = true := bne_iff_ne.2 hbreak
        have hskip : skipGapFrom true (c :: rest) = skipGapFrom true rest := by
          simp [skipGapFrom, hmore]
        have hne : ¬('\n' = c) := fun heq => hbreak heq.symm
        rw [hskip]
        rcases ih with ⟨hline, hnone⟩ | ⟨line, after, rfl, hline, hafter⟩
        · exact .inl ⟨by simp [hne, hline], hnone⟩
        · exact .inr ⟨c :: line, after, rfl, by simp [hne, hline], hafter⟩

theorem skipGap_blank {c : Char} (h : isSpace c) (rest : List Char) :
    skipGap (c :: rest) = skipGap rest := by
  simp [skipGap, skipGapFrom, h]

theorem skipGap_of_ne {c : Char} (hspace : isSpace c = false) (hcomment : c ≠ '#')
    (rest : List Char) : skipGap (c :: rest) = c :: rest := by
  simp [skipGap, skipGapFrom, hspace, hcomment]

/-- What is skipped is a gap; it is at the end if nothing is left. -/
theorem exists_gap (cs : List Char) :
    ∃ gap, IsGap (skipGap cs).isEmpty gap ∧ gap ++ skipGap cs = cs := by
  -- A comment is skipped as a whole, so the induction is on the length of the text.
  induction hlength : cs.length using Nat.strongRecOn generalizing cs with
  | ind n ih =>
      subst hlength
      cases cs with
      | nil => exact ⟨[], .nil, rfl⟩
      | cons c rest =>
          by_cases hspace : isSpace c = true
          · rcases ih rest.length (by simp) rest rfl with ⟨gap, hgap, hrest⟩
            rw [skipGap_blank hspace]
            exact ⟨c :: gap, .blank (mem_of_isSpace hspace) hgap, by rw [List.cons_append, hrest]⟩
          · by_cases hcomment : c = '#'
            · subst hcomment
              have hskip : skipGap ('#' :: rest) = skipGapFrom true rest := rfl
              rw [hskip]
              rcases skipGapFrom_comment rest with
                ⟨hline, hnone⟩ | ⟨line, after, rfl, hline, hafter⟩
              · rw [hnone]
                exact ⟨'#' :: rest, .lastComment rfl hline, List.append_nil _⟩
              · rw [hafter]
                rcases ih after.length (by simp; omega) after rfl with ⟨gap, hgap, hrest⟩
                refine ⟨'#' :: line ++ '\n' :: gap, .comment hline hgap, ?_⟩
                rw [List.append_assoc, List.cons_append, List.cons_append, hrest]
            · rw [skipGap_of_ne (by simpa using hspace) hcomment]
              exact ⟨[], .nil, rfl⟩

theorem scan_eq_done_iff {cs : List Char} : scan cs = .done ↔ skipGap cs = [] := by
  unfold scan
  split
  · rename_i hgap
    simp [hgap]
  · rename_i hgap
    refine ⟨fun h => ?_, fun h => absurd h hgap⟩
    split at h <;> cases h

/-- What is left behind a token is the end of the text. -/
theorem suffix_of_scan {cs rest : List Char} {t : String} (h : scan cs = .token t rest) :
    rest <:+ cs := by
  have htoken := scanToken_concat (scan_eq_token_iff.1 h)
  have hgap : skipGap cs <:+ cs := skipGapFrom_suffix false cs
  rw [← htoken] at hgap
  exact (List.suffix_append _ rest).trans hgap

/-! ## Texts and their tokens -/

/-- The text is these tokens in their order, with gaps before, between and behind them. -/
inductive Divides : List String → List Char → Prop where
  | last {gap : List Char} : IsGap true gap → Divides [] gap
  | token {gap rest : List Char} {t : String} {ts : List String} :
      IsGap false gap → t ≠ "" → Divides ts rest → Divides (t :: ts) (gap ++ t.toList ++ rest)

/-- The tokens that are scanned divide the text. -/
theorem divides_texts {cs : List Char} {ts : List String} (h : Lexeme.texts cs = (ts, true)) :
    Divides ts cs := by
  induction ts generalizing cs with
  | nil =>
      cases hscan : scan cs with
      | done =>
          have hnone := scan_eq_done_iff.1 hscan
          rcases exists_gap cs with ⟨gap, hgap, hcs⟩
          rw [hnone, List.append_nil] at hcs
          rw [hnone] at hgap
          rw [← hcs]
          exact .last hgap
      | failed cause rest => simp [Lexeme.texts_of_failed hscan] at h
      | token t rest => simp [Lexeme.texts_of_token hscan] at h
  | cons t ts ih =>
      cases hscan : scan cs with
      | done => simp [Lexeme.texts_of_done hscan] at h
      | failed cause rest => simp [Lexeme.texts_of_failed hscan] at h
      | token t' rest =>
          rw [Lexeme.texts_of_token hscan, Prod.mk.injEq, List.cons.injEq] at h
          rcases h with ⟨⟨rfl, htokens⟩, hwhole⟩
          have hrest : Divides ts rest := ih (Prod.ext htokens hwhole)
          have htoken := scanToken_concat (scan_eq_token_iff.1 hscan)
          rcases exists_gap cs with ⟨gap, hgap, hcs⟩
          have hne := ne_empty_of_scan hscan
          -- A token follows the gap, so the gap is not the last one.
          have hmore : (skipGap cs).isEmpty = false := by simp [← htoken, hne]
          rw [hmore] at hgap
          rw [← hcs, ← htoken, ← List.append_assoc]
          exact .token hgap hne hrest

/-! ## Cursors -/

namespace Cursor

/-- A step that scans leaves a part of the text that is shorter, or it fails. -/
theorem next_shortens {c : Cursor} (hafter : c.after = []) (hunread : c.unread ≠ []) :
    (∃ cause, c.next.1 = .error cause) ∨
      c.next.2.unread <:+ c.unread ∧ c.next.2.unread.length < c.unread.length := by
  cases hfailure : c.failure with
  | some cause => exact .inl ⟨cause, by simp [next, hfailure]⟩
  | none =>
      cases hscan : scan c.unread with
      | done =>
          rw [next_of_done hfailure hafter hscan]
          exact .inr ⟨List.nil_suffix, List.length_pos_iff.2 hunread⟩
      | failed cause unread =>
          rw [next_of_failed hfailure hafter hscan]
          exact .inl ⟨cause, rfl⟩
      | token token unread =>
          rw [next_of_token hfailure hafter hscan]
          exact .inr ⟨suffix_of_scan hscan, length_lt_of_scan hscan⟩

/-- A text that is scanned to its end is its tokens, none of them empty, with gaps around them.  A
step forward that has to scan leaves a shorter text, unless it fails. -/
theorem takeAll_divides :
    (∀ text, (ofText text).takeAll.2.1 = .ok () →
      Divides (ofText text).takeAll.1 text.toList) ∧
    ∀ c : Cursor, c.after = [] → c.unread ≠ [] →
      (∃ cause, c.next.1 = .error cause) ∨
        c.next.2.unread <:+ c.unread ∧ c.next.2.unread.length < c.unread.length :=
  ⟨fun _ h => divides_texts (texts_of_takeAll h), fun _ => next_shortens⟩

/-- Comments between tokens and behind the last one, and a comment without any token. -/
theorem takeAll_divides_commented :
    let text := "m # a\n[5m] # b"
    let ended := ofText " # b"
    ((ofText text).takeAll.2.1 = .ok () ∧ (ofText text).takeAll.1 = ["m", "[", "5m", "]"] ∧
      Divides ["m", "[", "5m", "]"] text.toList) ∧
    ended.after = [] ∧ ended.unread ≠ [] ∧
      ((∃ cause, ended.next.1 = .error cause) ∨
        ended.next.2.unread <:+ ended.unread ∧
          ended.next.2.unread.length < ended.unread.length) :=
  have hok : (ofText "m # a\n[5m] # b").takeAll.2.1 = .ok () := by decide +kernel
  have htokens : (ofText "m # a\n[5m] # b").takeAll.1 = ["m", "[", "5m", "]"] := by
    decide +kernel
  have hunread : (ofText " # b").unread ≠ [] := by decide
  ⟨⟨hok, htokens, htokens ▸ takeAll_divides.1 _ hok⟩, rfl, hunread,
    takeAll_divides.2 _ rfl hunread⟩

end Cursor

end SeriesQuery
