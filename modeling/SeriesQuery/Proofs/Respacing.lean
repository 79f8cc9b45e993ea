import SeriesQuery.Proofs.Cursors
import SeriesQuery.Proofs.Gaps
import SeriesQuery.Proofs.Rescanning

/-!
# Texts with other spaces

Each scanner looks at what stands behind its token: at letters of units and multipliers, at the
second sign of an operator, at hexadecimal digits behind a backslash.  A blank there ends the token
as well as what has ended it in the text (`lexes_of_scan`), so that the tokens of a text with single
spaces between them are a text with these tokens (`takeAll_respaced`).
-/

namespace SeriesQuery

open Text

/-! ## Identifiers -/

/-- An escape is told by its own characters. -/
theorem escapeLength_again {cs : List Char} {n : Nat} (h : escapeLength cs = some n) :
    n ≤ cs.length ∧ ∀ rest, escapeLength (cs.take n ++ rest) = some n := by
  rcases escapeLength_cases h with ⟨mark, width, digits, rfl, rfl, -, hmark, hwidth, hall⟩ |
    ⟨c, others, rfl, rfl, -, hprint⟩
  · have hlength : (digits.take width).length = width := List.length_take_of_le hwidth
    refine ⟨Nat.succ_le_succ hwidth, fun rest => ?_⟩
    rw [List.take_succ_cons, List.cons_append]
    refine hmark _ (by simp [hlength]) ?_
    rwa [List.take_append_of_le_length hlength.ge, List.take_of_length_le hlength.le]
  · exact ⟨Nat.succ_le_succ (Nat.zero_le _), hprint⟩

/-- If anything is split off as an identifier, a character or an escape is taken first. -/
theorem splitIdentFrom_cases {started : Bool} {cs t left : List Char}
    (h : splitIdentFrom started 0 cs = (t, left)) :
    t = [] ∨ ∃ head rest more, cs = head ++ rest ∧ head ≠ [] ∧ t = head ++ more ∧
      Taken started head ∧ splitIdentFrom true 0 rest = (more, left) := by
  cases cs with
  | nil =>
      cases h
      exact .inl rfl
  | cons c rest =>
      rw [splitIdentFrom] at h
      by_cases hchar : (if started then isIdentChar c else isIdentStart c) = true
      · rw [if_pos hchar] at h
        rcases hrest : splitIdentFrom true 0 rest with ⟨more, after⟩
        rw [hrest] at h
        cases h
        refine .inr ⟨[c], rest, more, rfl, List.cons_ne_nil c [], rfl, ?_, hrest⟩
        cases started with
        | false => exact taken_start hchar
        | true => exact taken_char hchar
      · rw [if_neg hchar] at h
        split at h
        · rename_i hslash
          have hc : c = '\\' := beq_iff_eq.1 hslash
          subst hc
          cases hescape : escapeLength rest with
          | none =>
              rw [hescape] at h
              cases h
              exact .inl rfl
          | some width =>
              simp only [hescape] at h
              rcases escapeLength_again hescape with ⟨hwidth, hagain⟩
              have htake : (rest.take width).length = width := List.length_take_of_le hwidth
              -- The characters behind the backslash are taken whatever they are.
              have howed := splitIdentFrom_owed (rest.take width) (rest.drop width)
              rw [htake, List.take_append_drop] at howed
              simp only [howed] at h
              cases h
              have hone : Taken started ('\\' :: rest.take width) :=
                taken_backslash fun cs => by rw [hagain cs, htake]
              refine .inr ⟨'\\' :: rest.take width, rest.drop width, _, ?_, List.cons_ne_nil _ _, rfl,
                hone, rfl⟩
              rw [List.cons_append, List.take_append_drop]
        · cases h
          exact .inl rfl

/-- What is split off as an identifier is taken as one whatever follows it. -/
theorem taken_of_split {started : Bool} {cs t left : List Char}
    (h : splitIdentFrom started 0 cs = (t, left)) (ht : started = false → t ≠ []) :
    Taken started t := by
  -- An escape is taken as a whole, so the induction is on the length of the text.
  induction hlength : cs.length using Nat.strongRecOn generalizing started cs t with
  | ind n ih =>
      rcases splitIdentFrom_cases h with rfl | ⟨head, rest, more, rfl, hne, rfl, hhead, hrest⟩
      · cases started with
        | false => exact absurd rfl (ht rfl)
        | true => exact taken_nil
      · have hshorter : rest.length < n := by
          have hpos := List.length_pos_iff.2 hne
          rw [List.length_append] at hlength
          omega
        exact hhead.append (ih rest.length hshorter hrest (by simp) rfl)

theorem splitIdent_again {cs t left rest : List Char} (h : splitIdent cs = (t, left)) (ht : t ≠ [])
    (hrest : EndsIdent rest) : splitIdent (t ++ rest) = (t, rest) := by
  have htaken := taken_of_split h (fun _ => ht) rest
  rw [splitIdentFrom_of_endsIdent hrest] at htaken
  simpa [splitIdent] using htaken

/-! ## Quotes -/

/-- A literal ends with its closing quote, whatever follows it. -/
theorem splitBody_again {q : Char} {escaped : Bool} {cs body left : List Char}
    (h : splitBody q escaped cs = some (body, left)) (rest : List Char) :
    splitBody q escaped (body ++ rest) = some (body, rest) := by
  induction cs generalizing escaped body with
  | nil => cases h
  | cons c cs ih =>
      unfold splitBody at h
      split at h
      · rename_i hclosing
        cases h
        rw [List.singleton_append, splitBody, if_pos hclosing]
      · rename_i hopen
        rcases Option.map_eq_some_iff.1 h with ⟨⟨more, after⟩, hmore, heq⟩
        cases heq
        rw [List.cons_append, splitBody, if_neg hopen, ih hmore]
        rfl

theorem splitQuoted_again {cs t left : List Char} (h : splitQuoted cs = .ok (t, left))
    (rest : List Char) : splitQuoted (t ++ rest) = .ok (t, rest) := by
  unfold splitQuoted at h
  split at h
  · cases h
  · cases h
  · split at h
    · rename_i body after hbody
      cases h
      have hself := splitBody_again hbody []
      have hagain := splitBody_again hbody rest
      cases body with
      | nil => cases hself
      | cons c body =>
          rw [List.cons_append] at hagain
          simp [splitQuoted, hagain]
    · cases h

/-! ## Tokens -/

/-- Behind a gap there is neither a blank nor a comment. -/
theorem head_skipGapFrom (inComment : Bool) (cs : List Char) :
    ∀ c ∈ (skipGapFrom inComment cs).head?, isSpace c = false ∧ c ≠ '#' := by
  induction cs generalizing inComment with
  | nil =>
      intro c hc
      cases hc
  | cons d rest ih =>
      unfold skipGapFrom
      split
      · exact ih _
      · split
        · exact ih _
        · split
          · exact ih _
          · rename_i hspace hcomment
            intro c hc
            cases hc
            exact ⟨by simpa using hspace, by simpa using hcomment⟩

theorem afterSign_of_afterTerm (c : Char) (h : afterTerm c) : afterSign c := by
  have hall : ∀ d ∈ [' ', '\n', '{', '}', '[', ']', '(', ')', ',', '@'], afterSign d := by decide
  exact hall c (mem_of_afterTerm h)

theorem mem_operatorSigns_of_splitSign {cs sign left : List Char}
    (h : splitSign cs = some (sign, left)) : sign ∈ operatorSigns := by
  rcases Option.map_eq_some_iff.1 h with ⟨found, hfound, heq⟩
  cases heq
  exact List.mem_of_find?_eq_some hfound

section Tokens

variable {c : Char} {t left : List Char} (hgap : isSpace c = false ∧ c ≠ '#')
  (hpunctuation : isPunctuation c = false)
include hgap hpunctuation

theorem lexes_of_splitIdent (hident : startsIdent (c :: t ++ left))
    (hsplit : splitIdent (c :: t ++ left) = (c :: t, left)) :
    Lexes afterTerm (c :: t) [String.ofList (c :: t)] := by
  refine lexes_of_scanToken hgap.1 hgap.2 fun rest hrest => ?_
  have hends : EndsIdent rest := fun d hd => by
    simpa [afterIdent] using afterIdent_of_afterTerm d (hrest d hd)
  have hagain := splitIdent_again hsplit (List.cons_ne_nil c t) hends
  have hstarts : startsIdent (c :: t ++ rest) = true := hident
  rw [List.cons_append] at hagain hstarts ⊢
  simp [scanToken, hpunctuation, hstarts, hagain]

theorem lexes_of_splitQuoted (hident : startsIdent (c :: t ++ left) = false) (hquote : isQuote c)
    (hsplit : splitQuoted (c :: t ++ left) = .ok (c :: t, left)) :
    Lexes afterTerm (c :: t) [String.ofList (c :: t)] := by
  refine lexes_of_scanToken hgap.1 hgap.2 fun rest _ => ?_
  have hagain := splitQuoted_again hsplit rest
  have hstarts : startsIdent (c :: t ++ rest) = false := hident
  rw [List.cons_append] at hagain hstarts ⊢
  simp [scanToken, hpunctuation, hstarts, hquote, hagain, Except.mapError]

end Tokens

theorem lexes_of_splitSignOrNumber {cs t left : List Char}
    (h : splitSignOrNumber cs = .ok (t, left)) : Lexes afterTerm t [String.ofList t] := by
  cases hsign : splitSign cs with
  | some found =>
      simp only [splitSignOrNumber, hsign, Except.ok.injEq] at h
      subst h
      exact (lexes_sign (mem_operatorSigns_of_splitSign hsign)).mono afterSign_of_afterTerm
  | none =>
      have hnumber := lexes_number (isNumeral_of_split hsign h)
      rw [String.toList_ofList] at hnumber
      exact hnumber.mono afterNumber_of_afterTerm

/-- A token is a token before any text that starts with a blank. -/
theorem lexes_of_scanned {cs t left : List Char}
    (hhead : ∀ c ∈ cs.head?, isSpace c = false ∧ c ≠ '#') (h : scanToken cs = .ok (t, left)) :
    Lexes afterTerm t [String.ofList t] := by
  have hconcat := scanToken_concat h
  rcases scanToken_cases h with ⟨c, rest, rfl, hcases⟩
  have hgap := hhead c rfl
  cases t with
  | nil => exact absurd rfl (scanToken_ne_nil h)
  | cons d t =>
      cases hconcat
      rcases hcases with ⟨hpunctuation, heq, -⟩ | ⟨hpunctuation, hident, -, hsplit⟩ |
        ⟨hpunctuation, hident, hquote, hsplit⟩ | hother
      · cases heq
        exact (lexes_punctuation hpunctuation).mono fun _ _ => rfl
      · exact lexes_of_splitIdent hgap hpunctuation hident hsplit
      · exact lexes_of_splitQuoted hgap hpunctuation hident hquote hsplit
      · exact lexes_of_splitSignOrNumber hother

theorem lexes_of_scan {cs rest : List Char} {t : String} (h : scan cs = .token t rest) :
    Lexes afterTerm t.toList [t] := by
  have hlexes := lexes_of_scanned (head_skipGapFrom false cs) (scan_eq_token_iff.1 h)
  rwa [String.ofList_toList] at hlexes

/-- All tokens of a text are tokens before a blank. -/
theorem lexes_of_mem_texts {cs : List Char} :
    ∀ t ∈ (Lexeme.texts cs).1, Lexes afterTerm t.toList [t] := by
  -- A step of scanning leaves less text.
  induction hlength : cs.length using Nat.strongRecOn generalizing cs with
  | ind n ih =>
      subst hlength
      cases hscan : scan cs with
      | done => simp [Lexeme.texts_of_done hscan]
      | failed cause rest => simp [Lexeme.texts_of_failed hscan]
      | token t rest =>
          rw [Lexeme.texts_of_token hscan]
          have hrest : ∀ t ∈ (Lexeme.texts rest).1, Lexes afterTerm t.toList [t] :=
            ih rest.length (length_lt_of_scan hscan) rfl
          exact List.forall_mem_cons.2 ⟨lexes_of_scan hscan, hrest⟩

/-! ## Single spaces -/

/-- Tokens with single spaces between them are a text with these tokens. -/
theorem lexes_spaced {ts : List String} (h : ∀ t ∈ ts, Lexes afterTerm t.toList [t]) :
    Lexes afterTerm (String.intercalate " " ts).toList ts := by
  induction ts with
  | nil => exact lexes_nil
  | cons t ts ih =>
      rcases List.forall_mem_cons.1 h with ⟨hfirst, hrest⟩
      cases ts with
      | nil => simpa using hfirst
      | cons u us =>
          have hspaced := lexes_space.append_any (ih hrest)
          have hall := hfirst.append_cons hspaced (by decide)
          simpa [String.intercalate_cons_cons] using hall

theorem texts_spaced {ts : List String} (h : ∀ t ∈ ts, Lexes afterTerm t.toList [t]) :
    Lexeme.texts (String.intercalate " " ts).toList = (ts, true) :=
  (lexes_spaced h).texts

namespace Cursor

/-- The tokens of a text that is scanned to its end are the tokens of the text where they stand with
single spaces between them. -/
theorem takeAll_respaced {text : String} (h : (ofText text).takeAll.2.1 = .ok ()) :
    (ofText (String.intercalate " " (ofText text).takeAll.1)).takeAll.2.1 = .ok () ∧
      (ofText (String.intercalate " " (ofText text).takeAll.1)).takeAll.1 =
        (ofText text).takeAll.1 := by
  have htexts := texts_of_takeAll h
  have hall : ∀ t ∈ (Lexeme.texts text.toList).1, Lexes afterTerm t.toList [t] :=
    lexes_of_mem_texts
  rw [htexts] at hall
  generalize (ofText text).takeAll.1 = ts at hall ⊢
  have hspaced := texts_spaced hall
  have hok : (ofText (String.intercalate " " ts)).takeAll.2.1 = .ok () :=
    takeAll_of_scanned (by rw [hspaced])
  refine ⟨hok, ?_⟩
  have hagain := texts_of_takeAll hok
  rw [hspaced] at hagain
  exact (congrArg Prod.fst hagain).symm

/-- A unit before a multiplier, an exponent before the letters of a name, an escape with more digits
than it needs, and signs without any space. -/
theorem takeAll_respaced_dense :
    let text := "m\\x2d0\x7ba=~'#\\''\x7d[1h5mi]*-.5e3mib<=0x1fg#end\n>5ms"
    let spaced := "m\\x2d0 \x7b a =~ '#\\'' \x7d [ 1h 5mi ] * - .5e3 mib <= 0x1f g > 5ms"
    (ofText text).takeAll.2.1 = .ok () ∧ String.intercalate " " (ofText text).takeAll.1 = spaced ∧
      (ofText spaced).takeAll.2.1 = .ok () ∧
      (ofText spaced).takeAll.1 = (ofText text).takeAll.1 := by
  intro text spaced
  have hok : (ofText text).takeAll.2.1 = .ok () := by decide +kernel
  have hspaced : String.intercalate " " (ofText text).takeAll.1 = spaced := by decide +kernel
  have hagain := takeAll_respaced hok
  rw [hspaced] at hagain
  exact ⟨hok, hspaced, hagain⟩

end Cursor

end SeriesQuery
