import SeriesQuery.Proofs.Partition
import SeriesQuery.Syntax.Feed

/-!
# Tokens of a text that is put together

`Lexeme.texts` gives the texts of the tokens and tells whether they go on to the end.  A text that is
put together of parts has the tokens of the parts, as long as each part is followed by a character
that may follow it: `Lexes` says so of a part, and `Lexes.append` puts two parts together.
-/

namespace SeriesQuery

open Text

/-! ## Tokens of a whole text -/

namespace Lexeme

/-- The texts of the tokens, and whether they go on to the end of the text. -/
def texts (cs : List Char) : List String × Bool :=
  ((ofText cs).1.map text, (ofText cs).2.isNone)

theorem texts_of_done {cs : List Char} (h : scan cs = .done) : texts cs = ([], true) := by
  simp [texts, ofText_of_done h]

theorem texts_of_failed {cs rest : List Char} {cause : ScanError}
    (h : scan cs = .failed cause rest) : texts cs = ([], false) := by
  simp [texts, ofText_of_failed h]

theorem texts_of_token {cs rest : List Char} {t : String} (h : scan cs = .token t rest) :
    texts cs = (t :: (texts rest).1, (texts rest).2) := by
  simp [texts, ofText_of_token h]

end Lexeme

/-- The tokens that the grammar reads are those of the text. -/
theorem Feed.ofText_of_texts {query : String} {ts : List String}
    (h : Lexeme.texts query.toList = (ts, true)) : Feed.ofText query = .ok ⟨ts, none, 0⟩ := by
  unfold Lexeme.texts at h
  unfold Feed.ofText
  generalize Lexeme.ofText query.toList = found at h ⊢
  rcases found with ⟨lexemes, failure⟩
  simp only [Prod.mk.injEq, Option.isNone_iff_eq_none] at h
  rcases h with ⟨rfl, rfl⟩
  cases lexemes <;> rfl

/-! ## Parts -/

/-- The tokens of the part, where the next character is one that may follow it. -/
def Lexes (follow : Char → Bool) (cs : List Char) (ts : List String) : Prop :=
  ∀ rest : List Char, (∀ c ∈ rest.head?, follow c) →
    Lexeme.texts (cs ++ rest) = (ts ++ (Lexeme.texts rest).1, (Lexeme.texts rest).2)

/-- Any character may follow. -/
def anyChar : Char → Bool :=
  fun _ => true

theorem Lexes.mono {follow follow' : Char → Bool} {cs : List Char} {ts : List String}
    (h : Lexes follow cs ts) (hfollow : ∀ c, follow' c → follow c) : Lexes follow' cs ts :=
  fun rest hrest => h rest fun c hc => hfollow c (hrest c hc)

/-- Nothing stands behind a part that is the whole text. -/
theorem Lexes.texts {follow : Char → Bool} {cs : List Char} {ts : List String}
    (h : Lexes follow cs ts) : Lexeme.texts cs = (ts, true) := by
  have hwhole := h [] (by simp)
  have hnil : Lexeme.texts [] = ([], true) := Lexeme.texts_of_done rfl
  rwa [List.append_nil, hnil, List.append_nil] at hwhole

theorem lexes_nil {follow : Char → Bool} : Lexes follow [] [] :=
  fun _ _ => rfl

theorem Lexes.append {follow follow' : Char → Bool} {cs ds : List Char} {ts us : List String}
    (hc : Lexes follow cs ts) (hd : Lexes follow' ds us)
    (hfollow : ∀ rest : List Char, (∀ c ∈ rest.head?, follow' c) →
      ∀ c ∈ (ds ++ rest).head?, follow c) :
    Lexes follow' (cs ++ ds) (ts ++ us) := by
  intro rest hrest
  rw [List.append_assoc, hc _ (hfollow rest hrest), hd rest hrest, List.append_assoc]

/-- A part that starts with a character may follow one that the character may follow. -/
theorem Lexes.append_cons {follow follow' : Char → Bool} {cs ds : List Char} {d : Char}
    {ts us : List String} (hc : Lexes follow cs ts) (hd : Lexes follow' (d :: ds) us)
    (hfollow : follow d) : Lexes follow' (cs ++ d :: ds) (ts ++ us) := by
  refine hc.append hd fun rest _ c hmem => ?_
  cases hmem
  exact hfollow

theorem Lexes.append_any {follow' : Char → Bool} {cs ds : List Char} {ts us : List String}
    (hc : Lexes anyChar cs ts) (hd : Lexes follow' ds us) : Lexes follow' (cs ++ ds) (ts ++ us) :=
  hc.append hd fun _ _ _ _ => rfl

/-- The tokens of a part are found by scanning one of them. -/
theorem lexes_of_scanToken {follow : Char → Bool} {c : Char} {cs : List Char}
    (hspace : isSpace c = false) (hcomment : c ≠ '#')
    (h : ∀ rest : List Char, (∀ d ∈ rest.head?, follow d) →
      scanToken (c :: cs ++ rest) = .ok (c :: cs, rest)) :
    Lexes follow (c :: cs) [String.ofList (c :: cs)] := by
  intro rest hrest
  have hgap : skipGap (c :: cs ++ rest) = c :: cs ++ rest := by
    simp [skipGap, skipGapFrom, hspace, hcomment]
  have hscan : scan (c :: cs ++ rest) = .token (String.ofList (c :: cs)) rest := by
    unfold scan
    rw [hgap]
    simp only [List.cons_append]
    rw [← List.cons_append, h rest hrest]
  exact Lexeme.texts_of_token hscan

/-- What is scanned depends on the text behind the gap only. -/
theorem texts_congr {cs ds : List Char} (h : skipGap cs = skipGap ds) :
    Lexeme.texts cs = Lexeme.texts ds := by
  have hscan : scan cs = scan ds := by rw [scan, scan, h]
  cases hfound : scan ds with
  | done =>
      rw [hfound] at hscan
      rw [Lexeme.texts_of_done hscan, Lexeme.texts_of_done hfound]
  | failed cause rest =>
      rw [hfound] at hscan
      rw [Lexeme.texts_of_failed hscan, Lexeme.texts_of_failed hfound]
  | token t rest =>
      rw [hfound] at hscan
      rw [Lexeme.texts_of_token hscan, Lexeme.texts_of_token hfound]

theorem skipGap_append_blanks {cs : List Char} (h : ∀ c ∈ cs, isSpace c) (rest : List Char) :
    skipGap (cs ++ rest) = skipGap rest := by
  induction cs with
  | nil => rfl
  | cons c cs ih =>
      have hparts := List.forall_mem_cons.1 h
      have hrest := ih hparts.2
      simp only [skipGap] at hrest
      simp [skipGap, skipGapFrom, hparts.1, hrest]

/-- Blanks have no tokens. -/
theorem lexes_blanks {cs : List Char} (h : ∀ c ∈ cs, isSpace c) : Lexes anyChar cs [] :=
  fun rest _ => texts_congr (skipGap_append_blanks h rest)

theorem lexes_space : Lexes anyChar [' '] [] :=
  lexes_blanks (by decide)

/-! ## Single tokens -/

theorem lexes_punctuation {c : Char} (h : isPunctuation c) :
    Lexes anyChar [c] [String.singleton c] := by
  have hblank : isSpace c = false ∧ c ≠ '#' := by
    simp only [isPunctuation, Bool.or_eq_true, beq_iff_eq] at h
    rcases h with ((((((rfl | rfl) | rfl) | rfl) | rfl) | rfl) | rfl) | rfl <;> decide
  have hlexes : Lexes anyChar [c] [String.ofList [c]] :=
    lexes_of_scanToken hblank.1 hblank.2 fun rest _ => by simp [scanToken, h]
  exact hlexes

theorem le_toNat_of_isIdentStart {c : Char} (h : isIdentStart c) : 58 ≤ c.toNat := by
  simp only [isIdentStart, Bool.or_eq_true, beq_iff_eq] at h
  rcases h with (hletter | rfl) | rfl
  · unfold isAlphabetic at hletter
    split at hletter
    · have hrange := isAsciiLetter_iff.1 hletter
      omega
    · omega
  · decide
  · decide

/-- An identifier starts with a character that identifiers may start with, or with a backslash. -/
theorem startsIdent_escape {cs : List Char} (h : cs ≠ []) :
    ∃ d ds, escape cs = d :: ds ∧ startsIdent (d :: ds) := by
  cases cs with
  | nil => exact absurd rfl h
  | cons c cs =>
      rw [escape]
      split
      · rename_i hstart
        exact ⟨c, escapeTail cs, rfl, by simp [startsIdent, hstart]⟩
      · unfold escapeChar
        split
        · exact ⟨'\\', c :: escapeTail cs, rfl, rfl⟩
        · split
          · exact ⟨'\\', _, rfl, rfl⟩
          · exact ⟨'\\', _, rfl, rfl⟩

theorem blank_of_startsIdent {c : Char} {cs : List Char} (h : startsIdent (c :: cs)) :
    isSpace c = false ∧ c ≠ '#' ∧ isPunctuation c = false := by
  simp only [startsIdent, Bool.or_eq_true, beq_iff_eq] at h
  rcases h with rfl | hstart
  · decide
  · have hle := le_toNat_of_isIdentStart hstart
    have hne : ∀ d, isIdentStart d = false → c ≠ d := by
      intro d hd heq
      rw [heq, hd] at hstart
      cases hstart
    refine ⟨?_, hne '#' (by decide), ?_⟩
    · have hspace := hne ' ' (by decide)
      simp only [isSpace, Bool.or_eq_false_iff, beq_eq_false_iff_ne, Bool.and_eq_false_iff,
        decide_eq_false_iff_not]
      exact ⟨hspace, .inr (by omega)⟩
    · simp only [isPunctuation, Bool.or_eq_false_iff, beq_eq_false_iff_ne]
      exact ⟨⟨⟨⟨⟨⟨⟨hne _ (by decide), hne _ (by decide)⟩, hne _ (by decide)⟩, hne _ (by decide)⟩,
        hne _ (by decide)⟩, hne _ (by decide)⟩, hne _ (by decide)⟩, hne _ (by decide)⟩

/-- A character that ends an identifier. -/
def afterIdent (c : Char) : Bool :=
  !isIdentChar c && c != '\\'

theorem lexes_escapeIdent {name : String} (h : name ≠ "") :
    Lexes afterIdent (escapeIdent name).toList [escapeIdent name] := by
  have hne : name.toList ≠ [] := by simpa using h
  rcases startsIdent_escape hne with ⟨d, ds, hescape, hstarts⟩
  have htext : (escapeIdent name).toList = d :: ds := by simp [escapeIdent, hescape]
  have hname : escapeIdent name = String.ofList (d :: ds) := by simp [escapeIdent, hescape]
  have hblank := blank_of_startsIdent hstarts
  rw [htext, hname]
  refine lexes_of_scanToken hblank.1 hblank.2.1 fun rest hrest => ?_
  have hends : EndsIdent rest := by
    intro c hc
    have hafter := hrest c hc
    simpa [afterIdent] using hafter
  have hsplit := splitIdent_escape hne hends
  rw [hescape] at hsplit
  have hcons : startsIdent (d :: (ds ++ rest)) := hstarts
  rw [List.cons_append] at hsplit ⊢
  simp [scanToken, hblank.2.2, hcons, hsplit]

/-- A word is an identifier without escapes. -/
theorem lexes_word {word : String} (h : word ≠ "") (hplain : escapeIdent word = word) :
    Lexes afterIdent word.toList [word] := by
  have hlexes := lexes_escapeIdent h
  rwa [hplain] at hlexes

theorem lexes_quote (s : String) : Lexes anyChar (quote s).toList [quote s] := by
  have htext : (quote s).toList = '"' :: (s.toList.flatMap quoteChar ++ ['"']) := by simp [quote]
  have hname : quote s = String.ofList ('"' :: (s.toList.flatMap quoteChar ++ ['"'])) := by
    simp [quote]
  have hsplit := splitQuoted_quote s
  rw [htext] at hsplit ⊢
  rw [hname]
  generalize s.toList.flatMap quoteChar ++ ['"'] = body at hsplit
  refine lexes_of_scanToken (by decide) (by decide) fun rest _ => ?_
  have hpunctuation : isPunctuation '"' = false := by decide
  have hident : ∀ cs, startsIdent ('"' :: cs) = false := by
    intro cs
    rfl
  have hquote : isQuote '"' := by decide
  have hrest := hsplit rest
  rw [List.cons_append] at hrest ⊢
  simp [scanToken, hpunctuation, hident, hquote, hrest, Except.mapError]

/-- A character that may follow a number or a duration. -/
def afterNumber (c : Char) : Bool :=
  gaps.contains c

/-- No gap starts with a number or a duration. -/
theorem blank_of_startsNumeral {c : Char} (h : startsNumeral c) : isSpace c = false ∧ c ≠ '#' := by
  simp only [startsNumeral, Bool.or_eq_true, beq_iff_eq] at h
  rcases h with hdigit | rfl
  · have hrange := isDigit_iff.1 hdigit
    constructor
    · simp only [isSpace, Bool.or_eq_false_iff, beq_eq_false_iff_ne, Bool.and_eq_false_iff,
        decide_eq_false_iff_not]
      refine ⟨?_, .inr (by omega)⟩
      rintro rfl
      exact absurd hdigit (by decide)
    · rintro rfl
      exact absurd hdigit (by decide)
  · decide

/-- A number or a duration that is a token by itself is one before a gap. -/
theorem lexes_number {t : String} (ht : IsNumeral t) : Lexes afterNumber t.toList [t] := by
  rcases ht with ⟨⟨c, cs, htext, hnumeral⟩, h⟩
  have hname : t = String.ofList (c :: cs) := by rw [← htext, String.ofList_toList]
  have hblank := blank_of_startsNumeral hnumeral
  rw [htext] at h ⊢
  rw [hname]
  refine lexes_of_scanToken hblank.1 hblank.2 fun rest hrest => ?_
  refine scanToken_append hnumeral ?_ h
  intro d hd
  simpa [afterNumber] using hrest d hd

/-- A character that may follow a sign. -/
def afterSign (c : Char) : Bool :=
  c != '=' && c != '~'

theorem splitSign_append {sign : List Char} (h : sign ∈ operatorSigns) {rest : List Char}
    (hrest : ∀ c ∈ rest.head?, afterSign c) : splitSign (sign ++ rest) = some (sign, rest) := by
  have hnext : ∀ cs d ds, rest = d :: ds → ('=' :: cs).isPrefixOf (d :: ds) = false ∧
      ('~' :: cs).isPrefixOf (d :: ds) = false := by
    intro cs d ds heq
    have hd := hrest d (by rw [heq]; rfl)
    simp only [afterSign, Bool.and_eq_true, bne_iff_ne, ne_eq] at hd
    have hequal : ('=' == d) = false := by simpa using fun heq => hd.1 heq.symm
    have htilde : ('~' == d) = false := by simpa using fun heq => hd.2 heq.symm
    simp [List.isPrefixOf, hequal, htilde]
  simp only [operatorSigns, List.mem_cons, List.not_mem_nil, or_false] at h
  -- No longer sign starts with this one and goes on with what follows.
  rcases h with rfl | rfl | rfl | rfl | rfl | rfl | rfl | rfl | rfl | rfl | rfl | rfl | rfl | rfl |
    rfl
  all_goals
    cases rest with
    | nil => decide
    | cons d ds =>
        have hd := hnext [] d ds rfl
        simp only [List.isPrefixOf, Bool.and_true] at hd
        simp [splitSign, operatorSigns, List.isPrefixOf, hd]

theorem lexes_sign {sign : List Char} (h : sign ∈ operatorSigns) :
    Lexes afterSign sign [String.ofList sign] := by
  have hall : ∀ sign ∈ operatorSigns, sign ≠ [] ∧ ∀ c ∈ sign.head?, isSpace c = false ∧ c ≠ '#' ∧
      isPunctuation c = false ∧ isIdentStart c = false ∧ c ≠ '\\' ∧ isQuote c = false := by
    decide
  have hparts := hall sign h
  cases sign with
  | nil => exact absurd rfl hparts.1
  | cons c cs =>
      rcases hparts.2 c rfl with ⟨hspace, hcomment, hpunctuation, hletter, hslash, hquote⟩
      refine lexes_of_scanToken hspace hcomment fun rest hrest => ?_
      have hsplit := splitSign_append h hrest
      rw [List.cons_append] at hsplit ⊢
      simp [scanToken, hpunctuation, startsIdent, hletter, hslash, hquote, splitSignOrNumber, hsplit]

end SeriesQuery
