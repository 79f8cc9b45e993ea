import SeriesQuery.Proofs.Outcomes
import SeriesQuery.Proofs.Reading
import SeriesQuery.Proofs.Rescanning

/-!
# Legible tokens

The tokens of a query that start an identifier hold no characters from `U+F0000` upwards: such a
character stands in none of them, also behind a backslash, and escapes with a number reach lower
ones only.  So the names that are read from them are legible (`isLegible_unescapeIdent`).
-/

namespace SeriesQuery

open Text

/-! ## Characters of identifiers -/

theorem toNat_lt_of_isHexDigit {c : Char} (h : isHexDigit c) : c.toNat < 0xF0000 :=
  toNat_lt_of_isIdentChar (isIdentChar_of_isHexDigit h)

/-- No character of an escape is one from the last planes. -/
theorem toNat_lt_of_escapeLength {cs : List Char} {n : Nat} (h : escapeLength cs = some n) :
    ∀ c ∈ cs.take n, c.toNat < 0xF0000 := by
  rcases escapeLength_cases h with ⟨mark, width, rest, rfl, rfl, hmark, -, -, hall⟩ |
    ⟨c, rest, rfl, rfl, hprint, -⟩
  · exact List.forall_mem_cons.2 ⟨toNat_lt_of_isIdentStart hmark,
      fun d hd => toNat_lt_of_isHexDigit (List.all_eq_true.1 hall d hd)⟩
  · simpa using toNat_lt_of_isPrintable hprint

theorem toNat_lt_of_splitIdentFrom (started : Bool) (owed : Nat) (cs : List Char)
    (howed : ∀ c ∈ cs.take owed, c.toNat < 0xF0000) :
    ∀ c ∈ (splitIdentFrom started owed cs).1, c.toNat < 0xF0000 := by
  -- The characters that an escape still takes are known to be low already.
  induction started, owed, cs using splitIdentFrom.induct with
  | case1 started owed => cases owed <;> simp [splitIdentFrom]
  | case2 started owed c rest taken left hsplit ih =>
      have hparts := List.forall_mem_cons.1 howed
      have htaken := ih hparts.2
      simp only [splitIdentFrom]
      exact List.forall_mem_cons.2 ⟨hparts.1, htaken⟩
  | case3 started c rest hchar taken left hsplit ih =>
      have htaken := ih (by simp)
      have hc : c.toNat < 0xF0000 := by
        split at hchar
        · exact toNat_lt_of_isIdentChar hchar
        · exact toNat_lt_of_isIdentStart hchar
      simp only [splitIdentFrom, hchar, if_true]
      exact List.forall_mem_cons.2 ⟨hc, htaken⟩
  | case4 started c rest hchar hslash n hescape taken left hsplit ih =>
      have htaken := ih (toNat_lt_of_escapeLength hescape)
      have hc : c.toNat < 0xF0000 := by
        rw [beq_iff_eq.1 hslash]
        decide
      simp only [splitIdentFrom, hchar, hslash, hescape, if_true, Bool.false_eq_true, if_false]
      exact List.forall_mem_cons.2 ⟨hc, htaken⟩
  | case5 started c rest hchar hslash hescape =>
      simp [splitIdentFrom, hchar, hslash, hescape]
  | case6 started c rest hchar hslash =>
      simp [splitIdentFrom, hchar, hslash]

/-! ## Names behind identifiers -/

theorem toNat_ofNat_le (n : Nat) : (Char.ofNat n).toNat ≤ n := by
  by_cases h : n.isValidChar
  · rw [Char.ofNat, dif_pos h]
    exact Nat.le_refl n
  · rw [Char.ofNat, dif_neg h]
    exact Nat.zero_le n

/-- Escapes stand for characters below `U+10000`, and what is no escape is kept. -/
theorem toNat_lt_of_unescape {cs : List Char} (h : ∀ c ∈ cs, c.toNat < 0xF0000) :
    ∀ c ∈ unescape cs, c.toNat < 0xF0000 := by
  have hbackslash : '\\'.toNat < 0xF0000 := by decide
  -- A backslash that starts no escape is kept with the character behind it.
  have hkept : ∀ {c d : Char} {rest : List Char}, (∀ e ∈ c :: d :: rest, e.toNat < 0xF0000) →
      ((∀ e ∈ rest, e.toNat < 0xF0000) → ∀ e ∈ unescape rest, e.toNat < 0xF0000) →
        ∀ e ∈ '\\' :: d :: unescape rest, e.toNat < 0xF0000 := by
    intro c d rest hall ih
    have hparts := List.forall_mem_cons.1 (List.forall_mem_cons.1 hall).2
    exact List.forall_mem_cons.2 ⟨hbackslash, List.forall_mem_cons.2 ⟨hparts.1, ih hparts.2⟩⟩
  fun_induction unescape cs with
  | case1 => exact h
  | case2 c rest _ ih =>
      have hparts := List.forall_mem_cons.1 h
      exact List.forall_mem_cons.2 ⟨hparts.1, ih hparts.2⟩
  | case3 => simp
  | case4 c _ d _ a b after n hread ih =>
      have hn : n < 16 ^ 2 := readNat_lt hread
      have hle := toNat_ofNat_le n
      refine List.forall_mem_cons.2 ⟨by omega, ih fun e he => h e ?_⟩
      simp [he]
  | case5 c _ d _ a b after _ ih => exact hkept h ih
  | case6 c _ d _ short _ ih => exact hkept h ih
  | case7 c _ d _ _ a b e f after ch hread ih =>
      rcases Option.bind_eq_some_iff.1 hread with ⟨n, hn, hch⟩
      -- Four digits reach `U+FFFF` at most.
      have hlt : n < 16 ^ 4 := readNat_lt hn
      have hle := toNat_ofNat_le n
      have hchar : Char.ofNat n = ch := by
        unfold charOfNat? at hch
        split at hch
        · exact Option.some.inj hch
        · cases hch
      subst hchar
      refine List.forall_mem_cons.2 ⟨by omega, ih fun e he => h e ?_⟩
      simp [he]
  | case8 c _ d _ _ a b e f after _ ih => exact hkept h ih
  | case9 c _ d _ _ short _ ih => exact hkept h ih
  | case10 c _ d tail _ _ ih =>
      have hparts := List.forall_mem_cons.1 (List.forall_mem_cons.1 h).2
      exact List.forall_mem_cons.2 ⟨hparts.1, ih hparts.2⟩

theorem unescape_ne_nil {cs : List Char} (h : cs ≠ []) : unescape cs ≠ [] := by
  fun_induction unescape cs <;> first | exact absurd rfl h | simp

/-! ## Tokens -/

/-- If the token starts an identifier, then it holds no characters from the last planes, and if it
starts like a number, then it is one, or a duration. -/
structure IsLegibleToken (t : String) : Prop where
  ident : startsIdent t.toList → ∀ c ∈ t.toList, c.toNat < 0xF0000
  numeral : ∀ c ∈ t.toList.head?, startsNumeral c → IsNumeral t

theorem isLegibleToken_empty : IsLegibleToken "" :=
  ⟨fun hstart => absurd hstart (by decide), by simp⟩

/-- A name that is read from a legible token is legible. -/
theorem isLegible_unescapeIdent {t : String} (h : IsLegibleToken t) (hstart : startsIdent t.toList) :
    IsLegible (unescapeIdent t) := by
  refine ⟨?_, ?_⟩
  · have hne : t.toList ≠ [] := by
      intro hnil
      rw [hnil] at hstart
      cases hstart
    simpa [unescapeIdent] using unescape_ne_nil hne
  · simpa [unescapeIdent] using toNat_lt_of_unescape (h.ident hstart)

theorem isLegibleToken_of_scan {cs rest : List Char} {t : String} (h : scan cs = .token t rest) :
    IsLegibleToken t := by
  have htoken := scan_eq_token_iff.1 h
  have hconcat := scanToken_concat htoken
  -- The text starts as the token does, and so the token is split off by the same rule.
  rcases List.exists_cons_of_ne_nil (scanToken_ne_nil htoken) with ⟨c, cs', ht⟩
  rw [ht] at hconcat
  rw [← hconcat, List.cons_append] at htoken
  constructor
  · intro hstart
    rw [ht] at hstart
    have hfirst : startsIdent (c :: (cs' ++ rest)) := hstart
    have hplain := (blank_of_startsIdent hfirst).2.2
    simp only [scanToken, hplain, hfirst, Bool.false_eq_true, if_false, if_true] at htoken
    split at htoken
    · cases htoken
    · have hsplit := Except.ok.inj htoken
      have hlow := toNat_lt_of_splitIdentFrom false 0 (c :: (cs' ++ rest)) (by simp)
      rw [← splitIdent, hsplit] at hlow
      exact hlow
  · intro d hd hstart
    rw [ht] at hd
    cases hd
    rw [scanToken_of_startsNumeral hstart] at htoken
    simpa using isNumeral_of_split (splitSign_of_startsNumeral hstart _) htoken

/-- All tokens are legible. -/
def Feed.Legible (f : Feed) : Prop :=
  ∀ t ∈ f.tokens, IsLegibleToken t

theorem legible_lexemes (cs : List Char) :
    ∀ t ∈ (Lexeme.ofText cs).1.map Lexeme.text, IsLegibleToken t := by
  induction hlength : cs.length using Nat.strongRecOn generalizing cs with
  | ind length ih =>
      cases hscan : scan cs with
      | done => simp [Lexeme.ofText_of_done hscan]
      | failed cause rest => simp [Lexeme.ofText_of_failed hscan]
      | token t rest =>
          have hrest := ih rest.length (hlength ▸ length_lt_of_scan hscan) rest rfl
          rw [Lexeme.ofText_of_token hscan]
          exact List.forall_mem_cons.2 ⟨isLegibleToken_of_scan hscan, hrest⟩

theorem Feed.legible_ofText (query : String) : Gives Feed.Legible (Feed.ofText query) := by
  have hall := legible_lexemes query.toList
  unfold Feed.ofText
  split
  split
  · exact gives_error _
  · rename_i hfound _ _ _
    rw [hfound] at hall
    exact gives_ok hall

end SeriesQuery
