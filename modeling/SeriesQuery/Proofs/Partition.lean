import SeriesQuery.Proofs.Numerals

/-!
# Tokens are parts of the text

A scanner splits the text in two and drops nothing, and a token has one character at least
(`scanToken_concat`, `scanToken_ne_nil`).  So a step of scanning leaves less text than there was,
and the bound on the number of tokens in `Lexeme.ofText` is never met (`scanAll_of_lt`).
-/

namespace SeriesQuery

open Text

/-! ## Identifiers and quotes -/

theorem splitIdentFrom_concat (started : Bool) (owed : Nat) (cs : List Char) :
    (splitIdentFrom started owed cs).1 ++ (splitIdentFrom started owed cs).2 = cs := by
  induction started, owed, cs using splitIdentFrom.induct with
  | case1 started owed => cases owed <;> rfl
  | case2 started owed c rest taken left hsplit ih =>
      rw [hsplit] at ih
      simp [splitIdentFrom, hsplit, ih]
  | case3 started c rest hchar taken left hsplit ih =>
      rw [hsplit] at ih
      simp [splitIdentFrom, hchar, hsplit, ih]
  | case4 started c rest hchar hslash n hescape taken left hsplit ih =>
      rw [hsplit] at ih
      simp [splitIdentFrom, hchar, hslash, hescape, hsplit, ih]
  | case5 started c rest hchar hslash hescape =>
      simp [splitIdentFrom, hchar, hslash, hescape]
  | case6 started c rest hchar hslash =>
      simp [splitIdentFrom, hchar, hslash]

theorem splitIdent_concat (cs : List Char) : (splitIdent cs).1 ++ (splitIdent cs).2 = cs :=
  splitIdentFrom_concat false 0 cs

theorem splitBody_concat {q : Char} {escaped : Bool} {cs body left : List Char}
    (h : splitBody q escaped cs = some (body, left)) : body ++ left = cs := by
  induction cs generalizing escaped body with
  | nil => cases h
  | cons c rest ih =>
      unfold splitBody at h
      split at h
      · cases h
        rfl
      · rcases Option.map_eq_some_iff.1 h with ⟨⟨more, after⟩, hmore, heq⟩
        cases heq
        rw [List.cons_append, ih hmore]

theorem splitQuoted_concat {cs t left : List Char} (h : splitQuoted cs = .ok (t, left)) :
    t ++ left = cs ∧ t ≠ [] := by
  unfold splitQuoted at h
  split at h
  · cases h
  · cases h
  · split at h
    · rename_i hbody
      cases h
      exact ⟨by rw [List.cons_append, splitBody_concat hbody], by simp⟩
    · cases h

/-! ## Signs -/

theorem splitSign_concat {cs sign left : List Char} (h : splitSign cs = some (sign, left)) :
    sign ++ left = cs ∧ sign ≠ [] := by
  have hsigns : ∀ sign ∈ operatorSigns, sign ≠ [] := by decide
  rcases Option.map_eq_some_iff.1 h with ⟨found, hfound, heq⟩
  cases heq
  have hstart : sign <+: cs := by
    simpa using List.find?_some hfound
  have hsplit := List.prefix_iff_eq_append.1 hstart
  exact ⟨hsplit, hsigns sign (List.mem_of_find?_eq_some hfound)⟩

/-! ## Numbers -/

section Numbers

variable {whole taken rest t left : List Char}

/-- The splitters of numbers go on from what has been taken. -/
def GoesOn (taken rest t left : List Char) : Prop :=
  t ++ left = taken ++ rest ∧ taken <+: t

theorem exponentSign_concat (cs : List Char) :
    (exponentSign cs).1 ++ (exponentSign cs).2 = cs := by
  unfold exponentSign
  split <;> rfl

theorem splitExponent_goesOn (h : splitExponent whole taken rest = .ok (t, left)) :
    GoesOn taken rest t left := by
  have hsign := exponentSign_concat rest
  have hdigits := splitDigits_concat (exponentSign rest).2
  rw [splitExponent_eq] at h
  split at h
  · cases h
  · cases h
    constructor
    · rw [List.append_assoc, hdigits, List.append_assoc, hsign]
    · rw [List.append_assoc]
      exact List.prefix_append _ _

theorem splitSuffix_goesOn (h : splitSuffix whole taken rest = .ok (t, left)) :
    GoesOn taken rest t left := by
  unfold splitSuffix at h
  dsimp only at h
  split at h
  · cases h
    exact ⟨by simp, List.prefix_append _ _⟩
  · split at h
    · split at h
      · rcases splitExponent_goesOn h with ⟨hconcat, hstart⟩
        exact ⟨by simpa using hconcat, (List.prefix_append _ _).trans hstart⟩
      · cases h
        exact ⟨rfl, List.prefix_rfl⟩
    · cases h
      exact ⟨rfl, List.prefix_rfl⟩

theorem splitFraction_goesOn (h : splitFraction whole taken rest = .ok (t, left)) :
    GoesOn taken rest t left ∧ (rest.head? = some '.' → t ≠ []) := by
  unfold splitFraction at h
  split at h
  · rcases splitSuffix_goesOn h with ⟨hconcat, hstart⟩
    refine ⟨⟨?_, (List.prefix_append _ _).trans hstart⟩, fun _ hnil => ?_⟩
    · simpa [List.takeWhile_append_dropWhile] using hconcat
    · simp [hnil] at hstart
  · rename_i hpoint
    refine ⟨splitSuffix_goesOn h, fun hhead => ?_⟩
    cases rest with
    | nil => cases hhead
    | cons c cs =>
        cases hhead
        exact absurd rfl (hpoint cs)

end Numbers

theorem splitNumber_concat {cs t left : List Char} (h : splitNumber cs = .ok (t, left)) :
    t ++ left = cs ∧ t ≠ [] := by
  unfold splitNumber at h
  dsimp only at h
  generalize ((Base.ofStart cs).map Base.markLength).getD 0 = mark at h
  split at h
  · split at h
    · cases h
    · rename_i hdigits
      cases h
      constructor
      · rw [List.append_assoc, List.takeWhile_append_dropWhile, List.take_append_drop]
      · intro hnil
        exact hdigits (by simp [(List.append_eq_nil_iff.1 hnil).2])
  · split at h
    · cases h
    · rename_i hdigits
      rcases splitFraction_goesOn h with ⟨⟨hconcat, hstart⟩, hpoint⟩
      constructor
      · rw [hconcat, List.append_assoc, List.takeWhile_append_dropWhile, List.take_append_drop]
      · -- There is a digit, or else the point.
        intro hnil
        rw [hnil, List.prefix_nil, List.append_eq_nil_iff] at hstart
        rw [hstart.2] at hdigits
        exact hpoint (by simpa using hdigits) hnil

theorem splitDuration_ne_nil {cs t left : List Char} (h : splitDuration cs = some (t, left)) :
    t ≠ [] := by
  unfold splitDuration at h
  rcases Option.map_eq_some_iff.1 h with ⟨⟨part, rest⟩, hpart, heq⟩
  have hlt := length_lt_of_splitPart hpart
  have hconcat := splitPart_concat hpart
  cases heq
  intro hnil
  rw [(List.append_eq_nil_iff.1 hnil).1] at hconcat
  rw [← hconcat] at hlt
  simp at hlt

/-! ## One token -/

theorem splitSignOrNumber_concat {cs t left : List Char}
    (h : splitSignOrNumber cs = .ok (t, left)) : t ++ left = cs ∧ t ≠ [] := by
  unfold splitSignOrNumber at h
  split at h
  · rename_i hsign
    cases h
    exact splitSign_concat hsign
  · split at h
    · rename_i hduration
      cases h
      exact ⟨splitDuration_concat hduration, splitDuration_ne_nil hduration⟩
    · split at h
      · cases hnumber : splitNumber cs with
        | error cause => simp [hnumber, Except.mapError] at h
        | ok found =>
            rw [hnumber] at h
            cases h
            exact splitNumber_concat hnumber
      · cases h

/-- What a token is split off as depends on its first character. -/
theorem scanToken_cases {cs t left : List Char} (h : scanToken cs = .ok (t, left)) :
    ∃ c rest, cs = c :: rest ∧
      (isPunctuation c ∧ t = [c] ∧ left = rest ∨
        isPunctuation c = false ∧ startsIdent cs ∧ t ≠ [] ∧ splitIdent cs = (t, left) ∨
        isPunctuation c = false ∧ startsIdent cs = false ∧ isQuote c ∧
          splitQuoted cs = .ok (t, left) ∨
        splitSignOrNumber cs = .ok (t, left)) := by
  unfold scanToken at h
  split at h
  · cases h
  · rename_i c rest
    refine ⟨c, rest, rfl, ?_⟩
    -- The classes are tried in this order, so each one excludes those before it.
    split at h
    · rename_i hpunctuation
      cases h
      exact .inl ⟨hpunctuation, rfl, rfl⟩
    · rename_i hpunctuation
      rw [Bool.not_eq_true] at hpunctuation
      split at h
      · rename_i hident
        split at h
        · cases h
        · rename_i hsome
          rw [Except.ok.inj h] at hsome
          exact .inr (.inl ⟨hpunctuation, hident, by simpa using hsome, Except.ok.inj h⟩)
      · rename_i hident
        rw [Bool.not_eq_true] at hident
        split at h
        · rename_i hquote
          cases hquoted : splitQuoted (c :: rest) with
          | error cause => simp [hquoted, Except.mapError] at h
          | ok found =>
              rw [hquoted] at h
              cases h
              exact .inr (.inr (.inl ⟨hpunctuation, hident, hquote, rfl⟩))
        · exact .inr (.inr (.inr h))

theorem scanToken_split {cs t left : List Char} (h : scanToken cs = .ok (t, left)) :
    t ++ left = cs ∧ t ≠ [] := by
  rcases scanToken_cases h with ⟨c, rest, rfl, hcases⟩
  rcases hcases with ⟨_, rfl, rfl⟩ | ⟨_, _, hne, hident⟩ | ⟨_, _, _, hquoted⟩ | hother
  · exact ⟨rfl, by simp⟩
  · have hconcat := splitIdent_concat (c :: rest)
    rw [hident] at hconcat
    exact ⟨hconcat, hne⟩
  · exact splitQuoted_concat hquoted
  · exact splitSignOrNumber_concat hother

/-- A token and what follows it are the text. -/
theorem scanToken_concat {cs t left : List Char} (h : scanToken cs = .ok (t, left)) :
    t ++ left = cs :=
  (scanToken_split h).1

/-- A token has one character at least. -/
theorem scanToken_ne_nil {cs t left : List Char} (h : scanToken cs = .ok (t, left)) : t ≠ [] :=
  (scanToken_split h).2

/-! ## Steps of scanning -/

theorem skipGapFrom_suffix (inComment : Bool) (cs : List Char) :
    skipGapFrom inComment cs <:+ cs := by
  induction cs generalizing inComment with
  | nil => exact List.suffix_rfl
  | cons c rest ih =>
      unfold skipGapFrom
      split
      · exact (ih _).trans (List.suffix_cons c rest)
      · split
        · exact (ih _).trans (List.suffix_cons c rest)
        · split
          · exact (ih _).trans (List.suffix_cons c rest)
          · exact List.suffix_rfl

/-- A token that is scanned stands behind the gap. -/
theorem scan_eq_token_iff {cs rest : List Char} {t : String} :
    scan cs = .token t rest ↔ scanToken (skipGap cs) = .ok (t.toList, rest) := by
  unfold scan
  split
  · rename_i hgap
    rw [hgap]
    constructor <;> intro h <;> cases h
  · cases hscan : scanToken (skipGap cs) with
    | error cause => simp
    | ok found =>
        rcases found with ⟨token, left⟩
        simp only [Scan.token.injEq, Except.ok.injEq, Prod.mk.injEq, and_congr_left_iff]
        intro _
        exact ⟨fun h => by rw [← h, String.toList_ofList], fun h => by rw [h, String.ofList_toList]⟩

/-- A step of scanning leaves less text. -/
theorem length_lt_of_scan {cs rest : List Char} {t : String} (h : scan cs = .token t rest) :
    rest.length < cs.length := by
  have htoken := scan_eq_token_iff.1 h
  have hconcat := congrArg List.length (scanToken_concat htoken)
  have hne := List.length_pos_iff.2 (scanToken_ne_nil htoken)
  have hgap := (skipGapFrom_suffix false cs).length_le
  rw [List.length_append] at hconcat
  have hskip : (skipGap cs).length ≤ cs.length := hgap
  omega

/-- No token is empty. -/
theorem ne_empty_of_scan {cs rest : List Char} {t : String} (h : scan cs = .token t rest) :
    t ≠ "" := by
  rintro rfl
  exact scanToken_ne_nil (scan_eq_token_iff.1 h) rfl

/-! ## All tokens -/

namespace Lexeme

/-- More fuel than there are characters makes no difference. -/
theorem scanAll_of_lt {cs : List Char} {fuel : Nat} (h : cs.length < fuel) :
    scanAll fuel cs = ofText cs := by
  have hall : ∀ {m n : Nat} {cs : List Char}, cs.length < m → cs.length < n →
      scanAll m cs = scanAll n cs := by
    intro m
    induction m with
    | zero => intro n cs hm; omega
    | succ m ih =>
        intro n cs hm hn
        cases n with
        | zero => omega
        | succ n =>
            unfold scanAll
            split
            · rfl
            · rfl
            · rename_i hscan
              have hlt := length_lt_of_scan hscan
              rw [ih (by omega) (show _ < n by omega)]
  exact hall h (Nat.lt_succ_self _)

theorem ofText_of_done {cs : List Char} (h : scan cs = .done) : ofText cs = ([], none) := by
  simp [ofText, scanAll, h]

theorem ofText_of_failed {cs rest : List Char} {cause : ScanError}
    (h : scan cs = .failed cause rest) : ofText cs = ([], some cause) := by
  simp [ofText, scanAll, h]

theorem ofText_of_token {cs rest : List Char} {t : String} (h : scan cs = .token t rest) :
    ofText cs = (⟨t, rest⟩ :: (ofText rest).1, (ofText rest).2) := by
  have hlt := length_lt_of_scan h
  rw [← scanAll_of_lt hlt]
  simp [ofText, scanAll, h]

end Lexeme

end SeriesQuery
