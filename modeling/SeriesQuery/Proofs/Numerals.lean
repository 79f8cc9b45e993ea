import Mathlib.Data.List.TakeWhile
import SeriesQuery.Proofs.Escapes
import SeriesQuery.Token.Basic

/-!
# Numbers and durations within a text

A scanner of numbers or durations looks no further than the characters that may belong to one.  So
it finds the same at the start of a text whatever follows, as long as that starts with a gap: one of
the characters that stand in no number.
-/

namespace SeriesQuery

open Text

/-! ## Gaps -/

/-- Characters that may follow a number or a duration, and belong to none. -/
def gaps : List Char :=
  [' ', '\n', ':', '{', '}', '[', ']', '(', ')', ',', '@']

/-- The text is empty or starts with a gap. -/
def AtGap (cs : List Char) : Prop :=
  ∀ c ∈ cs.head?, c ∈ gaps

/-- A property that no gap has does not hold of the first character. -/
theorem AtGap.head {cs : List Char} (h : AtGap cs) {p : Char → Bool}
    (hp : ∀ c ∈ gaps, p c = false) : ∀ c ∈ cs.head?, p c = false :=
  fun c hc => hp c (h c hc)

theorem takeWhile_append_of_head {p : Char → Bool} {rest : List Char}
    (h : ∀ c ∈ rest.head?, p c = false) (cs : List Char) :
    (cs ++ rest).takeWhile p = cs.takeWhile p := by
  induction cs with
  | nil =>
      cases rest with
      | nil => rfl
      | cons c rest => simp [h c rfl]
  | cons c cs ih => simp only [List.cons_append, List.takeWhile_cons, ih]

theorem dropWhile_append_of_head {p : Char → Bool} {rest : List Char}
    (h : ∀ c ∈ rest.head?, p c = false) (cs : List Char) :
    (cs ++ rest).dropWhile p = cs.dropWhile p ++ rest := by
  induction cs with
  | nil =>
      cases rest with
      | nil => rfl
      | cons c rest => simp [h c rfl]
  | cons c cs ih =>
      simp only [List.cons_append, List.dropWhile_cons, ih]
      split <;> rfl

/-- The sign of an exponent, and what follows it. -/
def exponentSign : List Char → List Char × List Char
  | '-' :: r => (['-'], r)
  | '+' :: r => (['+'], r)
  | r => ([], r)

/-- The minus before a part, where there may be one. -/
def partSign (signed : Bool) (cs : List Char) : List Char × List Char :=
  match signed, cs with
  | true, '-' :: r => (['-'], r)
  | _, r => ([], r)

/-- What a part has behind the digits before a point. -/
def partFraction (cs sign whole : List Char) : List Char → List Char × List Char
  | '.' :: afterPoint =>
      if sign.isEmpty && whole.isEmpty then ([], cs)
      else (sign ++ whole ++ '.' :: afterPoint.takeWhile isDigit, afterPoint.dropWhile isDigit)
  | after => (sign ++ whole, after)

theorem splitPartNumber_eq (signed : Bool) (cs : List Char) :
    splitPartNumber signed cs =
      partFraction cs (partSign signed cs).1 (splitDigits (partSign signed cs).2).1
        (splitDigits (partSign signed cs).2).2 := by
  unfold splitPartNumber
  split
  rename_i sign r heq
  have hsign : partSign signed cs = (sign, r) := heq
  rw [hsign]
  dsimp only
  cases (splitDigits r).2 with
  | nil => rfl
  | cons c after => by_cases hc : c = '.' <;> simp [partFraction, hc]

section

variable {rest : List Char} (hrest : AtGap rest)
include hrest

/-! ## Durations -/

theorem splitDigits_append (cs : List Char) :
    splitDigits (cs ++ rest) = ((splitDigits cs).1, (splitDigits cs).2 ++ rest) := by
  have hhead := hrest.head (p := isDigit) (by decide)
  simp [splitDigits, takeWhile_append_of_head hhead, dropWhile_append_of_head hhead]

theorem head_ne_of_atGap {d : Char} (hd : d ∉ gaps) (cs : List Char) : rest ≠ d :: cs := by
  intro heq
  exact hd (hrest d (by simp [heq]))

theorem partFraction_append (cs sign whole after : List Char) :
    partFraction (cs ++ rest) sign whole (after ++ rest) =
      ((partFraction cs sign whole after).1, (partFraction cs sign whole after).2 ++ rest) := by
  have hhead := hrest.head (p := isDigit) (by decide)
  cases after with
  | nil =>
      have hpoint := head_ne_of_atGap hrest (d := '.') (by decide)
      unfold partFraction
      split
      · rename_i afterPoint heq
        exact absurd heq (hpoint afterPoint)
      · rfl
  | cons c after =>
      by_cases hc : c = '.'
      · subst hc
        simp only [partFraction, List.cons_append, takeWhile_append_of_head hhead,
          dropWhile_append_of_head hhead]
        split <;> rfl
      · simp [partFraction, hc]

theorem partSign_append (signed : Bool) (cs : List Char) :
    partSign signed (cs ++ rest) =
      ((partSign signed cs).1, (partSign signed cs).2 ++ rest) := by
  cases signed with
  | false => rfl
  | true =>
      cases cs with
      | nil =>
          cases rest with
          | nil => rfl
          | cons d rest =>
              have hd : d ≠ '-' := by
                intro heq
                exact head_ne_of_atGap hrest (d := '-') (by decide) rest (by rw [heq])
              simp [partSign, hd]
      | cons c cs =>
          by_cases hc : c = '-'
          · simp [partSign, hc]
          · simp [partSign, hc]

theorem splitPartNumber_append (signed : Bool) (cs : List Char) :
    splitPartNumber signed (cs ++ rest) =
      ((splitPartNumber signed cs).1, (splitPartNumber signed cs).2 ++ rest) := by
  simp only [splitPartNumber_eq, partSign_append hrest, splitDigits_append hrest,
    partFraction_append hrest]

omit hrest in
theorem ofLetter_of_mem_gaps : ∀ c ∈ gaps, TimeUnit.ofLetter c = none := by
  decide

theorem ofStart_append (cs : List Char) :
    TimeUnit.ofStart (cs ++ rest) = TimeUnit.ofStart cs := by
  have hgap : ∀ c ∈ rest.head?, c ∈ gaps := hrest
  rcases cs with _ | ⟨c, _ | ⟨d, cs⟩⟩
  · cases rest with
    | nil => rfl
    | cons d rest =>
        have hd := hgap d rfl
        have hm : ∀ d ∈ gaps, (d.toLower == 'm') = false := by decide
        simp [TimeUnit.ofStart, hm d hd, ofLetter_of_mem_gaps d hd]
  · cases rest with
    | nil => rfl
    | cons d rest =>
        have hd := hgap d rfl
        have hs : ∀ d ∈ gaps, (d.toLower == 's') = false := by decide
        have hib : ∀ d ∈ gaps, (d.toLower == 'i' || d.toLower == 'b') = false := by decide
        simp only [TimeUnit.ofStart, List.singleton_append, hs d hd, hib d hd]
        split <;> rfl
  · rfl

omit hrest in
/-- A unit is not longer than the text that it is found at. -/
theorem length_of_ofStart {cs : List Char} {unit : TimeUnit} {n : Nat}
    (h : TimeUnit.ofStart cs = some (unit, n)) : 0 < n ∧ n ≤ cs.length := by
  rcases cs with _ | ⟨c, _ | ⟨d, cs⟩⟩
  · cases h
  · simp only [TimeUnit.ofStart] at h
    split at h <;> rcases Option.map_eq_some_iff.1 h with ⟨_, _, heq⟩ <;> cases heq <;> simp
  · simp only [TimeUnit.ofStart] at h
    split at h
    · split at h
      · cases h
        simp
      · split at h
        · cases h
        · rcases Option.map_eq_some_iff.1 h with ⟨_, _, heq⟩
          cases heq
          simp
    · rcases Option.map_eq_some_iff.1 h with ⟨_, _, heq⟩
      cases heq
      simp

theorem splitPart_append (signed : Bool) (cs : List Char) :
    splitPart signed (cs ++ rest) =
      (splitPart signed cs).map fun found => (found.1, found.2 ++ rest) := by
  unfold splitPart
  rw [splitPartNumber_append hrest]
  rcases splitPartNumber signed cs with ⟨number, after⟩
  dsimp only
  split
  · rfl
  · rw [ofStart_append hrest, Option.map_map]
    cases hunit : TimeUnit.ofStart after with
    | none => rfl
    | some found =>
        rcases found with ⟨unit, n⟩
        have hn := length_of_ofStart hunit
        simp [List.take_append_of_le_length hn.2, List.drop_append_of_le_length hn.2]

omit hrest in
theorem length_partFraction_le (cs sign whole after : List Char) (h : after.length ≤ cs.length) :
    (partFraction cs sign whole after).2.length ≤ cs.length := by
  unfold partFraction
  split
  · rename_i afterPoint
    split
    · exact Nat.le_refl _
    · have hdrop := (List.dropWhile_sublist isDigit (l := afterPoint)).length_le
      simp only [List.length_cons] at h
      dsimp only
      omega
  · exact h

omit hrest in
theorem length_splitPartNumber_le (signed : Bool) (cs : List Char) :
    (splitPartNumber signed cs).2.length ≤ cs.length := by
  rw [splitPartNumber_eq]
  apply length_partFraction_le
  have hdrop : (splitDigits (partSign signed cs).2).2.length ≤ (partSign signed cs).2.length :=
    (List.dropWhile_sublist isDigit).length_le
  have hsign : (partSign signed cs).2.length ≤ cs.length := by
    unfold partSign
    split <;> simp
  exact Nat.le_trans hdrop hsign

omit hrest in
/-- A part takes a character at least. -/
theorem length_lt_of_splitPart {signed : Bool} {cs left : List Char} {part : DurationPart}
    (h : splitPart signed cs = some (part, left)) : left.length < cs.length := by
  have hnumber := length_splitPartNumber_le signed cs
  unfold splitPart at h
  rcases splitPartNumber signed cs with ⟨number, after⟩
  dsimp only at h hnumber
  split at h
  · cases h
  · rcases Option.map_eq_some_iff.1 h with ⟨⟨unit, n⟩, hunit, heq⟩
    have hn := length_of_ofStart hunit
    cases heq
    rw [List.length_drop]
    omega

/-- More fuel than there are characters makes no difference. -/
theorem splitParts_append {m n : Nat} {cs : List Char} (hm : cs.length ≤ m)
    (hn : (cs ++ rest).length ≤ n) :
    splitParts n (cs ++ rest) = ((splitParts m cs).1, (splitParts m cs).2 ++ rest) := by
  induction m generalizing n cs with
  | zero =>
      have hnil : cs = [] := List.eq_nil_of_length_eq_zero (by omega)
      subst hnil
      cases n with
      | zero => rfl
      | succ n =>
          have hnone : splitPart true ([] ++ rest) = none := by
            rw [splitPart_append hrest]
            rfl
          simp only [splitParts, hnone]
  | succ m ih =>
      cases n with
      | zero =>
          have hnil : cs ++ rest = [] := List.eq_nil_of_length_eq_zero (by omega)
          rcases List.append_eq_nil_iff.1 hnil with ⟨rfl, rfl⟩
          rfl
      | succ n =>
          simp only [splitParts, splitPart_append hrest]
          cases hpart : splitPart true cs with
          | none => rfl
          | some found =>
              rcases found with ⟨part, left⟩
              -- Each part takes a character at least, so the fuel of both sides lasts.
              have hlt := length_lt_of_splitPart hpart
              simp only [List.length_append] at hn
              have hleft := @ih n left (by omega) (by simp; omega)
              simp only [Option.map_some, hleft]

theorem splitDuration_append (cs : List Char) :
    splitDuration (cs ++ rest) =
      (splitDuration cs).map fun found => (found.1, found.2 ++ rest) := by
  unfold splitDuration
  rw [splitPart_append hrest, Option.map_map, Option.map_map]
  congr 1
  funext found
  rcases found with ⟨part, left⟩
  have hparts := splitParts_append hrest (Nat.le_refl left.length) (Nat.le_refl (left ++ rest).length)
  simp only [Function.comp_apply, hparts]

/-! ## Numbers -/

theorem baseOfStart_append {cs : List Char} (h : cs ≠ []) :
    Base.ofStart (cs ++ rest) = Base.ofStart cs := by
  rcases cs with _ | ⟨c, _ | ⟨d, cs⟩⟩
  · exact absurd rfl h
  · cases rest with
    | nil => rfl
    | cons d rest =>
        have hd : d ∈ gaps := hrest d rfl
        have hdigit : ∀ d ∈ gaps, isDigit d = false := by decide
        have hletter : ∀ d ∈ gaps,
            (d.toLower == 'x') = false ∧ (d.toLower == 'o') = false ∧ (d.toLower == 'b') = false := by
          decide
        by_cases hc : c = '0'
        · simp [Base.ofStart, hc, hdigit d hd, hletter d hd]
        · simp [Base.ofStart, hc]
  · by_cases hc : c = '0'
    · simp [Base.ofStart, hc]
    · simp [Base.ofStart, hc]

omit hrest in
theorem isMultiplierLetter_of_mem_gaps : ∀ c ∈ gaps, isMultiplierLetter c.toLower = false := by
  decide

omit hrest in
theorem multiplierLength_of_first {a : Char} (h : isMultiplierLetter a.toLower = false)
    (cs : List Char) : multiplierLength (a :: cs) = 0 := by
  have hfirst : ∀ b bs, ((a :: cs).take 3).map Char.toLower = b :: bs →
      isMultiplierLetter b = false := by
    intro b bs heq
    simp only [List.take_succ_cons, List.map_cons, List.cons.injEq] at heq
    rw [← heq.1, h]
  unfold multiplierLength
  split
  · rename_i heq
    simp [hfirst _ _ heq]
  · rename_i heq
    simp [hfirst _ _ heq]
  · rename_i heq
    simp [hfirst _ _ heq]
  · rename_i heq
    simp [hfirst _ _ heq]
  · rfl

theorem multiplierLength_append (cs : List Char) :
    multiplierLength (cs ++ rest) = multiplierLength cs := by
  have hib : ∀ d ∈ gaps, d.toLower ≠ 'i' ∧ d.toLower ≠ 'b' := by decide
  rcases cs with _ | ⟨c, _ | ⟨d, _ | ⟨e, cs⟩⟩⟩
  · rcases rest with _ | ⟨a, rest⟩
    · rfl
    · exact multiplierLength_of_first (isMultiplierLetter_of_mem_gaps a (hrest a rfl)) rest
  · rcases rest with _ | ⟨d, rest⟩
    · rfl
    · have hd := hib d (hrest d rfl)
      simp [multiplierLength, hd]
  · rcases rest with _ | ⟨e, rest⟩
    · rfl
    · have he := hib e (hrest e rfl)
      by_cases hi : d.toLower = 'i'
      · simp [multiplierLength, hi, he]
      · by_cases hb : d.toLower = 'b'
        · simp [multiplierLength, hb]
        · simp [multiplierLength, hi, hb]
  · rfl

omit hrest in
theorem multiplierLength_le (cs : List Char) : multiplierLength cs ≤ cs.length := by
  have hlength : ((cs.take 3).map Char.toLower).length ≤ cs.length := by
    simp only [List.length_map, List.length_take]
    omega
  unfold multiplierLength
  split
  -- The letters of a multiplier are letters of the text.
  case h_5 => exact Nat.zero_le _
  all_goals
    rename_i hletters
    rw [hletters] at hlength
    simp only [List.length_cons] at hlength
    split <;> omega

omit hrest in
theorem splitExponent_eq (whole taken cs : List Char) :
    splitExponent whole taken cs =
      if (splitDigits (exponentSign cs).2).1.isEmpty then
        .error (.missingExponent (String.ofList whole))
      else .ok (taken ++ (exponentSign cs).1 ++ (splitDigits (exponentSign cs).2).1,
        (splitDigits (exponentSign cs).2).2) := by
  unfold splitExponent
  split
  rename_i sign r heq
  have hsign : exponentSign cs = (sign, r) := heq
  rw [hsign]

theorem exponentSign_append (cs : List Char) :
    exponentSign (cs ++ rest) = ((exponentSign cs).1, (exponentSign cs).2 ++ rest) := by
  cases cs with
  | nil =>
      cases rest with
      | nil => rfl
      | cons d rest =>
          have hsigns : ∀ d ∈ gaps, d ≠ '-' ∧ d ≠ '+' := by decide
          have hd := hsigns d (hrest d rfl)
          simp [exponentSign, hd]
  | cons c cs =>
      by_cases hminus : c = '-'
      · simp [exponentSign, hminus]
      · by_cases hplus : c = '+'
        · simp [exponentSign, hplus]
        · simp [exponentSign, hminus, hplus]

theorem splitExponent_append (whole whole' taken cs : List Char) :
    (splitExponent whole' taken (cs ++ rest)).toOption =
      (splitExponent whole taken cs).toOption.map fun found => (found.1, found.2 ++ rest) := by
  rw [splitExponent_eq, splitExponent_eq, exponentSign_append hrest]
  dsimp only
  rw [splitDigits_append hrest]
  dsimp only
  split <;> rfl

theorem splitSuffix_append (whole whole' taken cs : List Char) :
    (splitSuffix whole' taken (cs ++ rest)).toOption =
      (splitSuffix whole taken cs).toOption.map fun found => (found.1, found.2 ++ rest) := by
  have hle := multiplierLength_le cs
  unfold splitSuffix
  rw [multiplierLength_append hrest]
  by_cases hn : 0 < multiplierLength cs
  · simp only [if_pos hn]
    rw [List.take_append_of_le_length hle, List.drop_append_of_le_length hle]
    rfl
  · simp only [if_neg hn]
    cases cs with
    | nil =>
        cases rest with
        | nil => rfl
        | cons c rest =>
            have hmark : ∀ c ∈ gaps, (c == 'e' || c == 'E') = false := by decide
            simp [hmark c (hrest c rfl), Except.toOption]
    | cons c cs =>
        simp only [List.cons_append]
        split
        · exact splitExponent_append hrest whole whole' (taken ++ [c]) cs
        · rfl

omit hrest in
theorem splitFraction_of_ne {cs : List Char} (h : ∀ r, cs ≠ '.' :: r) (whole taken : List Char) :
    splitFraction whole taken cs = splitSuffix whole taken cs := by
  unfold splitFraction
  split
  · rename_i after
    exact absurd rfl (h after)
  · rfl

theorem splitFraction_append (whole whole' taken cs : List Char) :
    (splitFraction whole' taken (cs ++ rest)).toOption =
      (splitFraction whole taken cs).toOption.map fun found => (found.1, found.2 ++ rest) := by
  have hhead := hrest.head (p := isDigitOrUnderscore) (by decide)
  by_cases hpoint : ∃ r, cs = '.' :: r
  · rcases hpoint with ⟨r, rfl⟩
    simp only [splitFraction, List.cons_append, takeWhile_append_of_head hhead,
      dropWhile_append_of_head hhead]
    exact splitSuffix_append hrest whole whole' _ _
  · have hcs : ∀ r, cs ≠ '.' :: r := fun r heq => hpoint ⟨r, heq⟩
    have happend : ∀ r, cs ++ rest ≠ '.' :: r := by
      intro r heq
      cases cs with
      | nil => exact head_ne_of_atGap hrest (d := '.') (by decide) r heq
      | cons c cs => exact hcs cs (by rw [(List.cons.inj heq).1])
    rw [splitFraction_of_ne hcs, splitFraction_of_ne happend]
    exact splitSuffix_append hrest whole whole' taken cs

omit hrest in
theorem markLength_le_length (cs : List Char) :
    ((Base.ofStart cs).map Base.markLength).getD 0 ≤ cs.length := by
  rcases cs with _ | ⟨c, _ | ⟨d, cs⟩⟩
  · simp [Base.ofStart]
  · simp [Base.ofStart]
  · cases Base.ofStart (c :: d :: cs) with
    | none => simp
    | some base => cases base <;> simp [Base.markLength]

/-- A number is found, or none, whatever follows the gap. -/
theorem splitNumber_append {cs : List Char} (hne : cs ≠ []) :
    (splitNumber (cs ++ rest)).toOption =
      (splitNumber cs).toOption.map fun found => (found.1, found.2 ++ rest) := by
  have hdigits := hrest.head (p := isDigitOrUnderscore) (by decide)
  have hhex := hrest.head (p := isHexDigit) (by decide)
  have hmark := markLength_le_length cs
  unfold splitNumber
  simp only [baseOfStart_append hrest hne, List.drop_append_of_le_length hmark,
    List.take_append_of_le_length hmark, takeWhile_append_of_head hdigits,
    dropWhile_append_of_head hdigits, takeWhile_append_of_head hhex, dropWhile_append_of_head hhex]
  generalize cs.drop (((Base.ofStart cs).map Base.markLength).getD 0) = body
  -- A gap is no point, so both sides see the same character behind the digits.
  have hpoint : ((body.dropWhile isDigitOrUnderscore ++ rest).head? != some '.') =
      ((body.dropWhile isDigitOrUnderscore).head? != some '.') := by
    cases hafter : body.dropWhile isDigitOrUnderscore with
    | nil =>
        cases rest with
        | nil => rfl
        | cons d rest =>
            have hgap : ∀ d ∈ gaps, d ≠ '.' := by decide
            have hd := hgap d (hrest d rfl)
            have hpoint : (some d == some '.') = false := by simpa using hd
            simp [bne, hpoint]
    | cons c after => rfl
  rw [hpoint]
  split
  · split <;> rfl
  · split
    · rfl
    · exact splitFraction_append hrest _ _ _ _

end

/-! ## Tokens -/

/-- A character that a number may start with. -/
def startsNumeral (c : Char) : Bool :=
  isDigit c || c == '.'

theorem splitSign_of_startsNumeral {c : Char} (h : startsNumeral c) (cs : List Char) :
    splitSign (c :: cs) = none := by
  have hsign : ∀ sign ∈ operatorSigns, sign ≠ [] ∧ ∀ d ∈ sign.head?, startsNumeral d = false := by
    decide
  have hnone : operatorSigns.find? (fun sign => sign.isPrefixOf (c :: cs)) = none := by
    rw [List.find?_eq_none]
    intro sign hmem hmatch
    have hparts := hsign sign hmem
    cases sign with
    | nil => exact hparts.1 rfl
    | cons d sign =>
        have hd := hparts.2 d rfl
        simp only [List.isPrefixOf, Bool.and_eq_true, beq_iff_eq] at hmatch
        rw [hmatch.1, h] at hd
        cases hd
  rw [splitSign, hnone]
  rfl

theorem scanToken_of_startsNumeral {c : Char} (h : startsNumeral c) (cs : List Char) :
    scanToken (c :: cs) = splitSignOrNumber (c :: cs) := by
  -- What starts a numeral starts no other token.
  have hne : ∀ d, startsNumeral d = false → (c == d) = false := by
    intro d hd
    rw [beq_eq_false_iff_ne]
    intro heq
    rw [heq, hd] at h
    cases h
  have hpunctuation : isPunctuation c = false := by
    simp only [isPunctuation, Bool.or_eq_false_iff]
    exact ⟨⟨⟨⟨⟨⟨⟨hne _ (by decide), hne _ (by decide)⟩, hne _ (by decide)⟩, hne _ (by decide)⟩,
      hne _ (by decide)⟩, hne _ (by decide)⟩, hne _ (by decide)⟩, hne _ (by decide)⟩
  have hquote : isQuote c = false := by
    simp only [isQuote, Bool.or_eq_false_iff]
    exact ⟨⟨hne _ (by decide), hne _ (by decide)⟩, hne _ (by decide)⟩
  have hletter : isIdentStart c = false := by
    simp only [startsNumeral, Bool.or_eq_true, beq_iff_eq] at h
    rcases h with hdigit | rfl
    · have hrange := isDigit_iff.1 hdigit
      have hascii : c.toNat < 0x80 := by omega
      have hnone : isAsciiLetter c = false := by
        by_contra hletter
        have hletters := isAsciiLetter_iff.1 (by simpa using hletter)
        omega
      simp [isIdentStart, isAlphabetic, hascii, hnone, hne '_' (by decide), hne ':' (by decide)]
    · decide
  have hident : startsIdent (c :: cs) = false := by
    simp [startsIdent, hletter, hne '\\' (by decide)]
  simp [scanToken, hpunctuation, hident, hquote]

theorem startsNumber_append {c : Char} {cs rest : List Char} (hrest : AtGap rest) :
    startsNumber (c :: cs ++ rest) = startsNumber (c :: cs) := by
  by_cases hpoint : c = '.'
  · subst hpoint
    cases cs with
    | nil =>
        cases rest with
        | nil => rfl
        | cons d rest =>
            have hdigit : ∀ d ∈ gaps, isDigit d = false := by decide
            have hd := hdigit d (hrest d rfl)
            simpa [startsNumber] using hd.trans (show false = isDigit '.' by decide)
    | cons d cs => rfl
  · simp [startsNumber, hpoint]

theorem toOption_mapError {ε ε' α : Type} (f : ε → ε') (x : Except ε α) :
    (x.mapError f).toOption = x.toOption := by
  cases x <;> rfl

theorem toOption_eq_some_iff {ε α : Type} {x : Except ε α} {a : α} :
    x.toOption = some a ↔ x = .ok a := by
  cases x with
  | error e => exact ⟨fun h => (by cases h), fun h => (by cases h)⟩
  | ok b => simp [Except.toOption]

/-- Before a gap a number or a duration is found, or none, whatever follows. -/
theorem scanToken_numeral_append {c : Char} {cs rest : List Char} (hstart : startsNumeral c)
    (hrest : AtGap rest) :
    (scanToken (c :: cs ++ rest)).toOption =
      (scanToken (c :: cs)).toOption.map fun found => (found.1, found.2 ++ rest) := by
  rw [scanToken_of_startsNumeral hstart, List.cons_append, scanToken_of_startsNumeral hstart]
  unfold splitSignOrNumber
  rw [splitSign_of_startsNumeral hstart, splitSign_of_startsNumeral hstart, ← List.cons_append,
    splitDuration_append hrest, startsNumber_append hrest]
  cases splitDuration (c :: cs) with
  | some found => rfl
  | none =>
      have hnumber := splitNumber_append hrest (List.cons_ne_nil c cs)
      dsimp only [Option.map_none]
      split
      · rw [toOption_mapError, toOption_mapError, hnumber]
      · rfl

/-- A token that is a number or a duration is found again before a gap. -/
theorem scanToken_append {c : Char} {cs rest : List Char} (hstart : startsNumeral c)
    (hrest : AtGap rest) (h : scanToken (c :: cs) = .ok (c :: cs, [])) :
    scanToken (c :: cs ++ rest) = .ok (c :: cs, rest) := by
  have happend := @scanToken_numeral_append c cs rest hstart hrest
  rw [h] at happend
  exact toOption_eq_some_iff.1 happend

/-! ## Tokens that are numbers or durations -/

/-- A number or a duration that is one token. -/
structure IsNumeral (text : String) : Prop where
  start : ∃ c cs, text.toList = c :: cs ∧ startsNumeral c
  token : scanToken text.toList = .ok (text.toList, [])

theorem isDigit_of_mem_toDigits {n : Nat} {c : Char} (h : c ∈ Nat.toDigits 10 n) : isDigit c := by
  have hdigit := Nat.isDigit_of_mem_toDigits (by decide) (by decide) h
  rw [isDigit_iff]
  simp only [Char.isDigit, ge_iff_le, Bool.and_eq_true, decide_eq_true_eq, UInt32.le_iff_toNat_le]
    at hdigit
  exact hdigit

theorem head_toDigits {n : Nat} (h : 0 < n) : (Nat.toDigits 10 n).head? ≠ some '0' := by
  induction n using Nat.strongRecOn with
  | ind n ih =>
      by_cases hsmall : n < 10
      · rw [Nat.toDigits_of_lt_base hsmall]
        have hall : ∀ d < 10, 0 < d → [d.digitChar].head? ≠ some '0' := by decide
        exact hall n hsmall h
      · have hdiv := ih (n / 10) (by omega) (by omega)
        rw [Nat.toDigits_of_base_le (by decide) (by omega)]
        cases hdigits : Nat.toDigits 10 (n / 10) with
        | nil => exact absurd hdigits Nat.toDigits_ne_nil
        | cons c cs => simpa [hdigits] using hdiv

theorem scanToken_digits {cs : List Char} (hne : cs ≠ []) (hdigits : ∀ c ∈ cs, isDigit c)
    (hzero : cs.head? ≠ some '0') : scanToken cs = .ok (cs, []) := by
  cases cs with
  | nil => exact absurd rfl hne
  | cons c rest =>
      have hstart : startsNumeral c := by simp [startsNumeral, hdigits c List.mem_cons_self]
      have hdigitsRest : splitDigits (c :: rest) = (c :: rest, []) := by
        simp only [splitDigits, Prod.mk.injEq]
        exact ⟨List.takeWhile_eq_self_iff.2 hdigits, List.dropWhile_eq_nil_iff.2 hdigits⟩
      -- Digits alone have no unit, no mark of a base, and nothing behind them.
      have hduration : splitDuration (c :: rest) = none := by
        simp [splitDuration, splitPart, splitPartNumber, hdigitsRest, TimeUnit.ofStart]
      have hbase : Base.ofStart (c :: rest) = none := by
        unfold Base.ofStart
        split
        · rename_i heq
          cases heq
          exact absurd rfl hzero
        · rfl
      have hmore : ∀ d ∈ c :: rest, isDigitOrUnderscore d := by
        intro d hd
        simp [isDigitOrUnderscore, hdigits d hd]
      have htake : (c :: rest).takeWhile isDigitOrUnderscore = c :: rest :=
        List.takeWhile_eq_self_iff.2 hmore
      have hdrop : (c :: rest).dropWhile isDigitOrUnderscore = [] :=
        List.dropWhile_eq_nil_iff.2 hmore
      have hnumber : splitNumber (c :: rest) = .ok (c :: rest, []) := by
        simp [splitNumber, hbase, htake, hdrop, splitFraction, splitSuffix, multiplierLength]
      have hstarts : startsNumber (c :: rest) := by
        have hpoint : c ≠ '.' := by
          rintro rfl
          exact absurd (hdigits '.' List.mem_cons_self) (by decide)
        simp [startsNumber, hpoint, hdigits c List.mem_cons_self]
      rw [scanToken_of_startsNumeral hstart]
      simp [splitSignOrNumber, splitSign_of_startsNumeral hstart, hduration, hstarts, hnumber,
        Except.mapError]

theorem isNumeral_toString {n : Nat} (h : 0 < n) : IsNumeral (toString n) := by
  have htext : (toString n).toList = Nat.toDigits 10 n := Nat.toList_repr
  have hdigits : ∀ c ∈ Nat.toDigits 10 n, isDigit c := fun c => isDigit_of_mem_toDigits
  constructor
  · rw [htext]
    cases hcs : Nat.toDigits 10 n with
    | nil => exact absurd hcs Nat.toDigits_ne_nil
    | cons c cs =>
        have hc := hdigits c (by simp [hcs])
        exact ⟨c, cs, rfl, by simp [startsNumeral, hc]⟩
  · rw [htext]
    exact scanToken_digits Nat.toDigits_ne_nil hdigits (head_toDigits h)

theorem splitDigits_concat (cs : List Char) : (splitDigits cs).1 ++ (splitDigits cs).2 = cs :=
  List.takeWhile_append_dropWhile

theorem partSign_concat (signed : Bool) (cs : List Char) :
    (partSign signed cs).1 ++ (partSign signed cs).2 = cs := by
  unfold partSign
  split <;> rfl

theorem partFraction_concat (cs sign whole after : List Char) (h : sign ++ (whole ++ after) = cs) :
    (partFraction cs sign whole after).1 ++ (partFraction cs sign whole after).2 = cs := by
  unfold partFraction
  split
  · split
    · rfl
    · simpa [List.takeWhile_append_dropWhile] using h
  · simpa using h

theorem splitPartNumber_concat (signed : Bool) (cs : List Char) :
    (splitPartNumber signed cs).1 ++ (splitPartNumber signed cs).2 = cs := by
  rw [splitPartNumber_eq]
  apply partFraction_concat
  rw [splitDigits_concat, partSign_concat]

theorem splitPart_concat {signed : Bool} {cs left : List Char} {part : DurationPart}
    (h : splitPart signed cs = some (part, left)) : part.text ++ left = cs := by
  have hnumber := splitPartNumber_concat signed cs
  unfold splitPart at h
  rcases splitPartNumber signed cs with ⟨number, after⟩
  dsimp only at h hnumber
  split at h
  · cases h
  · rcases Option.map_eq_some_iff.1 h with ⟨⟨unit, n⟩, _, heq⟩
    cases heq
    simpa [DurationPart.text] using hnumber

theorem splitParts_concat (fuel : Nat) (cs : List Char) :
    (splitParts fuel cs).1.flatMap DurationPart.text ++ (splitParts fuel cs).2 = cs := by
  induction fuel generalizing cs with
  | zero => rfl
  | succ fuel ih =>
      unfold splitParts
      split
      · rename_i part rest hpart
        have hrest := ih rest
        rw [← splitPart_concat hpart]
        simp [hrest]
      · rfl

theorem splitDuration_concat {cs text left : List Char} (h : splitDuration cs = some (text, left)) :
    text ++ left = cs := by
  unfold splitDuration at h
  rcases Option.map_eq_some_iff.1 h with ⟨⟨part, rest⟩, hpart, heq⟩
  have hrest := splitParts_concat rest.length rest
  cases heq
  rw [← splitPart_concat hpart, List.append_assoc, hrest]

/-- A part without a sign starts with a digit. -/
theorem isDigit_of_splitPart {cs left : List Char} {part : DurationPart}
    (h : splitPart false cs = some (part, left)) : ∃ c rest, cs = c :: rest ∧ isDigit c := by
  unfold splitPart at h
  cases cs with
  | nil => cases h
  | cons c rest =>
      refine ⟨c, rest, rfl, ?_⟩
      by_contra hc
      have hdigits : splitDigits (c :: rest) = ([], c :: rest) := by simp [splitDigits, hc]
      have hnumber : splitPartNumber false (c :: rest) = ([], c :: rest) := by
        unfold splitPartNumber
        simp only [hdigits]
        split <;> rfl
      simp [hnumber] at h

/-- A duration without a sign is one token. -/
theorem isNumeral_of_isPositiveDuration {text : String} (h : isPositiveDuration text) :
    IsNumeral text := by
  unfold isPositiveDuration at h
  split at h
  · rename_i found hsplit
    have hstart : ∃ c cs, text.toList = c :: cs ∧ isDigit c := by
      have hpart := hsplit
      unfold splitDuration at hpart
      rcases Option.map_eq_some_iff.1 hpart with ⟨⟨part, rest⟩, hfirst, _⟩
      exact isDigit_of_splitPart hfirst
    have hconcat := splitDuration_concat hsplit
    rw [List.append_nil] at hconcat
    rw [hconcat] at hsplit
    rcases hstart with ⟨c, cs, htext, hdigit⟩
    have hnumeral : startsNumeral c := by simp [startsNumeral, hdigit]
    refine ⟨⟨c, cs, htext, hnumeral⟩, ?_⟩
    rw [htext] at hsplit ⊢
    rw [scanToken_of_startsNumeral hnumeral]
    simp [splitSignOrNumber, splitSign_of_startsNumeral hnumeral, hsplit]
  · cases h

end SeriesQuery
