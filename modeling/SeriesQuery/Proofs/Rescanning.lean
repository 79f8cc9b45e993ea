import SeriesQuery.Proofs.Partition

/-!
# Numbers and durations by themselves

A number or a duration is found at the start of a text, and may have been ended by any character.
Where that text ends behind it, or goes on with a gap, the same is found again (`IsNumeral`).

What is found depends on the first character behind it at most: `StartsAs` says that a text starts
as another one does, or is empty.  A number could be a duration when it is taken out of its text, as
in `5mi` without the last letter; that does not happen, since such a letter belongs to the number
(`NoMoreLetters`).
-/

namespace SeriesQuery

open Text

/-! ## Texts with the same start -/

/-- The text starts with the first character of the other one, or is empty. -/
def StartsAs (cs ds : List Char) : Prop :=
  ∀ c ∈ cs.head?, c ∈ ds.head?

theorem startsAs_nil (cs : List Char) : StartsAs [] cs := by
  intro c hc
  cases hc

theorem startsAs_append (cs ds : List Char) : StartsAs cs (cs ++ ds) := by
  cases cs with
  | nil => exact startsAs_nil _
  | cons c cs => exact fun _ hd => hd

/-- Texts that go on after a common part start alike, if there is such a part. -/
theorem startsAs_of_ne_nil {cs : List Char} (h : cs ≠ []) (ds es : List Char) :
    StartsAs (cs ++ ds) (cs ++ es) := by
  cases cs with
  | nil => exact absurd rfl h
  | cons c cs => exact fun _ hd => hd

theorem startsAs_cases {cs ds : List Char} (h : StartsAs cs ds) :
    cs = [] ∨ ∃ c cs' ds', cs = c :: cs' ∧ ds = c :: ds' := by
  cases cs with
  | nil => exact .inl rfl
  | cons c cs =>
      cases ds with
      | nil => cases h c rfl
      | cons d ds =>
          cases h c rfl
          exact .inr ⟨c, cs, ds, rfl, rfl⟩

section Runs

variable {p : Char → Bool} {cs rest : List Char}

/-- The run of characters at the start of a text ends there again before what starts alike. -/
theorem takeWhile_again (h : StartsAs rest (cs.dropWhile p)) :
    (cs.takeWhile p ++ rest).takeWhile p = cs.takeWhile p ∧
      (cs.takeWhile p ++ rest).dropWhile p = rest := by
  have hends : ∀ c ∈ rest.head?, p c = false := by
    intro c hc
    have hhead := List.head?_dropWhile_not p cs
    rw [Option.mem_def.1 (h c hc)] at hhead
    exact hhead
  have hall : ∀ c ∈ cs.takeWhile p, p c := fun c hc => List.mem_takeWhile_imp hc
  constructor
  · rw [takeWhile_append_of_head hends, List.takeWhile_eq_self_iff.2 hall]
  · rw [dropWhile_append_of_head hends, List.dropWhile_eq_nil_iff.2 hall, List.nil_append]

theorem splitDigits_again {digits left : List Char} (h : splitDigits cs = (digits, left))
    (hrest : StartsAs rest left) : splitDigits (digits ++ rest) = (digits, rest) := by
  cases h
  have hagain := takeWhile_again hrest
  exact Prod.ext hagain.1 hagain.2

end Runs

/-! ## Parts of durations -/

theorem partFraction_of_ne {cs sign whole after : List Char} (h : ∀ r, after ≠ '.' :: r) :
    partFraction cs sign whole after = (sign ++ whole, after) := by
  unfold partFraction
  split
  · rename_i r
    exact absurd rfl (h r)
  · rfl

/-- The digits of a part with their point are found again behind its sign. -/
theorem partFraction_again {cs sign xs number after : List Char}
    (h : partFraction cs sign (splitDigits xs).1 (splitDigits xs).2 = (number, after))
    (hne : number ≠ []) :
    ∃ body, number = sign ++ body ∧ ∀ cs' rest, StartsAs rest after →
      partFraction cs' sign (splitDigits (body ++ rest)).1 (splitDigits (body ++ rest)).2 =
        (number, rest) := by
  rcases hdigits : splitDigits xs with ⟨whole, left⟩
  rw [hdigits] at h
  by_cases hpoint : ∃ afterPoint, left = '.' :: afterPoint
  · rcases hpoint with ⟨afterPoint, rfl⟩
    simp only [partFraction] at h
    split at h
    · -- A point without any digits is no number.
      cases h
      exact absurd rfl hne
    · rename_i hsome
      cases h
      refine ⟨whole ++ '.' :: afterPoint.takeWhile isDigit, by simp, fun cs' rest hrest => ?_⟩
      have hstarts : StartsAs ('.' :: (afterPoint.takeWhile isDigit ++ rest)) ('.' :: afterPoint) :=
        fun c hc => hc
      have hwhole := splitDigits_again hdigits hstarts
      have hfraction := takeWhile_again hrest
      have htext : whole ++ '.' :: afterPoint.takeWhile isDigit ++ rest =
          whole ++ '.' :: (afterPoint.takeWhile isDigit ++ rest) := by simp
      rw [htext, hwhole]
      simp [partFraction, hsome, hfraction.1, hfraction.2]
  · have hleft : ∀ r, left ≠ '.' :: r := fun r heq => hpoint ⟨r, heq⟩
    rw [partFraction_of_ne hleft] at h
    cases h
    refine ⟨whole, rfl, fun cs' rest hrest => ?_⟩
    have hnone : ∀ r, rest ≠ '.' :: r := by
      rintro r rfl
      have hhead := hrest '.' rfl
      cases after with
      | nil => cases hhead
      | cons c after =>
          cases hhead
          exact hleft after rfl
    rw [splitDigits_again hdigits hrest, partFraction_of_ne hnone]

theorem partSign_cons (signed : Bool) (c : Char) (cs : List Char) :
    partSign signed (c :: cs) = if signed && c == '-' then (['-'], cs) else ([], c :: cs) := by
  cases signed with
  | false => rfl
  | true => by_cases hc : c = '-' <;> simp [partSign, hc]

/-- The number of a part is found again before what starts alike. -/
theorem splitPartNumber_again {signed : Bool} {cs number after rest : List Char}
    (h : splitPartNumber signed cs = (number, after)) (hne : number ≠ [])
    (hrest : StartsAs rest after) : splitPartNumber signed (number ++ rest) = (number, rest) := by
  have hconcat := splitPartNumber_concat signed cs
  rw [h] at hconcat
  rw [splitPartNumber_eq] at h ⊢
  rcases partFraction_again h hne with ⟨body, hbody, hagain⟩
  -- The sign is told by the first character, which both texts have in common.
  cases number with
  | nil => exact absurd rfl hne
  | cons c number =>
      have hsign : partSign signed (c :: number ++ rest) =
          ((partSign signed cs).1, body ++ rest) := by
        rw [← hconcat] at hbody ⊢
        rw [List.cons_append, partSign_cons] at hbody ⊢
        rw [List.cons_append, partSign_cons]
        cases hminus : (signed && c == '-') with
        | true =>
            simp only [hminus, if_true, List.singleton_append, List.cons.injEq] at hbody ⊢
            rw [hbody.2]
        | false =>
            simp only [hminus, Bool.false_eq_true, if_false, List.nil_append] at hbody ⊢
            rw [← hbody, List.cons_append]
      rw [hsign]
      exact hagain _ rest hrest

/-- A unit that is no single `m` is found whatever follows it. -/
theorem ofStart_of_ne {c : Char} (h : c.toLower ≠ 'm') (cs : List Char) :
    TimeUnit.ofStart (c :: cs) = (TimeUnit.ofLetter c).map (·, 1) := by
  have hbeq : (c.toLower == 'm') = false := beq_eq_false_iff_ne.2 h
  simp [TimeUnit.ofStart, hbeq]

/-- A unit is told by its letters and the character behind them. -/
theorem ofStart_again {cs rest : List Char} {unit : TimeUnit} {n : Nat}
    (h : TimeUnit.ofStart cs = some (unit, n)) (hrest : StartsAs rest (cs.drop n)) :
    TimeUnit.ofStart (cs.take n ++ rest) = some (unit, n) := by
  cases cs with
  | nil => cases h
  | cons c cs =>
      by_cases hm : c.toLower = 'm'
      · -- Only behind an `m` it matters what comes next.
        have hbeq : (c.toLower == 'm') = true := beq_iff_eq.2 hm
        cases cs with
        | nil =>
            simp only [TimeUnit.ofStart, hbeq, if_true] at h
            rcases Option.map_eq_some_iff.1 h with ⟨letter, hletter, heq⟩
            cases heq
            rcases startsAs_cases hrest with rfl | ⟨d, r, r', rfl, hcs⟩
            · simp [TimeUnit.ofStart, hletter]
            · cases hcs
        | cons d cs =>
            simp only [TimeUnit.ofStart, hbeq, if_true] at h
            by_cases hs : d.toLower = 's'
            · simp only [hs, beq_self_eq_true, if_true] at h
              cases h
              simp [TimeUnit.ofStart, hbeq, hs]
            · have hsbeq : (d.toLower == 's') = false := beq_eq_false_iff_ne.2 hs
              simp only [hsbeq, Bool.false_eq_true, if_false] at h
              split at h
              · cases h
              · rename_i hmultiplier
                rcases Option.map_eq_some_iff.1 h with ⟨letter, hletter, heq⟩
                cases heq
                rcases startsAs_cases hrest with rfl | ⟨e, r, r', rfl, hcs⟩
                · simp [TimeUnit.ofStart, hletter]
                · cases hcs
                  simp [TimeUnit.ofStart, hbeq, hsbeq, hmultiplier, hletter]
      · rw [ofStart_of_ne hm] at h
        rcases Option.map_eq_some_iff.1 h with ⟨letter, hletter, heq⟩
        cases heq
        rw [List.take_succ_cons, List.take_zero, List.singleton_append, ofStart_of_ne hm, hletter]
        rfl

theorem splitPart_again {signed : Bool} {cs left rest : List Char} {part : DurationPart}
    (h : splitPart signed cs = some (part, left)) (hrest : StartsAs rest left) :
    splitPart signed (part.text ++ rest) = some (part, rest) := by
  unfold splitPart at h ⊢
  rcases hnumber : splitPartNumber signed cs with ⟨number, after⟩
  rw [hnumber] at h
  dsimp only at h
  split at h
  · cases h
  · rename_i hne
    rcases Option.map_eq_some_iff.1 h with ⟨⟨unit, n⟩, hunit, heq⟩
    cases heq
    have hn := length_of_ofStart hunit
    have hlength : (after.take n).length = n := List.length_take_of_le hn.2
    have hstarts : StartsAs (after.take n ++ rest) after := by
      have hpos : after.take n ≠ [] := by
        rw [← List.length_pos_iff, hlength]
        exact hn.1
      have halike := startsAs_of_ne_nil hpos rest (after.drop n)
      rwa [List.take_append_drop] at halike
    have hagain := splitPartNumber_again hnumber (by simpa using hne) hstarts
    rw [DurationPart.text, List.append_assoc, hagain]
    simp [hne, ofStart_again hunit hrest, List.take_append_of_le_length hlength.ge,
      List.drop_append_of_le_length hlength.ge, List.take_of_length_le hlength.le,
      List.drop_of_length_le hlength.le]

/-- The parts that are found are found again where nothing follows them. -/
theorem splitParts_again {fuel : Nat} {cs : List Char} {parts : List DurationPart}
    {left : List Char} (h : splitParts fuel cs = (parts, left)) {fuel' : Nat}
    (hfuel : (parts.flatMap DurationPart.text).length ≤ fuel') :
    splitParts fuel' (parts.flatMap DurationPart.text) = (parts, []) := by
  induction fuel generalizing cs parts fuel' with
  | zero =>
      cases h
      cases fuel' <;> rfl
  | succ fuel ih =>
      unfold splitParts at h
      split at h
      · rename_i part rest hpart
        have hmore := splitParts_concat fuel rest
        rcases hparts : splitParts fuel rest with ⟨more, after⟩
        rw [hparts] at h hmore
        cases h
        -- The parts behind start like what followed before, which is all that the first one sees.
        have hstarts : StartsAs (more.flatMap DurationPart.text) rest := by
          rw [← hmore]
          exact startsAs_append _ _
        have hagain := splitPart_again hpart hstarts
        have hlt := length_lt_of_splitPart hagain
        rw [List.flatMap_cons] at hfuel ⊢
        cases fuel' with
        | zero => omega
        | succ fuel' =>
            have hshort : (more.flatMap DurationPart.text).length ≤ fuel' := by omega
            have hrest := ih hparts hshort
            simp only [splitParts, hagain, hrest]
      · cases h
        cases fuel' <;> rfl

/-- A duration is found again by itself. -/
theorem splitDuration_again {cs t left : List Char} (h : splitDuration cs = some (t, left)) :
    splitDuration t = some (t, []) := by
  unfold splitDuration at h
  rcases Option.map_eq_some_iff.1 h with ⟨⟨part, rest⟩, hpart, heq⟩
  rcases hparts : splitParts rest.length rest with ⟨parts, after⟩
  simp only [hparts] at heq
  cases heq
  have hrest := splitParts_concat rest.length rest
  rw [hparts] at hrest
  have hstarts : StartsAs (parts.flatMap DurationPart.text) rest := by
    rw [← hrest]
    exact startsAs_append _ _
  have hagain := splitParts_again hparts (Nat.le_refl _)
  simp only [splitDuration, splitPart_again hpart hstarts, Option.map_some, hagain]

/-! ## Multipliers -/

/-- A multiplier is a letter with an `i` or a `b` or both behind it; a letter alone is one where
neither follows. -/
theorem multiplierLength_cases {cs : List Char} (h : 0 < multiplierLength cs) :
    ∃ a ds left, cs = a :: ds ++ left ∧ isMultiplierLetter a.toLower ∧
      (ds = [] ∧ (∀ d ∈ left.head?, d.toLower ≠ 'i' ∧ d.toLower ≠ 'b') ∨
        ds.map Char.toLower ∈ [['i'], ['b'], ['i', 'b']]) ∧
      multiplierLength cs = (a :: ds).length := by
  cases cs with
  | nil => exact absurd h (by decide)
  | cons a cs =>
      have ha : isMultiplierLetter a.toLower = true := by
        by_contra hnone
        rw [multiplierLength_of_first (by simpa using hnone)] at h
        exact absurd h (by decide)
      rcases cs with _ | ⟨b, cs⟩
      · exact ⟨a, [], [], rfl, ha, .inl ⟨rfl, by simp⟩, by simp [multiplierLength, ha]⟩
      · by_cases hi : b.toLower = 'i'
        · rcases cs with _ | ⟨c, cs⟩
          · exact ⟨a, [b], [], rfl, ha, .inr (by simp [hi]), by simp [multiplierLength, ha, hi]⟩
          · by_cases hb : c.toLower = 'b'
            · exact ⟨a, [b, c], cs, rfl, ha, .inr (by simp [hi, hb]),
                by simp [multiplierLength, ha, hi, hb]⟩
            · exact ⟨a, [b], c :: cs, rfl, ha, .inr (by simp [hi]),
                by simp [multiplierLength, ha, hi, hb]⟩
        · by_cases hb : b.toLower = 'b'
          · exact ⟨a, [b], cs, rfl, ha, .inr (by simp [hb]), by simp [multiplierLength, ha, hb]⟩
          · exact ⟨a, [], b :: cs, rfl, ha, .inl ⟨rfl, by simp [hi, hb]⟩,
              by simp [multiplierLength, ha, hi, hb]⟩

/-- No letter of a unit would go on a multiplier that `t` ends with. -/
def NoMoreLetters (t left : List Char) : Prop :=
  t.getLast? = some 'm' → ∀ d ∈ left.head?, d.toLower ≠ 'i' ∧ d.toLower ≠ 'b'

theorem noMoreLetters_of_not_mem {t : List Char} (h : 'm' ∉ t) (left : List Char) :
    NoMoreLetters t left :=
  fun hlast => absurd (List.mem_of_getLast? hlast) h

theorem not_mem_takeWhile {p : Char → Bool} {c : Char} (h : p c = false) (cs : List Char) :
    c ∉ cs.takeWhile p := by
  intro hmem
  rw [List.mem_takeWhile_imp hmem] at h
  cases h

/-- A multiplier is found again by itself. -/
theorem multiplier_again {cs : List Char} (h : 0 < multiplierLength cs) :
    multiplierLength (cs.take (multiplierLength cs)) = multiplierLength cs ∧
      ∀ taken, NoMoreLetters (taken ++ cs.take (multiplierLength cs))
        (cs.drop (multiplierLength cs)) := by
  rcases multiplierLength_cases h with ⟨a, ds, left, hcs, ha, hds, hlength⟩
  rw [hlength]
  subst hcs
  rw [List.take_left, List.drop_left]
  rcases hds with ⟨rfl, hnext⟩ | hds
  · exact ⟨by simp [multiplierLength, ha], fun _ _ => hnext⟩
  · rcases ds with _ | ⟨b, _ | ⟨c, _ | ⟨d, ds⟩⟩⟩
    · simp at hds
    · have hb : b.toLower = 'i' ∨ b.toLower = 'b' := by simpa using hds
      refine ⟨by rcases hb with hb | hb <;> simp [multiplierLength, ha, hb], fun taken hlast => ?_⟩
      have hm : b = 'm' := by simpa using hlast
      subst hm
      exact absurd hb (by decide)
    · have hbc : b.toLower = 'i' ∧ c.toLower = 'b' := by simpa using hds
      refine ⟨by simp [multiplierLength, ha, hbc], fun taken hlast => ?_⟩
      have hm : c = 'm' := by simpa using hlast
      subst hm
      exact absurd hbc.2 (by decide)
    · simp at hds

/-! ## Numbers -/

/-- What a splitter takes behind `taken`, it takes again where nothing follows. -/
structure TakesAgain
    (split : List Char → List Char → List Char → Except NumberError (List Char × List Char))
    (taken s t left : List Char) : Prop where
  concat : t = taken ++ s
  letters : NoMoreLetters t left
  again : ∀ whole, split whole taken s = .ok (t, [])

section Splitters

variable {whole taken rest t left : List Char}

theorem exponentSign_cases (cs : List Char) :
    (exponentSign cs).1 ∈ [['-'], ['+'], []] := by
  unfold exponentSign
  split <;> simp

theorem exponentSign_again {cs digits after : List Char}
    (h : splitDigits (exponentSign cs).2 = (digits, after)) (hne : digits ≠ []) :
    exponentSign ((exponentSign cs).1 ++ digits) = ((exponentSign cs).1, digits) := by
  have hdigits : ∀ c ∈ digits, isDigit c := by
    cases h
    exact fun c hc => List.mem_takeWhile_imp hc
  cases digits with
  | nil => exact absurd rfl hne
  | cons d digits =>
      have hd := hdigits d List.mem_cons_self
      have hnone : exponentSign (d :: digits) = ([], d :: digits) := by
        have hsign : d ≠ '-' ∧ d ≠ '+' := by
          constructor <;> rintro rfl <;> exact absurd hd (by decide)
        simp [exponentSign, hsign]
      have hcases := exponentSign_cases cs
      simp only [List.mem_cons, List.not_mem_nil, or_false] at hcases
      rcases hcases with hsign | hsign | hsign <;> rw [hsign]
      · rfl
      · rfl
      · exact hnone

theorem splitExponent_again (htaken : 'm' ∉ taken)
    (h : splitExponent whole taken rest = .ok (t, left)) :
    ∃ s, rest = s ++ left ∧ TakesAgain splitExponent taken s t left := by
  have hsign := exponentSign_concat rest
  rw [splitExponent_eq] at h
  rcases hdigits : splitDigits (exponentSign rest).2 with ⟨digits, after⟩
  have hconcat := splitDigits_concat (exponentSign rest).2
  rw [hdigits] at h hconcat
  split at h
  · cases h
  · rename_i hne
    cases h
    have hagain : splitDigits digits = (digits, []) := by
      simpa using splitDigits_again hdigits (startsAs_nil _)
    have hsigned := exponentSign_again hdigits (by simpa using hne)
    refine ⟨(exponentSign rest).1 ++ digits, ?_, List.append_assoc _ _ _, ?_, fun whole => ?_⟩
    · rw [List.append_assoc, hconcat, hsign]
    · -- A sign and digits have no letters.
      refine noMoreLetters_of_not_mem ?_ _
      have hdigit : 'm' ∉ digits := by
        cases hdigits
        exact not_mem_takeWhile (by decide) _
      have hnone : 'm' ∉ (exponentSign rest).1 := by
        have hall : ∀ sign ∈ [['-'], ['+'], []], 'm' ∉ sign := by decide
        exact hall _ (exponentSign_cases rest)
      simp [htaken, hnone, hdigit]
    · rw [splitExponent_eq, hsigned, hagain, if_neg hne]

theorem splitSuffix_again (htaken : 'm' ∉ taken)
    (h : splitSuffix whole taken rest = .ok (t, left)) :
    ∃ s, rest = s ++ left ∧ TakesAgain splitSuffix taken s t left := by
  unfold splitSuffix at h
  dsimp only at h
  split at h
  · rename_i hpos
    cases h
    have hagain := multiplier_again hpos
    refine ⟨rest.take (multiplierLength rest), by simp, rfl, hagain.2 taken, fun whole => ?_⟩
    simp [splitSuffix, hagain.1, hpos, List.take_take]
  · rename_i hnone
    -- Without a multiplier and an exponent nothing is added.
    have hnothing : TakesAgain splitSuffix taken [] taken rest :=
      ⟨(List.append_nil _).symm, noMoreLetters_of_not_mem htaken _, fun _ => rfl⟩
    split at h
    · rename_i c after
      split at h
      · rename_i hmark
        have hc : 'm' ≠ c := by
          rintro rfl
          exact absurd hmark (by decide)
        rcases splitExponent_again (by simp [htaken, hc]) h with ⟨s, rfl, hconcat, hletters, hagain⟩
        refine ⟨c :: s, rfl, by simpa using hconcat, hletters, fun whole => ?_⟩
        have hletter : isMultiplierLetter c.toLower = false := by
          simp only [Bool.or_eq_true, beq_iff_eq] at hmark
          rcases hmark with rfl | rfl <;> decide
        simp [splitSuffix, multiplierLength_of_first hletter, hmark, hagain]
      · cases h
        exact ⟨[], rfl, hnothing⟩
    · cases h
      exact ⟨[], rfl, hnothing⟩

theorem splitFraction_again (htaken : 'm' ∉ taken)
    (h : splitFraction whole taken rest = .ok (t, left)) :
    ∃ s, rest = s ++ left ∧ (rest.head? = some '.' → s.head? = some '.') ∧
      TakesAgain splitFraction taken s t left := by
  by_cases hpoint : ∃ after, rest = '.' :: after
  · rcases hpoint with ⟨after, rfl⟩
    have hdigit := not_mem_takeWhile (p := isDigitOrUnderscore) (c := 'm') (by decide) after
    rcases splitSuffix_again (by simp [htaken, hdigit]) h with ⟨s, hs, hconcat, hletters, hagain⟩
    have hstarts : StartsAs s (after.dropWhile isDigitOrUnderscore) := hs ▸ startsAs_append s left
    have hfraction := takeWhile_again hstarts
    refine ⟨'.' :: after.takeWhile isDigitOrUnderscore ++ s, ?_, fun _ => rfl,
      by simpa using hconcat, hletters, fun whole => ?_⟩
    · rw [List.append_assoc, ← hs, List.cons_append, List.takeWhile_append_dropWhile]
    · simp only [splitFraction, List.cons_append, hfraction.1, hfraction.2, hagain]
  · have hne : ∀ after, rest ≠ '.' :: after := fun after heq => hpoint ⟨after, heq⟩
    rw [splitFraction_of_ne hne] at h
    rcases splitSuffix_again htaken h with ⟨s, rfl, hconcat, hletters, hagain⟩
    have hs : ∀ after, s ≠ '.' :: after := by
      rintro after rfl
      exact hne _ rfl
    refine ⟨s, rfl, fun hhead => ?_, hconcat, hletters, fun whole => ?_⟩
    · rcases List.head?_eq_some_iff.1 hhead with ⟨after, heq⟩
      exact absurd heq (hne after)
    · rw [splitFraction_of_ne hs, hagain]

end Splitters

/-- How many characters mark a base at the start of the text. -/
def marked (cs : List Char) : Nat :=
  ((Base.ofStart cs).map Base.markLength).getD 0

theorem marked_of_base {cs : List Char} {base : Base} (h : Base.ofStart cs = some base) :
    marked cs = base.markLength := by
  rw [marked, h]
  rfl

/-- A base is marked by a zero with a letter, or by a zero before a digit. -/
theorem mark_cases {cs : List Char} {base : Base} (h : Base.ofStart cs = some base) :
    ∃ d rest, cs = '0' :: d :: rest ∧
      (base.markLength = 2 ∧ d ≠ 'm' ∨ base.markLength = 1 ∧ base ≠ .hex ∧ isDigit d) := by
  have hletter : ∀ {d : Char}, d.toLower ≠ 'm' → d ≠ 'm' := by
    rintro d hd rfl
    exact hd (by decide)
  unfold Base.ofStart at h
  split at h
  · rename_i d rest
    refine ⟨d, rest, rfl, ?_⟩
    split at h
    · cases h
      exact .inr ⟨rfl, by decide, by assumption⟩
    · split at h
      · rename_i hx
        cases h
        exact .inl ⟨rfl, hletter (by rw [beq_iff_eq.1 hx]; decide)⟩
      · split at h
        · rename_i ho
          cases h
          exact .inl ⟨rfl, hletter (by rw [beq_iff_eq.1 ho]; decide)⟩
        · split at h
          · rename_i hb
            cases h
            exact .inl ⟨rfl, hletter (by rw [beq_iff_eq.1 hb]; decide)⟩
          · cases h
  · cases h

theorem not_mem_mark (cs : List Char) : 'm' ∉ cs.take (marked cs) := by
  cases hbase : Base.ofStart cs with
  | none => simp [marked, hbase]
  | some base =>
      rw [marked_of_base hbase]
      rcases mark_cases hbase with ⟨d, rest, rfl, ⟨hmark, hd⟩ | ⟨hmark, -, -⟩⟩
      · simp [hmark, hd.symm]
      · simp [hmark]

/-- A number with a mark has two characters at least. -/
theorem two_le_length_of_base {cs : List Char} {base : Base} (h : Base.ofStart cs = some base)
    {p : Char → Bool} (hp : base ≠ .hex → ∀ d, isDigit d → p d) :
    2 ≤ (cs.take (marked cs) ++ (cs.drop (marked cs)).takeWhile p).length := by
  rw [marked_of_base h]
  rcases mark_cases h with ⟨d, rest, rfl, ⟨hmark, -⟩ | ⟨hmark, hne, hd⟩⟩
  · simp [hmark]
  · simp [hmark, hp hne d hd]

/-- Two characters tell the base. -/
theorem baseOfStart_again {t left : List Char}
    (h : ∀ base, Base.ofStart (t ++ left) = some base → 2 ≤ t.length) :
    Base.ofStart t = Base.ofStart (t ++ left) := by
  rcases t with _ | ⟨c, _ | ⟨d, t⟩⟩
  · cases hbase : Base.ofStart ([] ++ left) with
    | none => rfl
    | some base => exact absurd (h base hbase) (by decide)
  · cases hbase : Base.ofStart ([c] ++ left) with
    | none =>
        unfold Base.ofStart
        split
        · rename_i heq
          cases heq
        · rfl
    | some base => exact absurd (h base hbase) (by simp)
  · by_cases hzero : c = '0'
    · simp [Base.ofStart, hzero]
    · simp [Base.ofStart, hzero]

/-- A number that goes on behind its mark has the same mark by itself. -/
theorem mark_again {cs body left : List Char} (hconcat : cs.take (marked cs) ++ body ++ left = cs)
    (htwo : ∀ base, Base.ofStart cs = some base → 2 ≤ (cs.take (marked cs) ++ body).length) :
    let number := cs.take (marked cs) ++ body
    Base.ofStart number = Base.ofStart cs ∧
      number.take (marked number) = cs.take (marked cs) ∧ number.drop (marked number) = body := by
  intro number
  have hbase := @baseOfStart_again number left
  rw [hconcat] at hbase
  have hlength : (cs.take (marked cs)).length = marked cs :=
    List.length_take_of_le (markLength_le_length cs)
  have hmarked : marked number = (cs.take (marked cs)).length := by
    rw [hlength, marked, hbase htwo, ← marked]
  refine ⟨hbase htwo, ?_, ?_⟩
  · rw [hmarked, List.take_left]
  · rw [hmarked, List.drop_left]

theorem splitNumber_of_hex {cs : List Char} (h : Base.ofStart cs = some .hex) :
    splitNumber cs =
      if ((cs.drop (marked cs)).takeWhile isHexDigit).isEmpty then
        .error (.notNumber (String.ofList cs))
      else .ok (cs.take (marked cs) ++ (cs.drop (marked cs)).takeWhile isHexDigit,
        (cs.drop (marked cs)).dropWhile isHexDigit) := by
  have hmarked : ((Base.ofStart cs).map Base.markLength).getD 0 = marked cs := rfl
  simp only [splitNumber, hmarked, if_pos h]

theorem splitNumber_of_ne {cs : List Char} (h : Base.ofStart cs ≠ some .hex) :
    splitNumber cs =
      if ((cs.drop (marked cs)).takeWhile isDigitOrUnderscore).isEmpty &&
          ((cs.drop (marked cs)).dropWhile isDigitOrUnderscore).head? != some '.' then
        .error (.notNumber (String.ofList cs))
      else
        splitFraction cs
          (cs.take (marked cs) ++ (cs.drop (marked cs)).takeWhile isDigitOrUnderscore)
          ((cs.drop (marked cs)).dropWhile isDigitOrUnderscore) := by
  have hmarked : ((Base.ofStart cs).map Base.markLength).getD 0 = marked cs := rfl
  simp only [splitNumber, hmarked, if_neg h]

theorem splitHex_again {cs t left : List Char} (hhex : Base.ofStart cs = some .hex)
    (h : splitNumber cs = .ok (t, left)) : splitNumber t = .ok (t, []) ∧ NoMoreLetters t left := by
  have hconcat := (splitNumber_concat h).1
  rw [splitNumber_of_hex hhex] at h
  generalize hdigits : (cs.drop (marked cs)).takeWhile isHexDigit = digits at h
  split at h
  · cases h
  · rename_i hne
    cases h
    have htwo : ∀ base, Base.ofStart cs = some base →
        2 ≤ (cs.take (marked cs) ++ digits).length := by
      intro base hbase
      rw [hhex] at hbase
      cases hbase
      rw [← hdigits]
      exact two_le_length_of_base hhex fun hother => absurd rfl hother
    rcases mark_again hconcat htwo with ⟨hbase, htake, hdrop⟩
    have hall : ∀ c ∈ digits, isHexDigit c := by
      rw [← hdigits]
      exact fun c hc => List.mem_takeWhile_imp hc
    constructor
    · rw [splitNumber_of_hex (hbase.trans hhex), htake, hdrop,
        List.takeWhile_eq_self_iff.2 hall, List.dropWhile_eq_nil_iff.2 hall, if_neg hne]
    · have hm : 'm' ∉ digits := fun hm => absurd (hall 'm' hm) (by decide)
      exact noMoreLetters_of_not_mem (by simp [not_mem_mark cs, hm]) _

theorem splitOther_again {cs t left : List Char} (hother : Base.ofStart cs ≠ some .hex)
    (h : splitNumber cs = .ok (t, left)) : splitNumber t = .ok (t, []) ∧ NoMoreLetters t left := by
  have hconcat := (splitNumber_concat h).1
  rw [splitNumber_of_ne hother] at h
  generalize hdigits : (cs.drop (marked cs)).takeWhile isDigitOrUnderscore = digits at h
  generalize hrest : (cs.drop (marked cs)).dropWhile isDigitOrUnderscore = rest at h
  split at h
  · cases h
  · rename_i hnumber
    have hm : 'm' ∉ digits := by
      rw [← hdigits]
      exact not_mem_takeWhile (by decide) _
    rcases splitFraction_again (by simp [not_mem_mark cs, hm]) h with
      ⟨s, rfl, hhead, hfraction⟩
    have ht : t = cs.take (marked cs) ++ (digits ++ s) := by
      rw [hfraction.concat, List.append_assoc]
    subst ht
    have htwo : ∀ base, Base.ofStart cs = some base →
        2 ≤ (cs.take (marked cs) ++ (digits ++ s)).length := by
      intro base hbase
      have hmore := two_le_length_of_base hbase (p := isDigitOrUnderscore) fun _ d hd => by
        simp [isDigitOrUnderscore, hd]
      rw [hdigits] at hmore
      simp only [List.length_append] at hmore ⊢
      omega
    rcases mark_again hconcat htwo with ⟨hbase, htake, hdrop⟩
    refine ⟨?_, hfraction.letters⟩
    have hstarts : StartsAs s ((cs.drop (marked cs)).dropWhile isDigitOrUnderscore) := by
      rw [hrest]
      exact startsAs_append s left
    have hagain := takeWhile_again hstarts
    rw [hdigits] at hagain
    have hpoint : ¬(digits.isEmpty && s.head? != some '.') = true := by
      -- Where there are no digits the point has been taken.
      intro hnone
      simp only [Bool.and_eq_true, bne_iff_ne, ne_eq] at hnone hnumber
      exact hnumber ⟨hnone.1, fun h => hnone.2 (hhead h)⟩
    rw [splitNumber_of_ne (by rwa [hbase]), htake, hdrop, hagain.1, hagain.2, if_neg hpoint]
    exact hfraction.again _

/-- A number is found again by itself. -/
theorem splitNumber_again {cs t left : List Char} (h : splitNumber cs = .ok (t, left)) :
    splitNumber t = .ok (t, []) ∧ NoMoreLetters t left := by
  by_cases hhex : Base.ofStart cs = some .hex
  · exact splitHex_again hhex h
  · exact splitOther_again hhex h

/-! ## Tokens -/

/-- A unit at the end of a text is a unit before other text as well, unless it is a part of a
multiplier there. -/
theorem ofStart_append_isSome {cs left : List Char} {unit : TimeUnit} {n : Nat}
    (h : TimeUnit.ofStart cs = some (unit, n)) (hend : cs.drop n = [])
    (hletters : NoMoreLetters cs left) : (TimeUnit.ofStart (cs ++ left)).isSome := by
  rcases cs with _ | ⟨c, _ | ⟨d, cs⟩⟩
  · cases h
  · by_cases hm : c.toLower = 'm'
    · have hc : c = 'm' := by
        by_contra hne
        have hletter : TimeUnit.ofLetter c = none := by simp [TimeUnit.ofLetter, hne, hm]
        simp [TimeUnit.ofStart, hletter] at h
      subst hc
      cases left with
      | nil => rfl
      | cons d left =>
          have hd := hletters rfl d rfl
          by_cases hs : d.toLower = 's'
          · simp [TimeUnit.ofStart, hs]
          · simp [TimeUnit.ofStart, hs, hd, TimeUnit.ofLetter]
    · rw [ofStart_of_ne hm] at h
      rw [List.singleton_append, ofStart_of_ne hm, h]
      rfl
  · have happend : TimeUnit.ofStart (c :: d :: cs ++ left) = TimeUnit.ofStart (c :: d :: cs) := rfl
    rw [happend, h]
    rfl

/-- A part at the end of a text is a part before other text as well, unless its unit belongs to a
multiplier there. -/
theorem splitPart_append_isSome {signed : Bool} {t left : List Char} {part : DurationPart}
    (h : splitPart signed t = some (part, [])) (hletters : NoMoreLetters t left) :
    (splitPart signed (t ++ left)).isSome := by
  have hconcat := splitPartNumber_concat signed t
  unfold splitPart at h ⊢
  rcases hnumber : splitPartNumber signed t with ⟨number, after⟩
  rw [hnumber] at h hconcat
  dsimp only at h hconcat
  split at h
  · cases h
  · rename_i hne
    rcases Option.map_eq_some_iff.1 h with ⟨⟨unit, n⟩, hunit, heq⟩
    simp only [Prod.mk.injEq] at heq
    have hafter : after ≠ [] := by
      rintro rfl
      cases hunit
    have hunitLetters : NoMoreLetters after left := by
      intro hlast
      refine hletters ?_
      rw [← hconcat, List.getLast?_append, hlast]
      rfl
    have hstarts : StartsAs (after ++ left) after := by
      simpa using startsAs_of_ne_nil hafter left []
    have hagain := splitPartNumber_again hnumber (by simpa using hne) hstarts
    rw [← hconcat, List.append_assoc, hagain]
    simp only [hne, Bool.false_eq_true, if_false, Option.isSome_map]
    exact ofStart_append_isSome hunit heq.2 hunitLetters

/-- A number is no duration by itself. -/
theorem splitDuration_eq_none {t left : List Char} (h : splitDuration (t ++ left) = none)
    (hletters : NoMoreLetters t left) : splitDuration t = none := by
  have hnone : splitPart false (t ++ left) = none := by simpa [splitDuration] using h
  cases hpart : splitPart false t with
  | none => simp [splitDuration, hpart]
  | some found =>
      rcases found with ⟨part, r⟩
      cases r with
      | nil =>
          have hsome := splitPart_append_isSome hpart hletters
          rw [hnone] at hsome
          cases hsome
      | cons c r =>
          have hstarts : StartsAs (c :: r ++ left) (c :: r) := fun _ hd => hd
          have hagain := splitPart_again hpart hstarts
          rw [← List.append_assoc, splitPart_concat hpart, hnone] at hagain
          cases hagain

/-- A point is taken with the digit behind it. -/
theorem splitNumber_point {d : Char} {cs t left : List Char} (hd : isDigit d)
    (h : splitNumber ('.' :: d :: cs) = .ok (t, left)) : ∃ u, t = '.' :: d :: u := by
  have hbase : Base.ofStart ('.' :: d :: cs) ≠ some .hex := fun hbase => by cases hbase
  have hmarked : marked ('.' :: d :: cs) = 0 := rfl
  have hpoint : isDigitOrUnderscore '.' = false := by decide
  have hdigit : isDigitOrUnderscore d = true := by simp [isDigitOrUnderscore, hd]
  rw [splitNumber_of_ne hbase, hmarked] at h
  simp only [List.take_zero, List.drop_zero, List.takeWhile_cons, hpoint, List.dropWhile_cons,
    hdigit, Bool.false_eq_true, if_false, if_true, List.isEmpty_nil, List.head?_cons,
    bne_self_eq_false, Bool.and_false, splitFraction, List.nil_append] at h
  rcases (splitSuffix_goesOn h).2 with ⟨u, hu⟩
  exact ⟨_, hu.symm⟩

/-- A number starts with a digit, or with a point and a digit. -/
theorem startsNumber_again {cs t left : List Char} (hstarts : startsNumber cs)
    (h : splitNumber cs = .ok (t, left)) : startsNumber t := by
  rcases splitNumber_concat h with ⟨rfl, hne⟩
  cases t with
  | nil => exact absurd rfl hne
  | cons c t =>
      by_cases hc : c = '.'
      · subst hc
        -- The digit behind the point is taken with it.
        cases hrest : t ++ left with
        | nil =>
            have hpoint : isDigit '.' = true := by simpa [startsNumber, hrest] using hstarts
            exact absurd hpoint (by decide)
        | cons d rest =>
            rw [List.cons_append, hrest] at hstarts h
            have hd : isDigit d = true := hstarts
            rcases splitNumber_point hd h with ⟨u, hu⟩
            rw [hu]
            exact hd
      · simpa [startsNumber, hc] using hstarts

theorem startsNumeral_of_startsNumber {cs : List Char} (h : startsNumber cs) :
    ∃ c rest, cs = c :: rest ∧ startsNumeral c := by
  cases cs with
  | nil => cases h
  | cons c rest =>
      refine ⟨c, rest, rfl, ?_⟩
      by_cases hc : c = '.'
      · simp [startsNumeral, hc]
      · have hd : isDigit c = true := by simpa [startsNumber, hc] using h
        simp [startsNumeral, hd]

/-- A number or a duration that is scanned within a text is one by itself. -/
theorem isNumeral_of_split {cs t left : List Char} (hsign : splitSign cs = none)
    (h : splitSignOrNumber cs = .ok (t, left)) : IsNumeral (String.ofList t) := by
  unfold splitSignOrNumber at h
  rw [hsign] at h
  cases hduration : splitDuration cs with
  | some found =>
      simp only [hduration, Except.ok.injEq] at h
      subst h
      have hagain := splitDuration_again hduration
      exact isNumeral_of_isPositiveDuration (by simp [isPositiveDuration, hagain])
  | none =>
      simp only [hduration] at h
      split at h
      · rename_i hstarts
        have hnumber : splitNumber cs = .ok (t, left) := by
          cases hsplit : splitNumber cs with
          | error cause => simp [hsplit, Except.mapError] at h
          | ok found =>
              rw [hsplit] at h
              cases h
              rfl
        -- No duration starts the text, and so none starts the number by itself.
        rcases splitNumber_again hnumber with ⟨hagain, hletters⟩
        have hconcat := (splitNumber_concat hnumber).1
        have hnone := splitDuration_eq_none (hconcat.symm ▸ hduration) hletters
        have hself := startsNumber_again hstarts hnumber
        rcases startsNumeral_of_startsNumber hself with ⟨c, rest, rfl, hnumeral⟩
        constructor
        · exact ⟨c, rest, String.toList_ofList, hnumeral⟩
        · rw [String.toList_ofList, scanToken_of_startsNumeral hnumeral]
          simp [splitSignOrNumber, splitSign_of_startsNumeral hnumeral, hnone, hself, hagain,
            Except.mapError]
      · cases h

end SeriesQuery
