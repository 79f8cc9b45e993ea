import SeriesQuery.Proofs.FixedPoint

/-!
# Values of durations

A text that is recognised as a duration has a value, or one that is too big, as long as each minus in
it has a number behind it.  A part behind the first may be a minus with a unit and no digits: such a
part is recognised, but it has no value (`hasBareMinus`).
-/

namespace SeriesQuery

open Text

/-! ## Minus signs without a number -/

/-- Some minus has no number behind it. -/
def hasBareMinus : List Char → Bool
  | [] => false
  | c :: cs => (c == '-' && !startsNumber cs) || hasBareMinus cs

theorem hasBareMinus_append {xs : List Char} (h : ∀ c ∈ xs, c ≠ '-') (cs : List Char) :
    hasBareMinus (xs ++ cs) = hasBareMinus cs := by
  induction xs with
  | nil => rfl
  | cons x xs ih =>
      have hparts := List.forall_mem_cons.1 h
      simp [hasBareMinus, hparts.1, ih hparts.2]

/-- A part with digits has a value, and one without digits is a bare minus. -/
theorem hasBareMinus_of_splitPart {signed : Bool} {cs left : List Char} {part : DurationPart}
    (h : splitPart signed cs = some (part, left)) :
    hasBareMinus cs = (!(readFloat part.number).isSome || hasBareMinus left) := by
  rcases splitPart_cases h with ⟨sign, n, hsign, hnumber, hunit, hletters⟩
  rw [← splitPart_concat h, DurationPart.text, hnumber, n.isSome_readFloat hsign, Bool.not_not]
  have hends : EndsNumeral (part.unitText ++ left) := by
    cases htext : part.unitText with
    | nil => exact absurd htext hunit
    | cons c rest =>
        have hc := isUnitLetter_ne (hletters c (by simp [htext]))
        exact endsNumeral_cons hc.1 hc.2.1
  have hnumeral : ∀ c ∈ n.text ++ part.unitText, c ≠ '-' := by
    intro c hc
    rcases List.mem_append.1 hc with htext | hletter
    · rintro rfl
      exact absurd (n.isDigit_of_mem_text htext) (by decide)
    · exact (isUnitLetter_ne (hletters c hletter)).2.2.1
  have hrest := hasBareMinus_append hnumeral left
  rcases hsign with ⟨rfl, hwhole⟩ | ⟨rfl, -⟩
  · have hdigits : n.digits.isEmpty = false := by simp [FixedPoint.digits, hwhole]
    rw [List.nil_append, hrest, hdigits, Bool.false_or]
  · have hstarts := n.startsNumber_text hends
    rw [List.append_assoc] at hrest
    simp only [List.append_assoc, List.cons_append, List.nil_append, hasBareMinus, hstarts, hrest,
      beq_self_eq_true, Bool.true_and, Bool.not_not]

/-! ## Parts -/

/-- A part without a sign is found also where parts may be signed. -/
theorem splitPart_true_of_false {cs left : List Char} {part : DurationPart}
    (h : splitPart false cs = some (part, left)) : splitPart true cs = some (part, left) := by
  rcases isDigit_of_splitPart h with ⟨c, rest, rfl, hdigit⟩
  have hminus : c ≠ '-' := by
    rintro rfl
    exact absurd hdigit (by decide)
  unfold splitPart at h ⊢
  rw [splitPartNumber_eq] at h ⊢
  rw [partSign_cons] at h ⊢
  simpa [hminus] using h

/-- A duration consists of its parts. -/
theorem splitParts_of_isPositiveDuration {s : String} (h : isPositiveDuration s) :
    ∃ part left parts, splitPart false s.toList = some (part, left) ∧
      splitParts s.length s.toList = (part :: parts, []) := by
  unfold isPositiveDuration at h
  split at h
  · rename_i found hsplit
    unfold splitDuration at hsplit
    rcases Option.map_eq_some_iff.1 hsplit with ⟨⟨part, left⟩, hpart, heq⟩
    rcases hparts : splitParts left.length left with ⟨parts, after⟩
    simp only [hparts] at heq
    cases heq
    have hshort := length_lt_of_splitPart hpart
    rw [String.length_toList] at hshort
    refine ⟨part, left, parts, hpart, ?_⟩
    cases hlength : s.length with
    | zero => omega
    | succ fuel =>
        have hfuel : (left ++ []).length ≤ fuel := by
          rw [List.append_nil]
          omega
        have hgap : AtGap [] := by simp [AtGap]
        have hagain := splitParts_append hgap (Nat.le_refl left.length) hfuel
        rw [List.append_nil, hparts] at hagain
        simp [splitParts, splitPart_true_of_false hpart, hagain]
  · cases h

/-- The parts of a text are added up if none of them is a bare minus, and such a part stops it. -/
theorem sumParts_cases (whole : String) (step : Int) (minus : Bool) (sum : Float) {fuel : Nat}
    {cs : List Char} {parts : List DurationPart} (h : splitParts fuel cs = (parts, [])) :
    (hasBareMinus cs = false → ∃ total, sumParts whole step fuel minus sum cs = .ok total) ∧
      (hasBareMinus cs → ∃ text, sumParts whole step fuel minus sum cs = .error (.unreadable text)) := by
  induction fuel generalizing minus sum cs parts with
  | zero =>
      cases h
      simp [sumParts, hasBareMinus]
  | succ fuel ih =>
      cases cs with
      | nil => simp [sumParts, hasBareMinus]
      | cons c rest =>
          unfold splitParts at h
          split at h
          · rename_i part left hpart
            rcases hparts : splitParts fuel left with ⟨more, after⟩
            rw [hparts] at h
            cases h
            rw [hasBareMinus_of_splitPart hpart]
            simp only [sumParts, hpart, DurationPart.value]
            cases hvalue : readFloat part.number with
            | none => simp [bind, Except.bind]
            | some x =>
                simp only [Option.isSome_some, Bool.not_true, Bool.false_or]
                exact ih _ _ hparts
          · cases h

/-- The text of a duration is no float by itself. -/
theorem readFloat_eq_none_of_isPositiveDuration {s : String} (h : isPositiveDuration s) :
    readFloat s.toList = none := by
  rcases splitParts_of_isPositiveDuration h with ⟨part, left, _, hpart, _⟩
  rcases splitPart_cases hpart with ⟨sign, n, hsign, hnumber, hunit, hletters⟩
  have hwhole : sign = [] ∧ n.whole ≠ [] := by simpa [FixedPoint.Signed] using hsign
  have htext : n.text ≠ [] := by simp [FixedPoint.text, hwhole.2]
  rw [← splitPart_concat hpart, DurationPart.text, hnumber, hwhole.1, List.nil_append,
    List.append_assoc]
  cases hunitText : part.unitText with
  | nil => exact absurd hunitText hunit
  | cons c rest =>
      have hc := isUnitLetter_ne (hletters c (by simp [hunitText]))
      exact n.readFloat_text_eq_none htext (endsNumeral_cons hc.1 hc.2.1) hc.2.2.2

/-- A recognised duration without a bare minus has a value or is too big, and one with a bare minus
cannot be read. -/
theorem durationValue_of_isPositiveDuration {s : String} (h : isPositiveDuration s) (step : Int) :
    (hasBareMinus s.toList = false → (∃ v, durationValue s step = .ok v) ∨
        ∃ sum, durationValue s step = .error (.tooBig sum)) ∧
      (hasBareMinus s.toList → ∃ text, durationValue s step = .error (.unreadable text)) := by
  rcases splitParts_of_isPositiveDuration h with ⟨part, left, parts, hpart, hparts⟩
  have hne : s.isEmpty = false := by
    by_contra hempty
    have hnil : s = "" := by simpa using hempty
    rw [hnil] at hpart
    cases hpart
  have hsum := sumParts_cases s step false 0.0 hparts
  simp only [durationValue, hne, Bool.false_eq_true, if_false,
    readFloat_eq_none_of_isPositiveDuration h, partsValue]
  constructor
  · intro hplain
    rcases hsum.1 hplain with ⟨total, htotal⟩
    rw [htotal]
    by_cases hbig : Float.abs total > 9223372036854775808.0
    · exact .inr ⟨total, if_pos hbig⟩
    · exact .inl ⟨_, if_neg hbig⟩
  · intro hbare
    rcases hsum.2 hbare with ⟨text, htext⟩
    rw [htext]
    exact ⟨text, rfl⟩

/-- Parts with fractions, without digits behind the point or before it, and in several units. -/
theorem durationValue_of_isPositiveDuration_fractions :
    isPositiveDuration "1.h-.5MS2i" ∧
      (hasBareMinus "1.h-.5MS2i".toList = false → (∃ v, durationValue "1.h-.5MS2i" 7 = .ok v) ∨
          ∃ sum, durationValue "1.h-.5MS2i" 7 = .error (.tooBig sum)) ∧
        (hasBareMinus "1.h-.5MS2i".toList →
          ∃ text, durationValue "1.h-.5MS2i" 7 = .error (.unreadable text)) :=
  ⟨by decide, durationValue_of_isPositiveDuration (by decide) 7⟩

/-- A minus with a unit is recognised behind another part, and cannot be read. -/
theorem not_durationValue_of_isPositiveDuration :
    ¬ ∀ s step, isPositiveDuration s → (∃ v, durationValue s step = .ok v) ∨
      ∃ sum, durationValue s step = .error (.tooBig sum) := by
  intro h
  have hvalue : durationValue "5m-s" 0 = .error (.unreadable "-s") := rfl
  rcases h "5m-s" 0 (by decide) with ⟨v, hv⟩ | ⟨sum, hsum⟩
  · rw [hvalue] at hv
    cases hv
  · rw [hvalue] at hsum
    cases hsum

end SeriesQuery
