import SeriesQuery.Proofs.DecimalFloats
import SeriesQuery.Duration

/-!
# Numbers of seconds

A numeral by itself counts seconds, as it does with the unit `s` behind it.  The two have the same
value up to `9223372036854777` seconds.  Beyond that the sum of parts is too big, but the bare number
is cut to the largest signed number.
-/

namespace SeriesQuery

open Text Binary64
open Float.Model (UnpackedFloat)

/-! ## Thousandfold floats -/

theorem parts_thousand : parts 1000.0 = .finite .positive (1000 * 2 ^ 43) (-43) (by decide) := rfl

theorem roundsTo_mul_thousand {m : Nat} {e : Int} (hm : 0 < m) :
    RoundsTo (1000 * (m * 2 ^ e))
      (ofParts (.mul .binary64 (.finite .positive m e hm) (parts 1000.0))) := by
  have hproduct := roundsTo_mul e (-43) hm (show 0 < 1000 * 2 ^ 43 by decide) (by omega)
  have hvalue : (m * 2 ^ e * ((1000 * 2 ^ 43 : Nat) * 2 ^ (-43 : Int)) : ℚ) = 1000 * (m * 2 ^ e) := by
    norm_num
    ring
  rw [parts_thousand, ← hvalue]
  exact hproduct

theorem isUnsigned_mul_thousand {x : Float} (hx : isUnsigned (parts x)) :
    isUnsigned (parts (x * 1000.0)) := by
  rw [mul_eq_ofParts]
  rcases cases_of_isUnsigned hx with h | h | ⟨m, e, hm, h⟩ <;> rw [h]
  · rfl
  · rfl
  · exact (roundsTo_mul_thousand hm).unsigned

/-- The floats whose product with a thousand is beyond `2 ^ 63` by more than half a unit. -/
theorem lt_thousandfold_iff {m : Nat} {e : Int} (h : Binary64.Fits m e) :
    (18446744073709553664 : ℚ) < 2000 * (m * 2 ^ e) ↔ 1 < e ∨ 1 = e ∧ 4611686018427388 < m := by
  have hfull := h.full
  -- floats around the bound are even whole numbers, whose exponent is one
  rcases lt_trichotomy 1 e with hgreat | rfl | hsmall
  · have hmantissa : (2 ^ 52 : ℚ) ≤ m := by exact_mod_cast (by omega : 2 ^ 52 ≤ m)
    have hscale : (2 ^ (2 : Int) : ℚ) ≤ 2 ^ e := zpow_le_zpow_right₀ (by norm_num) (by omega)
    have hproduct : (2 ^ 52 * 2 ^ (2 : Int) : ℚ) ≤ m * 2 ^ e := by gcongr
    simp only [hgreat, true_or, iff_true]
    norm_num at hproduct ⊢
    linarith
  · simp only [lt_irrefl, false_or, true_and, zpow_one]
    constructor
    · intro hlt
      by_contra hle
      have hbound : (m : ℚ) ≤ 4611686018427388 := by exact_mod_cast not_lt.1 hle
      linarith
    · intro hlt
      have hbound : (4611686018427389 : ℚ) ≤ m := by exact_mod_cast hlt
      linarith
  · have hmantissa : (m : ℚ) ≤ 2 ^ 53 := by exact_mod_cast h.lt.le
    have hscale : (2 ^ e : ℚ) ≤ 2 ^ (0 : Int) := zpow_le_zpow_right₀ (by norm_num) (by omega)
    have hproduct : (m * 2 ^ e : ℚ) ≤ 2 ^ 53 * 2 ^ (0 : Int) := by gcongr
    have hnot : ¬ (1 < e ∨ 1 = e ∧ 4611686018427388 < m) := by omega
    simp only [hnot, iff_false, not_lt]
    norm_num at hproduct ⊢
    linarith

/-- The product with a thousand is beyond `2 ^ 63` if the number is beyond `9223372036854777`, which is
half a unit behind the last float whose product is not. -/
theorem lt_mul_thousand_iff {v : ℚ} {x : Float} (h : RoundsTo v x) :
    9223372036854775808.0 < x * 1000.0 ↔ 9223372036854777 < v := by
  have hbound : parts 9223372036854775808.0 = .finite .positive (2 ^ 52) 11 (by decide) := rfl
  have hunit : (9223372036854777 : ℚ) < v ↔
      (UnpackedFloat.finite .positive 4611686018427388 1 (by decide)).lt (parts x) = true := by
    rw [h.lt_iff ⟨by decide, by decide, by decide, .inl (by decide)⟩ (by decide) (by decide)]
    norm_num
    constructor <;> intro h <;> linarith
  rw [lt_iff_parts, hbound, hunit, mul_eq_ofParts]
  rcases cases_of_isUnsigned h.unsigned with hx | hx | ⟨m, e, hm, hx⟩
  · rw [hx]
    exact iff_of_true rfl rfl
  · rw [hx]
    exact iff_of_false (by decide) (by decide)
  · have hlimit : ((2 * (2 ^ 52 : Nat) + 1) * 2 ^ (11 : Int) : ℚ) = 18446744073709553664 := by
      norm_num
    have hdouble : (2 * (1000 * (m * 2 ^ e)) : ℚ) = 2000 * (m * 2 ^ e) := by ring
    rw [hx, (roundsTo_mul_thousand hm).lt_iff ⟨by decide, by decide, by decide, .inl (by decide)⟩
      (by decide) (by decide), lt_iff_of_finite, hlimit, hdouble, lt_thousandfold_iff (fits_of_parts hx)]
    simp [hm]

/-! ## Numerals with and without a unit -/

namespace FixedPoint

variable (n : FixedPoint)

/-- So many seconds in milliseconds, as a float. -/
def milliseconds : Float :=
  n.decimal.toFloat * 1000.0

theorem isUnsigned_milliseconds : isUnsigned (parts n.milliseconds) :=
  isUnsigned_mul_thousand n.roundsTo_value.unsigned

variable {n : FixedPoint}

theorem digits_ne_nil (hn : n.whole ≠ []) : n.digits ≠ [] := by
  simp [digits, hn]

theorem ofList_text_isEmpty (hn : n.whole ≠ []) (rest : List Char) :
    (String.ofList (n.text ++ rest)).isEmpty = false := by
  rw [Bool.eq_false_iff, Ne, String.isEmpty_iff]
  intro hempty
  have hnil := congrArg String.toList hempty
  simp [text, hn] at hnil

/-- A numeral with the unit of seconds is one part. -/
theorem splitPart_seconds (hn : n.whole ≠ []) :
    splitPart true (n.text ++ ['s']) = some (⟨n.text, .seconds, ['s']⟩, []) := by
  have hends : EndsNumeral ['s'] := endsNumeral_cons (by decide) (by decide)
  have hsign : n.Signed true [] := .inl ⟨rfl, hn⟩
  have hnumber := n.splitPartNumber_text hsign hends
  have htext : n.text ≠ [] := by simp [text, hn]
  rw [List.nil_append, List.nil_append] at hnumber
  have hunit : TimeUnit.ofStart ['s'] = some (.seconds, 1) := rfl
  simp [splitPart, hnumber, htext, hunit]

/-- The sum of the only part is the same float as for the bare number. -/
theorem sumParts_seconds (hn : n.whole ≠ []) (whole : String) (step : Int) (fuel : Nat) :
    sumParts whole step (fuel + 1) false 0.0 (n.text ++ ['s']) = .ok n.milliseconds := by
  have hthousand : (1e3 : Float) = 1000.0 := by decide
  have hsum : 0.0 + 1.0 * n.decimal.toFloat * 1e3 = n.milliseconds := by
    rw [one_mul_float, hthousand]
    exact zero_add_float n.isUnsigned_milliseconds
  cases hcs : n.text ++ ['s'] with
  | nil => simp at hcs
  | cons c cs =>
      have hpart := splitPart_seconds hn
      rw [hcs] at hpart
      simp [sumParts, hpart, DurationPart.value, n.readFloat_text (digits_ne_nil hn), bind, Except.bind,
        TimeUnit.inSeconds, hsum]

theorem durationValue_text (hn : n.whole ≠ []) (step : Int) :
    durationValue (String.ofList n.text) step = .ok (truncateInt64 n.milliseconds) := by
  have hempty := ofList_text_isEmpty hn []
  rw [List.append_nil] at hempty
  simp [durationValue, hempty, n.readFloat_text (digits_ne_nil hn), milliseconds]

theorem durationValue_text_s (hn : n.whole ≠ []) (step : Int) :
    durationValue (String.ofList (n.text ++ ['s'])) step =
      if n.milliseconds > 9223372036854775808.0 then .error (.tooBig n.milliseconds)
      else .ok (truncateInt64 n.milliseconds) := by
  have hempty := ofList_text_isEmpty hn ['s']
  have hnone : readFloat (n.text ++ ['s']) = none :=
    n.readFloat_text_eq_none (by simp [text, hn]) (endsNumeral_cons (by decide) (by decide)) (by decide)
  have hsum := sumParts_seconds hn (String.ofList (n.text ++ ['s'])) step n.text.length
  have hlength : (String.ofList (n.text ++ ['s'])).length = n.text.length + 1 := by
    rw [String.length_ofList, List.length_append]
    rfl
  simp only [durationValue, hempty, Bool.false_eq_true, if_false, String.toList_ofList, hnone,
    partsValue, hlength, hsum, bind, Except.bind, abs_float n.isUnsigned_milliseconds]

end FixedPoint

/-- A numeral counts the same number of milliseconds with the unit of seconds and without it up to
`9223372036854777` seconds.  Beyond that it is too big with the unit, and the largest number without. -/
theorem durationValue_append_s {n : FixedPoint} (hn : n.whole ≠ []) (step : Int) :
    (n.value ≤ 9223372036854777 →
        durationValue (String.ofList n.text ++ "s") step = durationValue (String.ofList n.text) step ∧
          durationValue (String.ofList n.text) step = .ok (truncateInt64 n.milliseconds)) ∧
      (9223372036854777 < n.value →
        durationValue (String.ofList n.text ++ "s") step = .error (.tooBig n.milliseconds) ∧
          durationValue (String.ofList n.text) step = .ok maxInt64) := by
  have hunit : String.ofList n.text ++ "s" = String.ofList (n.text ++ ['s']) := by
    simp
  have hbound : 9223372036854775808.0 < n.milliseconds ↔ 9223372036854777 < n.value :=
    lt_mul_thousand_iff n.roundsTo_value
  rw [hunit, FixedPoint.durationValue_text_s hn, FixedPoint.durationValue_text hn]
  constructor
  · intro hle
    rw [if_neg (mt hbound.1 (not_lt.2 hle))]
    exact ⟨rfl, rfl⟩
  · intro hgt
    rw [if_pos (hbound.2 hgt), truncateInt64_of_lt (hbound.2 hgt)]
    exact ⟨rfl, rfl⟩

/-- The numerals with one digit behind the point on both sides of the bound. -/
theorem durationValue_append_s_bound :
    durationValue ("9223372036854777.0" ++ "s") 7 = durationValue "9223372036854777.0" 7 ∧
      (∃ ms, durationValue ("9223372036854777.1" ++ "s") 7 = .error (.tooBig ms)) ∧
        durationValue "9223372036854777.1" 7 = .ok maxInt64 := by
  have hbelow := durationValue_append_s
    (n := .ofDigits "9223372036854777".toList (some ['0']) rfl rfl) (by decide) 7
  have habove := durationValue_append_s
    (n := .ofDigits "9223372036854777".toList (some ['1']) rfl rfl) (by decide) 7
  have hzero : decimalValue "92233720368547770".toList = 92233720368547770 := by decide
  have hone : decimalValue "92233720368547771".toList = 92233720368547771 := by decide
  have hle := (hbelow.1 (by
    show (decimalValue "92233720368547770".toList : ℚ) / 10 ^ 1 ≤ _
    rw [hzero]
    norm_num)).1
  have hgt := habove.2 (by
    show _ < (decimalValue "92233720368547771".toList : ℚ) / 10 ^ 1
    rw [hone]
    norm_num)
  exact ⟨hle, ⟨_, hgt.1⟩, hgt.2⟩

/-- A number that is too big with the unit of seconds has a value without it. -/
theorem not_durationValue_append_s :
    ¬ ∀ (n : FixedPoint) (step : Int), n.whole ≠ [] →
      (∃ v, durationValue (String.ofList n.text) step = .ok v ∧
          durationValue (String.ofList n.text ++ "s") step = .ok v) ∨
        ∃ bare united, durationValue (String.ofList n.text) step = .error bare ∧
          durationValue (String.ofList n.text ++ "s") step = .error united := by
  intro h
  have hbare : durationValue "9999999999999999999" 0 = .ok maxInt64 := rfl
  have hunit : (durationValue ("9999999999999999999" ++ "s") 0).isOk = false := by decide +kernel
  rcases h (.ofDigits "9999999999999999999".toList none rfl rfl) 0 (by decide) with
    ⟨v, -, hv⟩ | ⟨e, _, he, -⟩
  · have hok := congrArg Except.isOk hv
    cases hunit.symm.trans hok
  · cases hbare.symm.trans he

end SeriesQuery
