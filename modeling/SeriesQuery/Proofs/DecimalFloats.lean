import SeriesQuery.Proofs.FixedPoint
import SeriesQuery.Proofs.Rounding

/-!
# Floats of numerals

A decimal is read as a float that rounds to the number it stands for (`Decimal.roundsTo_toFloat`),
whichever way the power of ten is multiplied or divided by: with exact floats, with the digits as a
whole number of any size, or not at all where the number is far beyond or below all floats.
-/

namespace SeriesQuery

open Float.Model (UnpackedFloat Format)

namespace Binary64

/-! ## Floats that are whole numbers -/

/-- The parts have all bits and are the whole number. -/
def standsFor (u : UnpackedFloat) (p : Nat) : Bool :=
  match u with
  | .finite .positive m e _ => 2 ^ 52 ≤ m && m * 2 ^ e.toNat == p * 2 ^ (-e).toNat
  | _ => false

/-- The powers of ten in the table are exact. -/
theorem standsFor_powers : ∀ k, (h : k < Float.exactlyRepresentablePowersOfTen.size) →
    standsFor (parts Float.exactlyRepresentablePowersOfTen[k]) (10 ^ k) := by
  decide +kernel

theorem exists_of_standsFor {u : UnpackedFloat} {p : Nat} (h : standsFor u p) :
    ∃ m e, ∃ hm : 0 < m, u = .finite .positive m e hm ∧ 2 ^ 52 ≤ m ∧ (m * 2 ^ e : ℚ) = p := by
  unfold standsFor at h
  split at h
  · rename_i m e hm
    simp only [Bool.and_eq_true, decide_eq_true_eq, beq_iff_eq] at h
    refine ⟨m, e, hm, rfl, h.1, ?_⟩
    have hvalue : (m * 2 ^ e.toNat : ℚ) = p * 2 ^ (-e).toNat := by exact_mod_cast h.2
    rcases Int.le_total 0 e with hpos | hneg
    · have hzero : (-e).toNat = 0 := by omega
      have he : e = e.toNat := by omega
      rw [hzero, pow_zero, mul_one] at hvalue
      rw [he, zpow_natCast]
      exact hvalue
    · have hzero : e.toNat = 0 := by omega
      have he : e = -((-e).toNat : Int) := by omega
      rw [hzero, pow_zero, mul_one] at hvalue
      rw [hvalue]
      generalize (-e).toNat = k at he
      rw [he, zpow_neg, zpow_natCast, mul_assoc, mul_inv_cancel₀ (by positivity), mul_one]
  · cases h

theorem fits_of_log2_add {n j : Nat} (hpos : 0 < n) (hj : n.log2 + j = 52) :
    Fits (n * 2 ^ j) (-(j : Int)) := by
  have hlog := log2_mul_two_pow hpos j
  have hlt : n * 2 ^ j < 2 ^ (52 + 1) := by
    rw [← hj, ← hlog]
    exact Nat.lt_log2_self
  have hmul : 0 < n * 2 ^ j := by positivity
  exact ⟨hmul, hlt, by omega, .inl ((log2_eq_iff_full hmul hlt).1 (by omega))⟩

theorem toFloat_eq_ofParts {n j : Nat} (hpos : 0 < n) (hj : n.log2 + j = 52) (hlt : n < 2 ^ 53) :
    n.toUInt64.toFloat =
      ofParts (.finite .positive (n * 2 ^ j) (-(j : Int)) (fits_of_log2_add hpos hj).pos) := by
  have hnat : n.toUInt64.toNat = n := by
    simp
    omega
  have hcompare : compare (n : Int) 0 = .gt := Int.compare_eq_gt.2 (by omega)
  have hshift : (-targetOf n 0).toNat = j := by
    rw [targetOf]
    omega
  have hexact := roundWithAccuracy_exact (fits_of_log2_add hpos hj) .positive 0
  rw [Nat.pow_zero, Nat.mul_one, Int.natCast_zero, Int.sub_zero] at hexact
  have hnormal : n.toUInt64.toFloat =
      ofParts (UnpackedFloat.normalize .binary64 n.toUInt64.toNat 0 .positive) := rfl
  rw [hnormal, hnat, ← hexact]
  simp only [UnpackedFloat.normalize, hcompare, Int.toNat_natCast, UnpackedFloat.round,
    targetExponent_eq, UnpackedFloat.decreaseExponent, hshift, Nat.shiftLeft_eq, Int.zero_sub]

/-- Whole numbers of 53 bits are floats. -/
theorem standsFor_toFloat {n : Nat} (hpos : 0 < n) (hlt : n < 2 ^ 53) :
    standsFor (parts n.toUInt64.toFloat) n := by
  have hlog := log2_le_of_lt (k := 52) hlt
  rcases Nat.exists_eq_add_of_le hlog with ⟨j, hj⟩
  have hfits := fits_of_log2_add hpos hj.symm
  have hfull : 2 ^ 52 ≤ n * 2 ^ j := by
    have hbits := hfits.full
    omega
  rw [toFloat_eq_ofParts hpos hj.symm hlt, parts_ofParts_finite hfits, if_neg (by omega)]
  simp only [standsFor, hfull, decide_true, Bool.true_and, beq_iff_eq]
  have hneg : (-(j : Int)).toNat = 0 := by omega
  have hpos : (- -(j : Int)).toNat = j := by omega
  rw [hneg, hpos, Nat.pow_zero, Nat.mul_one]

theorem roundsTo_div_of_standsFor {x y : Float} {p q : Nat} (hx : standsFor (parts x) p)
    (hy : standsFor (parts y) q) : RoundsTo (p / q) (x / y) := by
  rcases exists_of_standsFor hx with ⟨m₁, e₁, h₁, hparts₁, -, hp⟩
  rcases exists_of_standsFor hy with ⟨m₂, e₂, h₂, hparts₂, -, hq⟩
  rw [div_eq_ofParts, hparts₁, hparts₂, ← hp, ← hq]
  exact roundsTo_div e₁ e₂ h₁ h₂

theorem roundsTo_mul_of_standsFor {x y : Float} {p q : Nat} (hx : standsFor (parts x) p)
    (hy : standsFor (parts y) q) : RoundsTo (p * q) (x * y) := by
  rcases exists_of_standsFor hx with ⟨m₁, e₁, h₁, hparts₁, hbits, hp⟩
  rcases exists_of_standsFor hy with ⟨m₂, e₂, h₂, hparts₂, -, hq⟩
  rw [mul_eq_ofParts, hparts₁, hparts₂, ← hp, ← hq]
  exact roundsTo_mul e₁ e₂ h₁ h₂ (hbits.trans (Nat.le_mul_of_pos_right _ h₂))

/-! ## Digits with a power of ten -/

/-- Without the table the quotient of the digits by the power is rounded. -/
theorem roundsTo_ofScientific_neg {D k : Nat} (hD : 0 < D) (hpos : 0 < k) (hk : k ≤ D.log2 / 3 + 401) :
    RoundsTo (D / 10 ^ k) (ofParts (UnpackedFloat.ofScientific .binary64 D (Int.negOfNat k))) := by
  have hneg : Int.negOfNat k = -(k : Int) := Int.negOfNat_eq
  have hbits : (2 : Int) ^ Format.binary64.exponentBits = 2048 := rfl
  have hcase : UnpackedFloat.ofScientific .binary64 D (Int.negOfNat k) =
      UnpackedFloat.div .binary64 (.finite .positive D 0 hD)
        (.finite .positive (10 ^ k) 0 (Nat.pow_pos (by decide))) := by
    have hnat : (- -(k : Int)).toNat = k := by omega
    rw [UnpackedFloat.ofScientific, dif_neg hD.ne', hneg, hbits, if_neg (by omega), if_neg (by omega),
      if_neg (by omega)]
    simp only [hnat]
  have hdiv := roundsTo_div 0 0 hD (show 0 < 10 ^ k from Nat.pow_pos (by decide))
  rw [hcase]
  simpa using hdiv

/-- The product of the digits with the power is rounded. -/
theorem roundsTo_ofScientific_nonneg {D k : Nat} (hD : 0 < D) (hk : k ≤ 2048) :
    RoundsTo (D * 10 ^ k) (ofParts (UnpackedFloat.ofScientific .binary64 D (Int.ofNat k))) := by
  have hshift : 0 < D * 2 ^ 53 := by positivity
  have hpow : 0 < 10 ^ k := Nat.pow_pos (by decide)
  have hcase : UnpackedFloat.ofScientific .binary64 D (Int.ofNat k) =
      UnpackedFloat.mul .binary64 (.finite .positive (D * 2 ^ 53) (-53) hshift)
        (.finite .positive (10 ^ k) 0 hpow) := by
    have hbits : (2 : Int) ^ Format.binary64.exponentBits = 2048 := rfl
    have hmantissa : Format.mantissaBits .binary64 = 53 := rfl
    rw [UnpackedFloat.ofScientific, dif_neg hD.ne', Int.ofNat_eq_natCast, hbits, if_neg (by omega),
      if_neg (by omega), if_pos (by omega)]
    simp only [hmantissa, Nat.shiftLeft_eq]
    rfl
  have hmul := roundsTo_mul (-53) 0 hshift hpow
    (show 2 ^ 52 ≤ D * 2 ^ 53 * 10 ^ k from
      (show 2 ^ 52 ≤ D * 2 ^ 53 by omega).trans (Nat.le_mul_of_pos_right _ hpow))
  rw [hcase]
  have hvalue : ((D * 2 ^ 53 : Nat) * 2 ^ (-53 : Int) * ((10 ^ k : Nat) * 2 ^ (0 : Int)) : ℚ) =
      D * 10 ^ k := by
    rw [zpow_neg, zpow_zero]
    push_cast
    field_simp
  rwa [hvalue] at hmul

/-- Few digits with a small power are one division or multiplication of exact floats, and all others are
computed without the table. -/
theorem roundsTo_ofScientific {D : Nat} {e : Int} (hD : 0 < D) (hleast : -(D.log2 / 3 + 401 : Nat) ≤ e)
    (hgreatest : e ≤ 400) :
    RoundsTo (D * 10 ^ e) (Float.ofScientific D (e < 0) e.natAbs) := by
  have hsize : Float.exactlyRepresentablePowersOfTen.size = 23 := rfl
  rcases Int.lt_or_le e 0 with hneg | hpos
  · obtain ⟨k, rfl, hk⟩ : ∃ k : Nat, e = -(k : Int) ∧ 0 < k := ⟨e.natAbs, by omega, by omega⟩
    rw [zpow_neg, zpow_natCast, ← div_eq_mul_inv, Int.natAbs_neg, Int.natAbs_natCast,
      decide_eq_true hneg]
    unfold Float.ofScientific
    split
    · rename_i hfast
      have hdiv := roundsTo_div_of_standsFor (standsFor_toFloat hD hfast.1)
        (standsFor_powers k (by omega))
      push_cast at hdiv
      exact hdiv
    · exact roundsTo_ofScientific_neg hD hk (by omega)
  · obtain ⟨k, rfl⟩ := Int.eq_ofNat_of_zero_le hpos
    rw [zpow_natCast, Int.natAbs_natCast, decide_eq_false (by omega)]
    unfold Float.ofScientific
    split
    · rename_i hfast
      have hmul := roundsTo_mul_of_standsFor (standsFor_toFloat hD hfast.1)
        (standsFor_powers k (by omega))
      push_cast at hmul
      exact hmul
    · exact roundsTo_ofScientific_nonneg hD (by omega)

/-- What is answered without computing the power is below all floats. -/
theorem div_pow_le_of_cut {D k : Nat} (hk : D.log2 / 3 + 401 < k) :
    2 * (D / 10 ^ k : ℚ) ≤ 2 ^ (-1074 : Int) := by
  rcases Nat.exists_eq_add_of_le (show 1203 ≤ 3 * k by omega) with ⟨j, hj⟩
  have hdigits : D ≤ 2 ^ j :=
    Nat.lt_log2_self.le.trans (Nat.pow_le_pow_right (by omega) (by omega))
  have hpow : 2 ^ (3 * k) ≤ 10 ^ k := by
    rw [Nat.pow_mul]
    exact Nat.pow_le_pow_left (by omega) k
  have hD : (D : ℚ) ≤ 2 ^ (j : Int) := by exact_mod_cast hdigits
  have hten : (2 : ℚ) ^ (3 * k : Int) ≤ 10 ^ k := by exact_mod_cast hpow
  rw [← mul_div_assoc, div_le_iff₀ (by positivity)]
  calc 2 * (D : ℚ) ≤ 2 * 2 ^ (j : Int) := by gcongr
    _ = 2 ^ (1 + j : Int) := (zpow_one_add₀ (by norm_num) _).symm
    _ ≤ 2 ^ (-1074 + 3 * k : Int) := zpow_le_zpow_right₀ (by norm_num) (by omega)
    _ = 2 ^ (-1074 : Int) * 2 ^ (3 * k : Int) := zpow_add₀ (by norm_num) ..
    _ ≤ 2 ^ (-1074 : Int) * 10 ^ k := by gcongr

/-- What is beyond all floats is rounded to an infinity. -/
theorem roundsTo_infinity {v : ℚ} (hv : 2 ^ (1024 : Int) ≤ v) : RoundsTo v (1.0 / 0.0) where
  unsigned := rfl
  passes_iff := by
    intro M t h hle
    have hparts : parts (1.0 / 0.0) = .infinity .positive := rfl
    have hM : (M : ℚ) + 1 ≤ 2 ^ (53 : Int) := by exact_mod_cast h.lt
    have hstep : (2 : ℚ) ^ t ≤ 2 ^ (971 : Int) := zpow_le_zpow_right₀ (by norm_num) hle
    have hpos : (0 : ℚ) < 2 ^ t := zpow_pos (by norm_num) t
    rw [hparts]
    refine iff_of_true (.inl rfl) (.inl ?_)
    calc (2 * M + 1) * (2 : ℚ) ^ t < 2 * 2 ^ (53 : Int) * 2 ^ t :=
          mul_lt_mul_of_pos_right (by linarith) hpos
      _ ≤ 2 * 2 ^ (53 : Int) * 2 ^ (971 : Int) := by gcongr
      _ = 2 * 2 ^ (53 + 971 : Int) := by rw [mul_assoc, zpow_add₀ (by norm_num)]
      _ ≤ 2 * v := mul_le_mul_of_nonneg_left hv (by norm_num)

end Binary64

/-! ## Decimals -/

namespace Decimal

/-- The number that the decimal stands for. -/
def value (d : Decimal) : ℚ :=
  d.digits * 10 ^ d.exponent

theorem le_value {d : Decimal} (hd : 0 < d.digits) : (10 : ℚ) ^ d.exponent ≤ d.value :=
  le_mul_of_one_le_left (zpow_pos (by norm_num) _).le (by exact_mod_cast hd)

/-- A decimal is read as a float that rounds to it. -/
theorem roundsTo_toFloat (d : Decimal) : Binary64.RoundsTo d.value d.toFloat := by
  unfold toFloat
  split
  · rename_i hzero
    refine Binary64.roundsTo_zero ?_
    simp [value, hzero]
  · rename_i hdigits
    split
    · rename_i hgreat
      refine Binary64.roundsTo_infinity ((?_ : (2 : ℚ) ^ (1024 : Int) ≤ 10 ^ (401 : Int)).trans ?_)
      · exact_mod_cast (by decide +kernel : 2 ^ 1024 ≤ 10 ^ 401)
      · exact (zpow_le_zpow_right₀ (by norm_num) (by omega)).trans (le_value (by omega))
    · split
      · -- so many digits behind the point that the number is below half the least float
        rename_i hless
        obtain ⟨k, hk⟩ : ∃ k : Nat, d.exponent = -(k : Int) := ⟨d.exponent.natAbs, by omega⟩
        rw [value, hk, zpow_neg, zpow_natCast, ← div_eq_mul_inv]
        exact Binary64.roundsTo_zero (Binary64.div_pow_le_of_cut (by omega))
      · exact Binary64.roundsTo_ofScientific (by omega) (by omega) (by omega)

end Decimal

namespace FixedPoint

variable (n : FixedPoint)

/-- The number that the numeral stands for. -/
def value : ℚ :=
  decimalValue n.digits / 10 ^ n.decimals.length

theorem value_decimal : n.decimal.value = n.value := by
  rw [Decimal.value, value, decimal, zpow_neg, zpow_natCast, div_eq_mul_inv]

theorem roundsTo_value : Binary64.RoundsTo n.value n.decimal.toFloat :=
  n.value_decimal ▸ n.decimal.roundsTo_toFloat

end FixedPoint

end SeriesQuery
