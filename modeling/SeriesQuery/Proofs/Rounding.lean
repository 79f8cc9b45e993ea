import SeriesQuery.Proofs.FloatParts

/-!
# Rounding of products and quotients

A product or a quotient of floats is computed with a mantissa, a round bit and a sticky bit, which are
shifted to the exponent of the result.  They stand for a fraction (`Describes`), and the result is the
whole number nearest to it (`roundWithAccuracy_eq`).

* `RoundsTo` — a float passes the bounds that the number passes, where a tie goes to the even one;
* `roundsTo_mul`, `roundsTo_div` — products and quotients do so;
* `one_mul_float`, `zero_add_float`, `abs_float` — what is exact.
-/

namespace SeriesQuery

open Float.Model (UnpackedFloat Format)
open Float.Model.UnpackedFloat (Sign ExtendedMantissa Accuracy roundWithAccuracy shiftToExponent
  shiftToTargetExponent accuracyOfFraction)

namespace Binary64

/-! ## Nearest whole numbers -/

/-- The fraction rounded to the nearest whole number, and to the even one of two. -/
def nearestEven (num den : Nat) : Nat :=
  if 2 * (num % den) < den then num / den
  else if 2 * (num % den) = den then num / den + num / den % 2
  else num / den + 1

theorem nearestEven_bounds (num den : Nat) :
    num / den ≤ nearestEven num den ∧ nearestEven num den ≤ num / den + 1 := by
  unfold nearestEven
  split
  · omega
  · split <;> omega

theorem nearestEven_mul (m : Nat) {d : Nat} (hd : 0 < d) : nearestEven (m * d) d = m := by
  simp [nearestEven, hd]

/-- A fraction is rounded to more than a number if it is beyond the next half, or on it where the
number is odd. -/
theorem lt_nearestEven_iff {num den M : Nat} (hden : 0 < den) :
    M < nearestEven num den ↔
      (2 * M + 1) * den < 2 * num ∨ M % 2 = 1 ∧ (2 * M + 1) * den = 2 * num := by
  have hdiv := Nat.div_add_mod num den
  have hmod := Nat.mod_lt num hden
  have hnear := nearestEven_bounds num den
  rcases lt_trichotomy (num / den) M with hless | heq | hgreater
  · -- below `M` the result is `M` at most
    refine iff_of_false (by omega) ?_
    have hmul : den * (num / den + 1) ≤ den * M := Nat.mul_le_mul_left den hless
    generalize num / den = q at *
    generalize num % den = r at *
    subst hdiv
    ring_nf at hmul ⊢
    omega
  · have hiff : ((2 * M + 1) * den < 2 * num ↔ den < 2 * (num % den)) ∧
        ((2 * M + 1) * den = 2 * num ↔ den = 2 * (num % den)) := by
      subst heq
      generalize num / den = q at *
      generalize num % den = r at *
      subst hdiv
      constructor <;> ring_nf <;> omega
    rw [hiff.1, hiff.2]
    unfold nearestEven
    split
    · omega
    · split <;> omega
  · refine iff_of_true (by omega) (.inl ?_)
    have hmul : den * (M + 1) ≤ den * (num / den) := Nat.mul_le_mul_left den hgreater
    generalize num / den = q at *
    generalize num % den = r at *
    subst hdiv
    ring_nf at hmul ⊢
    omega

/-! ## Residual bits -/

/-- A mantissa with its residual bits stands for a fraction, as far as rounding has to know it. -/
structure Describes (em : ExtendedMantissa) (num den : Nat) : Prop where
  mantissa : em.mantissa = num / den
  roundBit : em.roundBit = decide (den ≤ 2 * (num % den))
  stickyBit : em.stickyBit = decide (num % den ≠ 0 ∧ 2 * (num % den) ≠ den)

theorem describes_exact (m : Nat) : Describes (.ofMantissaAndAccuracy (m / 1) .exact) m 1 := by
  constructor <;> simp [ExtendedMantissa.ofMantissaAndAccuracy, Nat.mod_one]

theorem describes_fraction (num : Nat) {den : Nat} (hden : 0 < den) :
    Describes (.ofMantissaAndAccuracy (num / den) (accuracyOfFraction (num % den) den)) num den := by
  have hmod := Nat.mod_lt num hden
  unfold accuracyOfFraction
  split
  · constructor <;> simp [ExtendedMantissa.ofMantissaAndAccuracy] <;> omega
  · rcases lt_trichotomy (2 * (num % den)) den with hlt | heq | hgt
    · rw [Nat.compare_eq_lt.2 hlt]
      constructor <;> simp [ExtendedMantissa.ofMantissaAndAccuracy] <;> omega
    · rw [Nat.compare_eq_eq.2 heq]
      constructor <;> simp [ExtendedMantissa.ofMantissaAndAccuracy] <;> omega
    · rw [Nat.compare_eq_gt.2 hgt]
      constructor <;> simp [ExtendedMantissa.ofMantissaAndAccuracy] <;> omega

/-- A shift to the right halves the fraction. -/
theorem Describes.shiftRightOne {em : ExtendedMantissa} {num den : Nat} (hden : 0 < den)
    (h : Describes em num den) : Describes em.shiftRightOne num (den * 2) := by
  have hmod : num % (den * 2) = num % den + den * (num / den % 2) := Nat.mod_mul
  have hlt := Nat.mod_lt num hden
  have hbit : num / den % 2 = 0 ∨ num / den % 2 = 1 := by omega
  constructor
  · simp only [ExtendedMantissa.shiftRightOne, h.mantissa, Nat.div_div_eq_div_mul]
  · simp only [ExtendedMantissa.shiftRightOne, h.mantissa, hmod]
    rcases hbit with hbit | hbit <;> simp [hbit] <;> omega
  · simp only [ExtendedMantissa.shiftRightOne, h.roundBit, h.stickyBit, hmod, ← Bool.decide_or]
    rcases hbit with hbit | hbit <;> rw [hbit] <;> congr 1 <;> apply propext <;> omega

theorem Describes.shiftRight {em : ExtendedMantissa} {num den : Nat} (hden : 0 < den)
    (h : Describes em num den) (k : Nat) : Describes (em >>> k) num (den * 2 ^ k) := by
  induction k with
  | zero =>
      rw [Nat.pow_zero, Nat.mul_one]
      exact h
  | succ k ih =>
      rw [Nat.pow_succ, ← Nat.mul_assoc]
      exact ih.shiftRightOne (by positivity)

theorem Describes.roundedMantissa {em : ExtendedMantissa} {num den : Nat} (hden : 0 < den)
    (h : Describes em num den) : em.roundedMantissa = nearestEven num den := by
  rcases em with ⟨m, roundBit, stickyBit⟩
  rcases h with ⟨rfl, hround, hsticky⟩
  simp only at hround hsticky
  unfold nearestEven
  cases roundBit <;> cases stickyBit <;> symm at hround hsticky <;>
    simp only [decide_eq_true_eq, decide_eq_false_iff_not] at hround hsticky <;>
    simp only [ExtendedMantissa.roundedMantissa, ExtendedMantissa.accuracy,
      Accuracy.roundToNearestEven] <;>
    split_ifs <;> omega

/-! ## Exponents of results -/

/-- The exponent at which the number has a mantissa of 53 bits, unless that is below the least one. -/
def targetOf (m : Nat) (e : Int) : Int :=
  max (m.log2 + 1 + e - 53) (-1074)

theorem targetExponent_eq (m : Nat) (e : Int) :
    Format.targetExponent .binary64 (Float.Model.totalExponent m e) = targetOf m e := rfl

theorem log2_le_of_lt {m k : Nat} (h : m < 2 ^ (k + 1)) : m.log2 ≤ k := by
  by_cases hzero : m = 0
  · simp [hzero]
  · exact Nat.lt_succ_iff.1 ((Nat.log2_lt hzero).2 h)

theorem log2_mul_two_pow {m : Nat} (hm : 0 < m) (j : Nat) : (m * 2 ^ j).log2 = m.log2 + j := by
  rw [Nat.log2_eq_iff (Nat.mul_pos hm (by positivity)).ne']
  constructor
  · rw [Nat.pow_add]
    exact Nat.mul_le_mul_right _ (Nat.log2_self_le hm.ne')
  · rw [Nat.add_right_comm, Nat.pow_add]
    exact Nat.mul_lt_mul_of_pos_right Nat.lt_log2_self (by positivity)

/-- What fits a float stays at its exponent. -/
theorem targetOf_of_fits {m : Nat} {e : Int} (h : Fits m e) : targetOf m e = e := by
  have hlog := log2_le_of_lt (k := 52) h.lt
  have hleast := h.least
  rw [targetOf]
  rcases h.full with hfull | hmin
  · have hbits := (log2_eq_iff_full h.pos h.lt).2 hfull
    omega
  · omega

theorem shiftToTargetExponent_eq (m : Nat) (e : Int) (acc : Accuracy) (he : e ≤ targetOf m e) :
    shiftToTargetExponent .binary64 m e acc =
      (ExtendedMantissa.ofMantissaAndAccuracy m acc >>> (targetOf m e - e).toNat, targetOf m e) := by
  have hend : e + (targetOf m e - e).toNat = targetOf m e := by omega
  rw [shiftToTargetExponent, targetExponent_eq, shiftToExponent, hend]

/-- A second shift takes away the bit that rounding may have added. -/
theorem shiftToTargetExponent_rounded {q : Nat} {t : Int} (hq : q ≤ 2 ^ 53) (ht : -1074 ≤ t) :
    shiftToTargetExponent .binary64 q t .exact =
      if q = 2 ^ 53 then (⟨2 ^ 52, false, false⟩, t + 1) else (⟨q, false, false⟩, t) := by
  split
  · rename_i hcarry
    subst hcarry
    have hlog : (2 ^ 53 : Nat).log2 = 53 := Nat.log2_two_pow
    have htarget : targetOf (2 ^ 53) t = t + 1 := by
      rw [targetOf, hlog]
      omega
    have hone : (t + 1 - t).toNat = 1 := by omega
    rw [shiftToTargetExponent_eq _ _ _ (by omega), htarget, hone]
    rfl
  · have hlog := log2_le_of_lt (m := q) (k := 52) (by omega)
    have hshift : (targetOf q t - t).toNat = 0 := by
      rw [targetOf]
      omega
    rw [shiftToTargetExponent, targetExponent_eq, shiftToExponent, hshift]
    simp
    rfl

/-! ## Rounded results -/

/-- The parts with a mantissa as rounding gives it, which may have one bit too many. -/
def carried (s : Sign) (q : Nat) (t : Int) : UnpackedFloat :=
  if h : q = 0 then .zero s
  else if q = 2 ^ 53 then .finite s (2 ^ 52) (t + 1) (by decide)
  else .finite s q t (Nat.pos_of_ne_zero h)

/-- What is rounded to is zero or fits a float. -/
theorem carried_cases (s : Sign) {q : Nat} {t : Int} (hq : q ≤ 2 ^ 53) (ht : -1074 ≤ t)
    (hfull : 2 ^ 52 ≤ q ∨ t = -1074) :
    carried s q t = .zero s ∧ q = 0 ∨
      ∃ m e, ∃ h : Fits m e, carried s q t = .finite s m e h.pos ∧
        (m = q ∧ e = t ∨ m = 2 ^ 52 ∧ e = t + 1 ∧ q = 2 ^ 53) := by
  unfold carried
  split
  · rename_i hzero
    exact .inl ⟨rfl, hzero⟩
  · rename_i hzero
    split
    · rename_i hcarry
      exact .inr ⟨2 ^ 52, t + 1, ⟨by decide, by decide, by omega, .inl (Nat.le_refl _)⟩, rfl,
        .inr ⟨rfl, rfl, hcarry⟩⟩
    · exact .inr ⟨q, t, ⟨by omega, by omega, ht, hfull⟩, rfl, .inl ⟨rfl, rfl⟩⟩

variable {num den : Nat} {e : Int}

/-- How many bits the mantissa keeps. -/
theorem div_target_bounds (he : e ≤ targetOf (num / den) e) :
    num / (den * 2 ^ (targetOf (num / den) e - e).toNat) < 2 ^ 53 ∧
      (2 ^ 52 ≤ num / (den * 2 ^ (targetOf (num / den) e - e).toNat) ∨
        targetOf (num / den) e = -1074) := by
  rw [← Nat.div_div_eq_div_mul]
  generalize num / den = m at *
  have hlt : m < 2 ^ (m.log2 + 1) := Nat.lt_log2_self
  constructor
  · rw [Nat.div_lt_iff_lt_mul (by positivity), ← Nat.pow_add]
    refine hlt.trans_le (Nat.pow_le_pow_right (by omega) ?_)
    rw [targetOf]
    omega
  · by_cases hleast : targetOf m e = -1074
    · exact .inr hleast
    · left
      have htarget : targetOf m e = m.log2 + 1 + e - 53 := by
        rw [targetOf] at hleast ⊢
        omega
      have hshift : 52 + (targetOf m e - e).toNat = m.log2 := by omega
      have hpos : m ≠ 0 := by
        rintro rfl
        simp at hshift
      rw [Nat.le_div_iff_mul_le (by positivity), ← Nat.pow_add, hshift]
      exact Nat.log2_self_le hpos

/-- Rounding gives the mantissa nearest to the fraction at the exponent of the result. -/
theorem roundWithAccuracy_eq {acc : Accuracy} (s : Sign) (hden : 0 < den)
    (hdescribes : Describes (.ofMantissaAndAccuracy (num / den) acc) num den)
    (he : e ≤ targetOf (num / den) e) :
    roundWithAccuracy .binary64 s (num / den) e acc =
      carried s (nearestEven num (den * 2 ^ (targetOf (num / den) e - e).toNat))
        (targetOf (num / den) e) := by
  have hbounds := div_target_bounds he
  have hnear := nearestEven_bounds num (den * 2 ^ (targetOf (num / den) e - e).toNat)
  have hleast : -1074 ≤ targetOf (num / den) e := le_max_right _ _
  have hrounded := (hdescribes.shiftRight hden (targetOf (num / den) e - e).toNat).roundedMantissa
    (by positivity)
  have hq : nearestEven num (den * 2 ^ (targetOf (num / den) e - e).toNat) ≤ 2 ^ 53 := by omega
  rw [carried]
  simp only [roundWithAccuracy, shiftToTargetExponent_eq _ _ _ he, hrounded,
    shiftToTargetExponent_rounded hq hleast]
  split_ifs <;> simp_all

/-- What fits a float is not rounded. -/
theorem roundWithAccuracy_exact {m : Nat} (h : Fits m e) (s : Sign) (j : Nat) :
    roundWithAccuracy .binary64 s (m * 2 ^ j) (e - j) .exact = .finite s m e h.pos := by
  have htarget : targetOf (m * 2 ^ j) (e - j) = e := by
    have hsame : targetOf (m * 2 ^ j) (e - j) = targetOf m e := by
      rw [targetOf, targetOf, log2_mul_two_pow h.pos]
      omega
    rw [hsame, targetOf_of_fits h]
  have hround := roundWithAccuracy_eq s one_pos (describes_exact (m * 2 ^ j))
    (show e - j ≤ targetOf (m * 2 ^ j / 1) (e - j) by rw [Nat.div_one, htarget]; omega)
  have hshift : (e - (e - j)).toNat = j := by omega
  have hlt := h.lt
  have hpos := h.pos
  rw [Nat.div_one, htarget, hshift, Nat.one_mul, nearestEven_mul m (by positivity)] at hround
  rw [hround, carried, dif_neg (by omega), if_neg (by omega)]

/-! ## Bounds -/

/-- A number with a plus. -/
def isUnsigned : UnpackedFloat → Bool
  | .infinity .positive | .zero .positive | .finite .positive .. => true
  | _ => false

theorem cases_of_isUnsigned {u : UnpackedFloat} (h : isUnsigned u) :
    u = .infinity .positive ∨ u = .zero .positive ∨ ∃ m e hm, u = .finite .positive m e hm := by
  unfold isUnsigned at h
  split at h
  · exact .inl rfl
  · exact .inr (.inl rfl)
  · exact .inr (.inr ⟨_, _, _, rfl⟩)
  · cases h

/-- A mantissa and an exponent as those of floats are, or zero at the least exponent. -/
structure Bound (M : Nat) (t : Int) : Prop where
  lt : M < 2 ^ 53
  least : -1074 ≤ t
  full : 2 ^ 52 ≤ M ∨ t = -1074

theorem Fits.bound {m : Nat} {e : Int} (h : Fits m e) : Bound m e :=
  ⟨h.lt, h.least, h.full⟩

/-- The number is greater than the mantissa at its exponent. -/
def Passes (u : UnpackedFloat) (M : Nat) (t : Int) : Prop :=
  u = .infinity .positive ∨ ∃ m e h, u = .finite .positive m e h ∧ (t < e ∨ t = e ∧ M < m)

/-- The number is beyond half a unit behind the mantissa, or just there if the mantissa is odd. -/
def Beyond (v : ℚ) (M : Nat) (t : Int) : Prop :=
  (2 * M + 1) * (2 : ℚ) ^ t < 2 * v ∨ M % 2 = 1 ∧ (2 * M + 1) * (2 : ℚ) ^ t = 2 * v

/-- The float stands for the number: it passes a bound just if the number does so by more than half a
unit, or by half a unit where the bound is odd. -/
structure RoundsTo (v : ℚ) (x : Float) : Prop where
  unsigned : isUnsigned (parts x)
  passes_iff : ∀ {M : Nat} {t : Int}, Bound M t → t ≤ 971 → (Passes (parts x) M t ↔ Beyond v M t)

/-- Bounds with an even mantissa are passed by more than half a unit. -/
theorem RoundsTo.lt_iff {v : ℚ} {x : Float} (hx : RoundsTo v x) {M : Nat} {t : Int} (h : Fits M t)
    (hle : t ≤ 971) (heven : M % 2 = 0) :
    (UnpackedFloat.finite .positive M t h.pos).lt (parts x) = true ↔
      (2 * M + 1) * (2 : ℚ) ^ t < 2 * v := by
  have hpasses := hx.passes_iff h.bound hle
  rw [lt_iff_of_finite]
  simpa [Passes, Beyond, heven] using hpasses

/-- A bound is passed at a greater exponent, or at its own by a greater mantissa. -/
theorem passes_carried_iff {M q : Nat} {t₀ t : Int} (hM : Bound M t₀) (hle : t₀ ≤ 971)
    (hq : q ≤ 2 ^ 53) (ht : -1074 ≤ t) (hfull : 2 ^ 52 ≤ q ∨ t = -1074) :
    Passes (parts (ofParts (carried .positive q t))) M t₀ ↔ t₀ < t ∨ t₀ = t ∧ M < q := by
  have hlt := hM.lt
  have hleast := hM.least
  have hfullM := hM.full
  unfold Passes
  rcases carried_cases .positive hq ht hfull with ⟨h, hzero⟩ | ⟨m, e, hfits, h, hcases⟩
  · have hparts : parts (ofParts (.zero .positive)) = .zero .positive := rfl
    rw [h, hparts]
    simp
    omega
  · rw [h, parts_ofParts_finite hfits]
    split
    · simp
      omega
    · simp [hfits.pos]
      omega

theorem isUnsigned_carried {q : Nat} {t : Int} (hq : q ≤ 2 ^ 53) (ht : -1074 ≤ t)
    (hfull : 2 ^ 52 ≤ q ∨ t = -1074) : isUnsigned (parts (ofParts (carried .positive q t))) := by
  rcases carried_cases .positive hq ht hfull with ⟨h, -⟩ | ⟨m, e, hfits, h, -⟩
  · rw [h]
    rfl
  · rw [h, parts_ofParts_finite hfits]
    split <;> rfl

/-- At the exponent of the result the mantissa passes a bound as the number does; at a greater exponent
both pass it, and at a less one neither does. -/
theorem lt_nearest_iff {M d : Nat} {t₀ t : Int} (hM : Bound M t₀) (hd : 0 < d)
    (ht : -1074 ≤ t) (hbits : num / d < 2 ^ 53) (hfull : 2 ^ 52 ≤ num / d ∨ t = -1074) :
    t₀ < t ∨ t₀ = t ∧ M < nearestEven num d ↔ Beyond (num / d * 2 ^ t) M t₀ := by
  have hleast := hM.least
  have hdpos : (0 : ℚ) < d := by exact_mod_cast hd
  have hpow : ∀ k : Int, (0 : ℚ) < 2 ^ k := fun k => zpow_pos (by norm_num) k
  rcases lt_trichotomy t₀ t with hlt | rfl | hgt
  · -- the exponent is not the least one, so that the mantissa has all its bits
    refine iff_of_true (.inl hlt) (.inl ?_)
    have hhigh : (2 ^ 52 : ℚ) ≤ num / d := by
      rw [le_div_iff₀ hdpos]
      exact_mod_cast (Nat.le_div_iff_mul_le hd).1 (by omega)
    have hstep : (2 : ℚ) * 2 ^ t₀ ≤ 2 ^ t := by
      rw [← zpow_one_add₀ (by norm_num)]
      exact zpow_le_zpow_right₀ (by norm_num) (by omega)
    have hMlt : (M : ℚ) + 1 ≤ 2 ^ 53 := by exact_mod_cast hM.lt
    have hpos := hpow t₀
    calc (2 * M + 1) * (2 : ℚ) ^ t₀ < 2 ^ 54 * 2 ^ t₀ := by
          apply mul_lt_mul_of_pos_right _ hpos
          linarith
      _ = 2 * (2 ^ 52 * (2 * 2 ^ t₀)) := by ring
      _ ≤ 2 * (num / d * 2 ^ t) := by gcongr
  · have hassoc : 2 * ((num : ℚ) / d * 2 ^ t₀) = 2 * num / d * 2 ^ t₀ := by ring
    simp only [lt_irrefl, false_or, true_and, Beyond]
    rw [lt_nearestEven_iff hd, hassoc, mul_lt_mul_iff_left₀ (hpow t₀), lt_div_iff₀ hdpos,
      mul_left_inj' (hpow t₀).ne', eq_div_iff hdpos.ne']
    exact_mod_cast Iff.rfl
  · -- now the bound has all its bits
    have hMge : (2 ^ 52 : ℚ) ≤ M := by
      have hfullM := hM.full
      exact_mod_cast (by omega : 2 ^ 52 ≤ M)
    have hlow : (num / d : ℚ) < 2 ^ 53 := by
      rw [div_lt_iff₀ hdpos]
      exact_mod_cast (Nat.div_lt_iff_lt_mul hd).1 hbits
    have hstep : (2 : ℚ) * 2 ^ t ≤ 2 ^ t₀ := by
      rw [← zpow_one_add₀ (by norm_num)]
      exact zpow_le_zpow_right₀ (by norm_num) (by omega)
    have hpos := hpow t
    have hbelow : 2 * ((num : ℚ) / d * 2 ^ t) < (2 * M + 1) * 2 ^ t₀ :=
      calc 2 * ((num : ℚ) / d * 2 ^ t) < 2 * (2 ^ 53 * 2 ^ t) := by gcongr
        _ = 2 ^ 53 * (2 * 2 ^ t) := by ring
        _ ≤ (2 * M + 1) * 2 ^ t₀ := by
            gcongr
            linarith
    refine iff_of_false (by omega) ?_
    rintro (hless | ⟨-, heq⟩)
    · exact hbelow.not_gt hless
    · exact hbelow.ne' heq

theorem roundsTo_round {acc : Accuracy} (hden : 0 < den)
    (hdescribes : Describes (.ofMantissaAndAccuracy (num / den) acc) num den)
    (he : e ≤ targetOf (num / den) e) :
    RoundsTo (num / den * 2 ^ e)
      (ofParts (roundWithAccuracy .binary64 .positive (num / den) e acc)) := by
  have hbounds := div_target_bounds he
  have hnear := nearestEven_bounds num (den * 2 ^ (targetOf (num / den) e - e).toNat)
  have hleast : -1074 ≤ targetOf (num / den) e := le_max_right _ _
  have hvalue : (num / den * 2 ^ e : ℚ) =
      num / (den * 2 ^ (targetOf (num / den) e - e).toNat : Nat) * 2 ^ targetOf (num / den) e := by
    have hexponent : targetOf (num / den) e = e + (targetOf (num / den) e - e).toNat := by omega
    generalize (targetOf (num / den) e - e).toNat = k at hexponent ⊢
    rw [hexponent, zpow_add₀ (by norm_num), zpow_natCast]
    push_cast
    field_simp
  rw [roundWithAccuracy_eq .positive hden hdescribes he, hvalue]
  constructor
  · exact isUnsigned_carried (by omega) hleast (by omega)
  · intro M t₀ hM hle
    rw [passes_carried_iff hM hle (by omega) hleast (by omega)]
    exact lt_nearest_iff hM (by positivity) hleast hbounds.1 hbounds.2

theorem roundsTo_zero {v : ℚ} (hv : 2 * v ≤ 2 ^ (-1074 : Int)) : RoundsTo v 0.0 where
  unsigned := rfl
  passes_iff := by
    intro M t h hle
    have hzero : parts 0.0 = .zero .positive := rfl
    have hpos : (0 : ℚ) < 2 ^ t := zpow_pos (by norm_num) t
    have hstep : (2 : ℚ) ^ (-1074 : Int) ≤ 2 ^ t := zpow_le_zpow_right₀ (by norm_num) h.least
    rw [hzero]
    refine iff_of_false (by simp [Passes]) ?_
    rintro (hless | ⟨hodd, heq⟩)
    · have hM : (1 : ℚ) * 2 ^ t ≤ (2 * M + 1) * 2 ^ t := by
        gcongr
        exact_mod_cast (by omega : 1 ≤ 2 * M + 1)
      linarith
    · have hM : (3 : ℚ) * 2 ^ t ≤ (2 * M + 1) * 2 ^ t := by
        gcongr
        exact_mod_cast (by omega : 3 ≤ 2 * M + 1)
      linarith

/-! ## Products and quotients -/

variable {m₁ m₂ : Nat} {e₁ e₂ : Int}

theorem roundsTo_mul (e₁ e₂ : Int) (h₁ : 0 < m₁) (h₂ : 0 < m₂) (hbits : 2 ^ 52 ≤ m₁ * m₂) :
    RoundsTo (m₁ * 2 ^ e₁ * (m₂ * 2 ^ e₂))
      (ofParts (.mul .binary64 (.finite .positive m₁ e₁ h₁) (.finite .positive m₂ e₂ h₂))) := by
  -- the product has enough bits, so that it is only shifted to the right
  have hlog : 52 ≤ (m₁ * m₂).log2 := (Nat.le_log2 (by omega)).2 hbits
  have hvalue : (m₁ * 2 ^ e₁ * (m₂ * 2 ^ e₂) : ℚ) = (m₁ * m₂ : Nat) / (1 : Nat) * 2 ^ (e₁ + e₂) := by
    rw [zpow_add₀ (by norm_num)]
    push_cast
    ring
  have hround := roundsTo_round one_pos (describes_exact (m₁ * m₂))
    (show e₁ + e₂ ≤ targetOf (m₁ * m₂ / 1) (e₁ + e₂) by rw [Nat.div_one, targetOf]; omega)
  rw [Nat.div_one] at hround
  rw [hvalue]
  exact hround

/-- The quotient of the mantissas gets enough bits. -/
theorem le_targetOf_quotient (h₁ : 0 < m₁) (h₂ : 0 < m₂) {t : Int} {k : Nat} (hk : e₁ - e₂ = t + k)
    (ht : t ≤ max (m₁.log2 + 1 + e₁ - (m₂.log2 + 1 + e₂) - 53) (-1074)) :
    t ≤ targetOf (m₁ * 2 ^ k / m₂) t := by
  rcases le_max_iff.1 ht with hbits | hleast
  · have hsum : m₂.log2 + 53 ≤ m₁.log2 + k := by omega
    have hnum : m₂ * 2 ^ 52 ≤ m₁ * 2 ^ k :=
      calc m₂ * 2 ^ 52 ≤ 2 ^ (m₂.log2 + 1) * 2 ^ 52 := Nat.mul_le_mul_right _ Nat.lt_log2_self.le
        _ = 2 ^ (m₂.log2 + 53) := by rw [← Nat.pow_add]
        _ ≤ 2 ^ (m₁.log2 + k) := Nat.pow_le_pow_right (by omega) hsum
        _ = 2 ^ m₁.log2 * 2 ^ k := Nat.pow_add ..
        _ ≤ m₁ * 2 ^ k := Nat.mul_le_mul_right _ (Nat.log2_self_le (by omega))
    have hquotient : 2 ^ 52 ≤ m₁ * 2 ^ k / m₂ := by
      rw [Nat.le_div_iff_mul_le h₂, Nat.mul_comm]
      exact hnum
    have hlog := (Nat.le_log2 (by omega)).2 hquotient
    rw [targetOf]
    omega
  · exact hleast.trans (le_max_right _ _)

theorem roundsTo_div (e₁ e₂ : Int) (h₁ : 0 < m₁) (h₂ : 0 < m₂) :
    RoundsTo (m₁ * 2 ^ e₁ / (m₂ * 2 ^ e₂))
      (ofParts (.div .binary64 (.finite .positive m₁ e₁ h₁) (.finite .positive m₂ e₂ h₂))) := by
  -- the exponent of the quotient before rounding, and how far the numerator is shifted for it
  let t := min (e₁ - e₂) (max (m₁.log2 + 1 + e₁ - (m₂.log2 + 1 + e₂) - 53) (-1074))
  let k := (e₁ - e₂ - t).toNat
  have hk : e₁ - e₂ = t + k := by omega
  have hround := roundsTo_round (e := t) h₂ (describes_fraction (m₁ * 2 ^ k) h₂)
    (le_targetOf_quotient h₁ h₂ hk (min_le_right _ _))
  have hvalue : (m₁ * 2 ^ e₁ / (m₂ * 2 ^ e₂) : ℚ) = (m₁ * 2 ^ k : Nat) / m₂ * 2 ^ t := by
    have he : e₁ = t + k + e₂ := by omega
    have hpow : (2 : ℚ) ^ e₂ ≠ 0 := zpow_ne_zero _ (by norm_num)
    rw [he, zpow_add₀ (by norm_num), zpow_add₀ (by norm_num), zpow_natCast]
    push_cast
    field_simp
  have hquotient : UnpackedFloat.div .binary64 (.finite .positive m₁ e₁ h₁)
      (.finite .positive m₂ e₂ h₂) =
        roundWithAccuracy .binary64 .positive (m₁ * 2 ^ k / m₂) t
          (accuracyOfFraction (m₁ * 2 ^ k % m₂) m₂) := by
    rw [← Nat.shiftLeft_eq]
    rfl
  rw [hvalue, hquotient]
  exact hround

/-! ## What is exact -/

theorem one_mul_float (x : Float) : 1.0 * x = x := by
  have hone : parts 1.0 = .finite .positive (2 ^ 52) (-52) (by decide) := rfl
  have hsign : ∀ s : Sign, .positive * s = s := by
    intro s
    cases s <;> rfl
  have hmul : UnpackedFloat.mul .binary64 (parts 1.0) (parts x) = parts x := by
    rw [hone]
    cases hx : parts x with
    | infinity s => exact congrArg UnpackedFloat.infinity (hsign s)
    | notANumber => rfl
    | zero s => exact congrArg UnpackedFloat.zero (hsign s)
    | finite s m e hm =>
        have hexact := roundWithAccuracy_exact (fits_of_parts hx) s 52
        have he : -52 + e = e - (52 : Nat) := by omega
        rw [UnpackedFloat.mul, hsign, Nat.mul_comm, he]
        exact hexact
  rw [mul_eq_ofParts, hmul, ofParts_parts]

theorem mul_comm_float (x y : Float) : x * y = y * x := by
  have hsign : ∀ s t : Sign, s * t = t * s := by
    intro s t
    cases s <;> cases t <;> rfl
  rw [mul_eq_ofParts, mul_eq_ofParts]
  cases parts x <;> cases parts y <;>
    simp only [UnpackedFloat.mul, hsign, Nat.mul_comm, Int.add_comm]

theorem mul_one_float (x : Float) : x * 1.0 = x := by
  rw [mul_comm_float, one_mul_float]

theorem zero_add_float {x : Float} (hx : isUnsigned (parts x)) : 0.0 + x = x := by
  have hzero : parts 0.0 = .zero .positive := rfl
  have hadd : UnpackedFloat.add .binary64 (parts 0.0) (parts x) = parts x := by
    rw [hzero]
    rcases cases_of_isUnsigned hx with h | h | ⟨m, e, hm, h⟩ <;> rw [h] <;> rfl
  rw [add_eq_ofParts, hadd, ofParts_parts]

theorem abs_float {x : Float} (hx : isUnsigned (parts x)) : x.abs = x := by
  have habs : (parts x).abs = parts x := by
    rcases cases_of_isUnsigned hx with h | h | ⟨m, e, hm, h⟩ <;> rw [h] <;> rfl
  rw [abs_eq_ofParts, habs, ofParts_parts]

end Binary64

end SeriesQuery
