import SeriesQuery.Number.Shortest
import SeriesQuery.Proofs.Rounding

/-!
# Shortest digits stand for their float

The search for the digits of a float ends with a decimal in the interval of the numbers that are
rounded to the float (`holds_shortest`): at seventeen digits the grid is so fine that one of the two
grid points beside the float is in the interval.  So what rounds the decimal gives the float again
(`eq_of_roundsTo_shortest`).
-/

namespace SeriesQuery

open Float.Model (UnpackedFloat Format)

namespace Binary64

/-! ## Floats between bounds -/

/-- The greatest float below the float with this mantissa and exponent. -/
def previous (m : Nat) (e : Int) : Nat × Int :=
  if m = 2 ^ 52 ∧ -1074 < e then (2 ^ 53 - 1, e - 1) else (m - 1, e)

theorem bound_previous {m : Nat} {e : Int} (h : Fits m e) :
    Bound (previous m e).1 (previous m e).2 := by
  have hpos := h.pos
  have hlt := h.lt
  have hleast := h.least
  have hfull := h.full
  unfold previous
  split
  · exact ⟨by norm_num, by simp; omega, .inl (by norm_num)⟩
  · exact ⟨by simp; omega, by simpa using hleast, by simp; omega⟩

/-- A float that passes the one before and not the float itself is that float. -/
theorem eq_of_passes {m : Nat} {e : Int} (h : Fits m e) {x : Float} (hunsigned : isUnsigned (parts x))
    (hprevious : Passes (parts x) (previous m e).1 (previous m e).2) (hself : ¬Passes (parts x) m e) :
    parts x = .finite .positive m e h.pos := by
  rcases cases_of_isUnsigned hunsigned with hx | hx | ⟨m', e', hpos, hx⟩
  · exact absurd (.inl hx) hself
  · rw [hx] at hprevious
    simp [Passes] at hprevious
  · have hfits := fits_of_parts hx
    have hlt := hfits.lt
    have hfull := hfits.full
    have hsame : m' = m ∧ e' = e := by
      rw [hx] at hself hprevious
      simp only [Passes, reduceCtorEq, UnpackedFloat.finite.injEq, true_and, false_or, previous]
        at hself hprevious
      rcases hprevious with ⟨_, _, _, ⟨rfl, rfl⟩, hprevious⟩
      have hnot : ¬(e < e' ∨ e = e' ∧ m < m') := fun hpasses =>
        hself ⟨m', e', hpos, ⟨rfl, rfl⟩, hpasses⟩
      split at hprevious <;> simp only at hprevious <;> omega
    rw [hx]
    simp only [hsame]

/-- What is rounded to the float, as far as the bounds around it tell. -/
theorem eq_of_roundsTo {m : Nat} {e : Int} (h : Fits m e) (he : e ≤ 971) {v : ℚ} {x : Float}
    (hx : RoundsTo v x) (hprevious : Beyond v (previous m e).1 (previous m e).2)
    (hself : ¬Beyond v m e) : parts x = .finite .positive m e h.pos := by
  have hexponent : (previous m e).2 ≤ 971 := by
    unfold previous
    split <;> simp <;> omega
  refine eq_of_passes h hx.unsigned ?_ ?_
  · exact (hx.passes_iff (bound_previous h) hexponent).2 hprevious
  · exact fun hpasses => hself ((hx.passes_iff h.bound he).1 hpasses)

end Binary64

namespace Interval

open Binary64

/-! ## Intervals of rational numbers -/

theorem zpow_eq_div (b : ℚ) (z : Int) : b ^ z = b ^ z.toNat / b ^ (-z).toNat := by
  rcases Int.le_total 0 z with hpos | hneg
  · have hzero : (-z).toNat = 0 := by omega
    have hz : z = z.toNat := by omega
    rw [hzero, pow_zero, div_one]
    exact hz ▸ zpow_natCast b z.toNat
  · have hzero : z.toNat = 0 := by omega
    have hz : z = -((-z).toNat : Int) := by omega
    rw [hzero, pow_zero, one_div]
    generalize (-z).toNat = k at hz
    rw [hz, zpow_neg, zpow_natCast]

variable {negative : Bool} {m : Nat} {e scale : Int} {n : Nat}

/-- How far below the float its interval goes, in quarters of a unit. -/
def below (m : Nat) (e : Int) : Nat :=
  if m = 2 ^ 52 ∧ -1074 < e then 1 else 2

theorem inUnits_ofBinary (negative : Bool) (m : Nat) (e scale : Int) :
    (ofBinary ⟨negative, m, e⟩).inUnits scale =
      { low := (4 * m - below m e) * 2 ^ e.toNat * 10 ^ (-scale).toNat
        value := 4 * m * 2 ^ e.toNat * 10 ^ (-scale).toNat
        high := (4 * m + 2) * 2 ^ e.toNat * 10 ^ (-scale).toNat
        denominator := 4 * 2 ^ (-e).toNat * 10 ^ scale.toNat
        closed := m % 2 = 0 } := by
  simp [ofBinary, inUnits, below]

/-- What a numerator over the denominator stands for, in units of the power of ten. -/
theorem cast_inUnits (a : Nat) (e scale : Int) :
    ((a * 2 ^ e.toNat * 10 ^ (-scale).toNat : Nat) : ℚ) =
      a * 2 ^ e / (4 * 10 ^ scale) * (4 * 2 ^ (-e).toNat * 10 ^ scale.toNat : Nat) := by
  rw [zpow_eq_div 2 e, zpow_eq_div 10 scale]
  push_cast
  field_simp

section Compare

variable {a : Nat}

theorem denominator_pos (e scale : Int) :
    (0 : ℚ) < (4 * 2 ^ (-e).toNat * 10 ^ scale.toNat : Nat) := by
  exact_mod_cast (by positivity : 0 < 4 * 2 ^ (-e).toNat * 10 ^ scale.toNat)

theorem le_mul_denominator_iff :
    a * 2 ^ e.toNat * 10 ^ (-scale).toNat ≤ n * (4 * 2 ^ (-e).toNat * 10 ^ scale.toNat) ↔
      (a * 2 ^ e : ℚ) ≤ 4 * (n * 10 ^ scale) := by
  have hscale : (0 : ℚ) < 10 ^ scale := zpow_pos (by norm_num) scale
  rw [← Nat.cast_le (α := ℚ), Nat.cast_mul n, cast_inUnits,
    mul_le_mul_iff_left₀ (denominator_pos e scale), div_le_iff₀ (by positivity), mul_left_comm]

theorem mul_denominator_le_iff :
    n * (4 * 2 ^ (-e).toNat * 10 ^ scale.toNat) ≤ a * 2 ^ e.toNat * 10 ^ (-scale).toNat ↔
      4 * (n * 10 ^ scale) ≤ (a * 2 ^ e : ℚ) := by
  have hscale : (0 : ℚ) < 10 ^ scale := zpow_pos (by norm_num) scale
  rw [← Nat.cast_le (α := ℚ), Nat.cast_mul n, cast_inUnits,
    mul_le_mul_iff_left₀ (denominator_pos e scale), le_div_iff₀ (by positivity), mul_left_comm]

theorem lt_mul_denominator_iff :
    a * 2 ^ e.toNat * 10 ^ (-scale).toNat < n * (4 * 2 ^ (-e).toNat * 10 ^ scale.toNat) ↔
      (a * 2 ^ e : ℚ) < 4 * (n * 10 ^ scale) := by
  rw [← not_le, mul_denominator_le_iff, not_le]

theorem mul_denominator_lt_iff :
    n * (4 * 2 ^ (-e).toNat * 10 ^ scale.toNat) < a * 2 ^ e.toNat * 10 ^ (-scale).toNat ↔
      4 * (n * 10 ^ scale) < (a * 2 ^ e : ℚ) := by
  rw [← not_le, le_mul_denominator_iff, not_le]

end Compare

/-- The interval in quarters of a unit; its ends belong to it if the mantissa is even. -/
theorem holds_iff : ((ofBinary ⟨negative, m, e⟩).inUnits scale).holds n ↔
    if m % 2 = 0 then
      ((4 * m - below m e : Nat) * 2 ^ e : ℚ) ≤ 4 * (n * 10 ^ scale) ∧
        4 * (n * 10 ^ scale) ≤ ((4 * m + 2 : Nat) * 2 ^ e : ℚ)
    else
      ((4 * m - below m e : Nat) * 2 ^ e : ℚ) < 4 * (n * 10 ^ scale) ∧
        4 * (n * 10 ^ scale) < ((4 * m + 2 : Nat) * 2 ^ e : ℚ) := by
  rw [inUnits_ofBinary, holds]
  simp only [← le_mul_denominator_iff, ← mul_denominator_le_iff, ← lt_mul_denominator_iff,
    ← mul_denominator_lt_iff, decide_eq_true_eq]
  split <;> simp

/-- The interval starts half a unit behind the float before. -/
theorem low_eq (hpos : 0 < m) : ((4 * m - below m e : Nat) * 2 ^ e : ℚ) =
    2 * ((2 * (previous m e).1 + 1) * 2 ^ (previous m e).2) := by
  unfold below previous
  split
  · have hm : 4 * m - 1 = 2 * (2 ^ 53 - 1) + 1 := by omega
    have hhalf : (2 : ℚ) ^ e = 2 * 2 ^ (e - 1) := by
      rw [← zpow_one_add₀ (by norm_num)]
      congr 1
      omega
    rw [hm, hhalf]
    generalize 2 ^ 53 - 1 = top
    push_cast
    ring
  · have hm : 4 * m - 2 = 2 * (2 * (m - 1) + 1) := by omega
    rw [hm]
    push_cast
    ring

theorem odd_previous_iff (hpos : 0 < m) : (previous m e).1 % 2 = 1 ↔ m % 2 = 0 := by
  unfold previous
  split <;> dsimp only <;> omega

/-- What lies in the interval is rounded to the float. -/
theorem beyond_of_holds (h : Fits m e)
    (hn : ((ofBinary ⟨negative, m, e⟩).inUnits scale).holds n) :
    Beyond (n * 10 ^ scale) (previous m e).1 (previous m e).2 ∧ ¬Beyond (n * 10 ^ scale) m e := by
  have hhigh : ((4 * m + 2 : Nat) * 2 ^ e : ℚ) = 2 * ((2 * m + 1) * 2 ^ e) := by
    push_cast
    ring
  rw [holds_iff, hhigh, low_eq h.pos] at hn
  generalize (n * 10 ^ scale : ℚ) = v at hn ⊢
  unfold Beyond
  rw [odd_previous_iff h.pos]
  split at hn
  · rename_i heven
    constructor
    · rcases lt_or_eq_of_le hn.1 with hlt | heq
      · exact .inl (by linarith)
      · exact .inr ⟨heven, by linarith⟩
    · rintro (hlt | ⟨hodd, -⟩)
      · linarith [hn.2]
      · omega
  · refine ⟨.inl (by linarith [hn.1]), ?_⟩
    rintro (hlt | ⟨-, heq⟩) <;> linarith [hn.2]

/-! ## Grids -/

theorem holds_of_nearest {i : Interval} (h : i.nearest = some n) : i.holds n := by
  unfold nearest at h
  dsimp only at h
  split at h
  · cases h
  · cases h
    assumption
  · cases h
    assumption
  · split at h <;> cases h <;> assumption

theorem holds_of_lt {i : Interval} (hlow : i.low < n * i.denominator)
    (hhigh : n * i.denominator < i.high) : i.holds n := by
  unfold holds
  dsimp only
  split <;> simp <;> omega

/-- A grid point is found where the ends are more than half a step away. -/
theorem isSome_nearest {i : Interval} (hden : 0 < i.denominator)
    (hlow : i.denominator < 2 * (i.value - i.low)) (hhigh : i.denominator < 2 * (i.high - i.value)) :
    i.nearest.isSome := by
  have hdiv := Nat.div_add_mod i.value i.denominator
  have hmod := Nat.mod_lt i.value hden
  have habove : (i.value / i.denominator + 1) * i.denominator =
      i.denominator * (i.value / i.denominator) + i.denominator := by ring
  have hbelow : i.value / i.denominator * i.denominator =
      i.denominator * (i.value / i.denominator) := Nat.mul_comm ..
  have hbeside : i.holds (i.value / i.denominator) ∨ i.holds (i.value / i.denominator + 1) := by
    by_cases hhalf : 2 * (i.value % i.denominator) ≤ i.denominator
    · exact .inl (holds_of_lt (by omega) (by omega))
    · exact .inr (holds_of_lt (by omega) (by omega))
  unfold nearest
  dsimp only
  rcases hbeside with hholds | hholds <;> rw [hholds]
  · cases i.holds (i.value / i.denominator + 1)
    · rfl
    · dsimp only
      split <;> rfl
  · cases i.holds (i.value / i.denominator)
    · rfl
    · dsimp only
      split <;> rfl

/-! ## The first digit -/

/-- A guess at the power of ten in `2 ^ log` is too great by one at most. -/
def guess (log : Int) : Int :=
  (log * 30103).fdiv 100000

/-- `59 / 196` is less than the logarithm of two to the base of ten. -/
theorem ten_zpow_le_of_nonneg {a b : Int} (ha : 0 ≤ a) (hab : 196 * a ≤ 59 * b) :
    (10 : ℚ) ^ a ≤ 2 ^ b := by
  have hbase : (10 : ℚ) ^ (59 : Int) ≤ 2 ^ (196 : Int) := by norm_num
  refine (pow_le_pow_iff_left₀ (by positivity) (by positivity) (show 59 ≠ 0 by decide)).1 ?_
  calc ((10 : ℚ) ^ a) ^ 59 = (10 ^ (59 : Int)) ^ a := by
        rw [← zpow_natCast, ← zpow_mul, ← zpow_mul, mul_comm]
        rfl
    _ ≤ (2 ^ (196 : Int)) ^ a := zpow_le_zpow_left₀ ha (by positivity) hbase
    _ = 2 ^ (196 * a) := (zpow_mul ..).symm
    _ ≤ 2 ^ (59 * b) := zpow_le_zpow_right₀ (by norm_num) hab
    _ = (2 ^ b) ^ 59 := by
        rw [← zpow_natCast, ← zpow_mul, mul_comm]
        rfl

/-- `28 / 93` is greater than that logarithm. -/
theorem ten_zpow_le_of_nonpos {a b : Int} (ha : a ≤ 0) (hab : 93 * a ≤ 28 * b) :
    (10 : ℚ) ^ a ≤ 2 ^ b := by
  have hbase : (2 : ℚ) ^ (93 : Int) ≤ 10 ^ (28 : Int) := by norm_num
  refine (pow_le_pow_iff_left₀ (by positivity) (by positivity) (show 28 ≠ 0 by decide)).1 ?_
  calc ((10 : ℚ) ^ a) ^ 28 = ((10 ^ (28 : Int)) ^ (-a))⁻¹ := by
        rw [← zpow_natCast, ← zpow_mul, ← zpow_mul, ← zpow_neg]
        congr 1
        push_cast
        ring
    _ ≤ ((2 ^ (93 : Int)) ^ (-a))⁻¹ :=
        inv_anti₀ (by positivity) (zpow_le_zpow_left₀ (by omega) (by positivity) hbase)
    _ = 2 ^ (93 * a) := by
        rw [← zpow_mul, ← zpow_neg]
        congr 1
        ring
    _ ≤ 2 ^ (28 * b) := zpow_le_zpow_right₀ (by norm_num) hab
    _ = (2 ^ b) ^ 28 := by
        rw [← zpow_natCast, ← zpow_mul, mul_comm]
        rfl

theorem zpow_guess_le {log : Int} (hleast : -1074 ≤ log) (hgreatest : log ≤ 1023) :
    (10 : ℚ) ^ (guess log - 1) ≤ 2 ^ log := by
  have hguess : guess log = log * 30103 / 100000 := Int.fdiv_eq_ediv_of_nonneg _ (by decide)
  rcases Int.le_total 1 (guess log) with hpos | hneg
  · exact ten_zpow_le_of_nonneg (by omega) (by omega)
  · exact ten_zpow_le_of_nonpos (by omega) (by omega)

/-- The number has a digit at the power of ten. -/
theorem reaches_iff : ((ofBinary ⟨negative, m, e⟩).inUnits scale).denominator ≤
    ((ofBinary ⟨negative, m, e⟩).inUnits scale).value ↔ (10 ^ scale : ℚ) ≤ m * 2 ^ e := by
  have hcompare := @mul_denominator_le_iff e scale 1 (4 * m)
  rw [inUnits_ofBinary]
  dsimp only
  rw [Nat.one_mul] at hcompare
  rw [hcompare]
  push_cast
  rw [one_mul, mul_assoc, mul_le_mul_iff_right₀ (by norm_num)]

/-- The power of ten of the first digit is that of the number, or less. -/
theorem magnitude_le (h : Fits m e) (he : e ≤ 971) :
    (10 ^ magnitude ⟨negative, m, e⟩ : ℚ) ≤ m * 2 ^ e := by
  have hleast := h.least
  have hlog := log2_le_of_lt (k := 52) h.lt
  have hguess : (10 : ℚ) ^ (guess (m.log2 + e) - 1) ≤ m * 2 ^ e := by
    refine (zpow_guess_le (by omega) (by omega)).trans ?_
    rw [zpow_add₀ (by norm_num), zpow_natCast]
    gcongr
    exact_mod_cast Nat.log2_self_le h.pos.ne'
  have hreaches : ∀ z : Int, ((ofBinary ⟨negative, m, e⟩).inUnits z).denominator ≤
      ((ofBinary ⟨negative, m, e⟩).inUnits z).value → (10 ^ z : ℚ) ≤ m * 2 ^ e :=
    fun z => reaches_iff.1
  unfold magnitude
  dsimp only
  split
  · exact hguess
  · rename_i hhere
    split
    · rename_i hnext
      exact hreaches _ (by simpa using hnext)
    · exact hreaches _ (by simpa using hhere)

/-! ## The search -/

/-- The search gives what lies in the interval if one of its grids has a point there. -/
theorem holds_search {i : Interval} {top : Int} {fuel count k : Nat} (hk : k < fuel)
    (hfound : (i.inUnits (top - (count + k) + 1)).nearest.isSome) :
    (i.inUnits (i.search top fuel count).scale).holds (i.search top fuel count).digits := by
  induction fuel generalizing count k with
  | zero => omega
  | succ fuel ih =>
      unfold search
      dsimp only
      cases hnearest : (i.inUnits (top - count + 1)).nearest with
      | some n => exact holds_of_nearest hnearest
      | none =>
          cases k with
          | zero =>
              rw [Nat.cast_zero, add_zero, hnearest] at hfound
              cases hfound
          | succ k =>
              refine @ih (count + 1) k (by omega) ?_
              have hcount : top - ((count + 1 : Nat) + k) + 1 = top - (count + (k + 1 : Nat)) + 1 := by
                omega
              rwa [hcount]

/-- Where sixteen digits more would reach the number, a step is less than the interval on both sides. -/
theorem step_lt (h : Fits m e) (hscale : (10 ^ (scale + 16) : ℚ) ≤ m * 2 ^ e) :
    2 * (10 : ℚ) ^ scale < below m e * 2 ^ e ∧ (10 : ℚ) ^ scale < 2 ^ e := by
  have hunit : (0 : ℚ) < 2 ^ e := zpow_pos (by norm_num) e
  have hm : (m : ℚ) ≤ 2 ^ 53 := by exact_mod_cast h.lt.le
  rw [zpow_add₀ (by norm_num)] at hscale
  have hwide : (10 : ℚ) ^ scale < 2 ^ e := by
    have hproduct : (m * 2 ^ e : ℚ) ≤ 2 ^ 53 * 2 ^ e := by gcongr
    norm_num at hscale hproduct
    linarith
  refine ⟨?_, hwide⟩
  unfold below
  split
  · rename_i hcase
    rw [hcase.1] at hscale
    norm_num at hscale ⊢
    linarith
  · push_cast
    linarith

theorem isSome_nearest_of_le (h : Fits m e) (hscale : (10 ^ (scale + 16) : ℚ) ≤ m * 2 ^ e) :
    ((ofBinary ⟨negative, m, e⟩).inUnits scale).nearest.isSome := by
  have hpos := h.pos
  have hstep := step_lt h hscale
  have hbelow : below m e ≤ 4 * m := by
    unfold below
    split <;> omega
  rw [inUnits_ofBinary]
  refine isSome_nearest (by positivity) ?_ ?_ <;> dsimp only
  · have hcompare := (@mul_denominator_lt_iff e scale 1 (2 * below m e)).2 (by
      push_cast
      linarith)
    rw [Nat.one_mul] at hcompare
    rw [← Nat.sub_mul, ← Nat.sub_mul, Nat.sub_sub_self hbelow]
    linarith
  · have hcompare := (@mul_denominator_lt_iff e scale 1 4).2 (by
      push_cast
      linarith)
    rw [Nat.one_mul] at hcompare
    rw [← Nat.sub_mul, ← Nat.sub_mul, Nat.add_sub_cancel_left]
    linarith

/-- The shortest digits lie in the interval of their float. -/
theorem holds_shortest (h : Fits m e) (he : e ≤ 971) :
    ((ofBinary ⟨negative, m, e⟩).inUnits (shortest ⟨negative, m, e⟩).scale).holds
      (shortest ⟨negative, m, e⟩).digits := by
  refine holds_search (k := 16) (by decide) (isSome_nearest_of_le h ?_)
  have hscale : magnitude ⟨negative, m, e⟩ - ((1 : Nat) + (16 : Nat)) + 1 + 16 =
      magnitude ⟨negative, m, e⟩ := by omega
  rw [hscale]
  exact magnitude_le h he

end Interval

namespace Digits

/-- The number that the digits stand for. -/
def value (d : Digits) : ℚ :=
  d.digits * 10 ^ d.scale

end Digits

open Binary64 in
/-- What is rounded from the shortest digits of a float is the float. -/
theorem eq_of_roundsTo_shortest {negative : Bool} {m : Nat} {e : Int} (h : Fits m e) (he : e ≤ 971)
    {x : Float} (hx : RoundsTo (shortest ⟨negative, m, e⟩).value x) :
    parts x = .finite .positive m e h.pos := by
  have hholds := Interval.beyond_of_holds h (@Interval.holds_shortest negative m e h he)
  exact eq_of_roundsTo h he hx hholds.1 hholds.2

end SeriesQuery
