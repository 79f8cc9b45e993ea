import SeriesQuery.Number.Binary64
import Mathlib

/-!
# Parts of floats

Operations on floats work on their parts: a sign with a mantissa and an exponent, a zero, an infinity
or none of these.  The parts of a float give the float again, and parts that fit a float come back
from it unless their exponent is too great.

* `ofParts_parts`, `parts_ofParts_finite` — what packing and unpacking give of one another;
* `ofFloat_of_parts` — what is read off the bits of a finite float are its parts;
* `truncateInt64_of_lt` — what is beyond the signed numbers is cut to the greatest of them.
-/

namespace SeriesQuery

open Float.Model (UnpackedFloat Format)
open Float.Model.UnpackedFloat (Sign packComponents unpackSign unpackExponent unpackMantissa)

namespace Binary64

/-- The parts of the float. -/
def parts (x : Float) : UnpackedFloat :=
  x.toModel.unpack

/-- The float with these parts; an infinity if their exponent is too great. -/
def ofParts (u : UnpackedFloat) : Float :=
  .ofModel (.pack u)

/-- Mantissas and exponents as finite floats have them: with 53 bits, or fewer at the least
exponent. -/
structure Fits (m : Nat) (e : Int) : Prop where
  pos : 0 < m
  lt : m < 2 ^ 53
  least : -1074 ≤ e
  full : 2 ^ 52 ≤ m ∨ e = -1074

/-! ## Operations on parts -/

theorem mul_eq_ofParts (x y : Float) : x * y = ofParts (.mul .binary64 (parts x) (parts y)) := rfl

theorem div_eq_ofParts (x y : Float) : x / y = ofParts (.div .binary64 (parts x) (parts y)) := rfl

theorem add_eq_ofParts (x y : Float) : x + y = ofParts (.add .binary64 (parts x) (parts y)) := rfl

theorem abs_eq_ofParts (x : Float) : x.abs = ofParts (parts x).abs := rfl

theorem lt_iff_parts {x y : Float} : x < y ↔ (parts x).lt (parts y) = true :=
  decide_eq_true_iff

/-- What is greater than a positive number has a greater exponent, or the same and a greater
mantissa. -/
theorem lt_iff_of_finite {M : Nat} {t : Int} {hM : 0 < M} {u : UnpackedFloat} :
    (UnpackedFloat.finite .positive M t hM).lt u = true ↔
      u = .infinity .positive ∨
        ∃ m e h, u = .finite .positive m e h ∧ (t < e ∨ t = e ∧ M < m) := by
  cases u with
  | infinity s => cases s <;> simp [UnpackedFloat.lt, UnpackedFloat.compare]
  | notANumber => simp [UnpackedFloat.lt, UnpackedFloat.compare]
  | zero s => cases s <;> simp [UnpackedFloat.lt, UnpackedFloat.compare]
  | finite s m e h =>
      cases s with
      | negative => simp [UnpackedFloat.lt, UnpackedFloat.compare]
      | positive =>
          simp [UnpackedFloat.lt, UnpackedFloat.compare, Ordering.then_eq_lt, compare_lt_iff_lt, h]

/-! ## Fields of bits -/

theorem toNat_packComponents (s : Sign) (e : BitVec 11) (m : BitVec 52) :
    (packComponents .binary64 s e m).toNat =
      s.toBitVec.toNat * 2 ^ 63 + e.toNat * 2 ^ 52 + m.toNat := by
  have happend : packComponents .binary64 s e m = s.toBitVec ++ e ++ m := rfl
  rw [happend, BitVec.toNat_append, BitVec.toNat_append, ← Nat.shiftLeft_add_eq_or_of_lt m.isLt,
    ← Nat.shiftLeft_add_eq_or_of_lt e.isLt, Nat.shiftLeft_eq, Nat.shiftLeft_eq]
  omega

theorem toNat_unpackMantissa (b : BitVec 64) :
    (@unpackMantissa .binary64 b).toNat = b.toNat % 2 ^ 52 := by
  simp [unpackMantissa]

theorem toNat_unpackExponent (b : BitVec 64) :
    (@unpackExponent .binary64 b).toNat = b.toNat / 2 ^ 52 % 2 ^ 11 := by
  simp [unpackExponent, Nat.shiftRight_eq_div_pow]

theorem toNat_unpackSign (b : BitVec 64) :
    (@unpackSign .binary64 b).toNat = b.toNat / 2 ^ 63 := by
  have hlt := b.isLt
  simp [unpackSign, Nat.shiftRight_eq_div_pow]
  omega

theorem toBitVec_ofBitVec (v : BitVec 1) : (Sign.ofBitVec v).toBitVec = v := by
  revert v
  decide

theorem ofBitVec_toBitVec (s : Sign) : Sign.ofBitVec s.toBitVec = s := by
  cases s <;> rfl

/-- The three fields make up the bits. -/
theorem exists_packComponents (b : BitVec 64) :
    ∃ (s : Sign) (e : BitVec 11) (m : BitVec 52), b = packComponents .binary64 s e m := by
  refine ⟨Sign.ofBitVec (@unpackSign .binary64 b), @unpackExponent .binary64 b,
    @unpackMantissa .binary64 b, BitVec.eq_of_toNat_eq ?_⟩
  have hlt := b.isLt
  rw [toNat_packComponents, toBitVec_ofBitVec, toNat_unpackSign, toNat_unpackExponent,
    toNat_unpackMantissa]
  omega

theorem unpackSign_packComponents (s : Sign) (e : BitVec 11) (m : BitVec 52) :
    unpackSign (packComponents .binary64 s e m) = s.toBitVec := by
  apply BitVec.eq_of_toNat_eq
  have hexponent : e.toNat < 2 ^ 11 := e.isLt
  have hmantissa : m.toNat < 2 ^ 52 := m.isLt
  have htotal := toNat_packComponents s e m
  rw [toNat_unpackSign]
  omega

theorem toNat_implicit (f : BitVec 52) : (1#1 ++ f).toNat = 2 ^ 52 + f.toNat := by
  rw [BitVec.toNat_append, ← Nat.shiftLeft_add_eq_or_of_lt f.isLt]
  simp [Nat.shiftLeft_eq]

/-! ## Packing -/

/-- What the fields stand for. -/
theorem unpack_packComponents (s : Sign) (e : BitVec 11) (m : BitVec 52) :
    UnpackedFloat.unpack .binary64 (packComponents .binary64 s e m) =
      if e = -1#11 then if m = 0#52 then .infinity s else .notANumber
      else if e = 0#11 then
        if h : m = 0#52 then .zero s
        else .finite s m.toNat (-1074) (by simpa [BitVec.toNat_pos, BitVec.pos_iff_ne_zero])
      else .finite s (2 ^ 52 + m.toNat) (e.toNat - 1075) (by omega) := by
  have hbias : Format.exponentBias .binary64 = 1023 := rfl
  unfold UnpackedFloat.unpack
  simp only [UnpackedFloat.unpackMantissa_packComponents, UnpackedFloat.unpackExponent_packComponents,
    unpackSign_packComponents, ofBitVec_toBitVec, toNat_implicit, hbias]
  split
  · rfl
  · split
    · rename_i hzero
      subst hzero
      rfl
    · congr 1

theorem log2_eq_iff_full {m : Nat} (hpos : 0 < m) (hlt : m < 2 ^ 53) :
    m.log2 = 52 ↔ 2 ^ 52 ≤ m := by
  rw [Nat.log2_eq_iff (by omega)]
  omega

theorem pack_finite (s : Sign) (m : Nat) (e : Int) (h : 0 < m) :
    UnpackedFloat.pack .binary64 (.finite s m e h) =
      if 971 < e then UnpackedFloat.packedInfinity .binary64 s
      else if m.log2 = 52 then
        packComponents .binary64 s (BitVec.ofNat 11 (e + 1075).toNat) (BitVec.ofNat 52 m)
      else packComponents .binary64 s 0#11 (BitVec.ofNat 52 m) := by
  have hbias : Format.exponentBias .binary64 = 1023 := rfl
  have hexponent : (e + (Format.exponentBias .binary64 : Nat) + (52 : Nat)).toNat =
      (e + 1075).toNat := by
    rw [hbias]
    omega
  have hbits : Format.mantissaBits .binary64 = 53 := rfl
  unfold UnpackedFloat.pack
  simp only [hexponent, hbits]
  congr 1
  · apply propext
    omega
  · congr 1
    apply propext
    omega

/-- Packing gives the bits that were unpacked. -/
theorem pack_unpack {b : BitVec 64} (hvalid : Format.Valid .binary64 b) :
    UnpackedFloat.pack .binary64 (UnpackedFloat.unpack .binary64 b) = b := by
  rcases exists_packComponents b with ⟨s, e, m, rfl⟩
  have hnan := hvalid.eq_packedNaN
  have hmantissa : m.toNat < 2 ^ 52 := m.isLt
  have hexponent : e.toNat < 2 ^ 11 := e.isLt
  rw [UnpackedFloat.unpackExponent_packComponents, UnpackedFloat.unpackMantissa_packComponents] at hnan
  rw [unpack_packComponents]
  split
  · -- all bits of the exponent are set: an infinity, or the only valid bits for no number
    rename_i hones
    split
    · rename_i hzero
      rw [hones, hzero]
      rfl
    · rename_i hzero
      exact (hnan hones hzero).symm
  · rename_i hones
    have hsmall : e.toNat ≠ 2047 := fun h => hones (BitVec.eq_of_toNat_eq h)
    split
    · rename_i hleast
      split
      · rename_i hzero
        rw [hleast, hzero]
        rfl
      · rename_i hzero
        have hpos : m.toNat ≠ 0 := fun h => hzero (BitVec.eq_of_toNat_eq h)
        have hlog : m.toNat.log2 ≠ 52 := by
          rw [Ne, log2_eq_iff_full (by omega) (by omega)]
          omega
        rw [pack_finite, if_neg (by omega), if_neg hlog, hleast, BitVec.ofNat_toNat,
          BitVec.setWidth_eq]
    · have hlog : (2 ^ 52 + m.toNat).log2 = 52 := by
        rw [log2_eq_iff_full (by omega) (by omega)]
        omega
      rw [pack_finite, if_neg (by omega), if_pos hlog]
      congr 1 <;>
      · apply BitVec.eq_of_toNat_eq
        simp only [BitVec.toNat_ofNat]
        omega

/-- Unpacking gives the parts that were packed, or an infinity. -/
theorem unpack_pack_finite {s : Sign} {m : Nat} {e : Int} (h : Fits m e) :
    UnpackedFloat.unpack .binary64 (UnpackedFloat.pack .binary64 (.finite s m e h.pos)) =
      if 971 < e then .infinity s else .finite s m e h.pos := by
  have hpos := h.pos
  have hlt := h.lt
  have hleast := h.least
  have hfull := h.full
  have hlog := log2_eq_iff_full h.pos h.lt
  rw [pack_finite]
  split
  · exact unpack_packComponents s (-1#11) 0#52
  · split
    · -- the leading bit is not stored, and the exponent has a field of its own
      rename_i hbits
      rw [hlog] at hbits
      have hfield : (BitVec.ofNat 11 (e + 1075).toNat).toNat = (e + 1075).toNat := by
        rw [BitVec.toNat_ofNat]
        omega
      have hones : BitVec.ofNat 11 (e + 1075).toNat ≠ -1#11 := by
        intro heq
        rw [heq] at hfield
        have hmax : (-1#11).toNat = 2047 := rfl
        omega
      have hzero : BitVec.ofNat 11 (e + 1075).toNat ≠ 0#11 := by
        intro heq
        rw [heq] at hfield
        have hmin : (0#11).toNat = 0 := rfl
        omega
      rw [unpack_packComponents, if_neg hones, if_neg hzero]
      congr 1
      · rw [BitVec.toNat_ofNat]
        omega
      · omega
    · -- fewer bits: the exponent is the least one, and its field is zero
      rename_i hbits
      rw [hlog] at hbits
      have hfield : (BitVec.ofNat 52 m).toNat = m := by
        rw [BitVec.toNat_ofNat]
        omega
      have hzero : BitVec.ofNat 52 m ≠ 0#52 := by
        intro heq
        rw [heq] at hfield
        have hmin : (0#52).toNat = 0 := rfl
        omega
      rw [unpack_packComponents, if_neg (by decide), if_pos rfl, dif_neg hzero]
      congr 1
      omega

theorem ofParts_parts (x : Float) : ofParts (parts x) = x := by
  rcases x with ⟨⟨bits, hvalid⟩⟩
  have hbits : UInt64.ofBitVec (UnpackedFloat.pack .binary64
      (UnpackedFloat.unpack .binary64 bits.toBitVec)) = bits := by
    rw [pack_unpack hvalid]
  show Float.ofModel ⟨_, _⟩ = Float.ofModel ⟨_, _⟩
  congr 2

theorem parts_ofParts_finite {s : Sign} {m : Nat} {e : Int} (h : Fits m e) :
    parts (ofParts (.finite s m e h.pos)) = if 971 < e then .infinity s else .finite s m e h.pos :=
  unpack_pack_finite h

/-! ## Finite floats -/

/-- How the parts of a finite float stand in its bits. -/
theorem toBits_of_parts {x : Float} {s : Sign} {m : Nat} {e : Int} {hpos : 0 < m}
    (h : parts x = .finite s m e hpos) :
    ∃ field < 2047, x.toBits.toNat = s.toBitVec.toNat * 2 ^ 63 + field * 2 ^ 52 + m % 2 ^ 52 ∧
      m = (if field = 0 then m % 2 ^ 52 else m % 2 ^ 52 + 2 ^ 52) ∧
        e = if field = 0 then -1074 else (field : Int) - 1075 := by
  have hx : parts x = UnpackedFloat.unpack .binary64 x.toBits.toBitVec := rfl
  have hbits : x.toBits.toNat = x.toBits.toBitVec.toNat := rfl
  rcases exists_packComponents x.toBits.toBitVec with ⟨sign, field, mantissa, hb⟩
  have hmantissa : mantissa.toNat < 2 ^ 52 := mantissa.isLt
  have hfield : field.toNat < 2 ^ 11 := field.isLt
  rw [hx, hb, unpack_packComponents] at h
  rw [hbits, hb, toNat_packComponents]
  split at h
  · split at h <;> cases h
  · rename_i hones
    have hsmall : field.toNat ≠ 2047 := fun h => hones (BitVec.eq_of_toNat_eq h)
    split at h
    · rename_i hleast
      split at h
      · cases h
      · cases h
        have hzero : field.toNat = 0 := by rw [hleast]; rfl
        exact ⟨0, by omega, by omega, by rw [if_pos rfl]; omega, rfl⟩
    · rename_i hleast
      have hnonzero : field.toNat ≠ 0 := fun h => hleast (BitVec.eq_of_toNat_eq h)
      cases h
      exact ⟨field.toNat, by omega, by omega, by rw [if_neg hnonzero]; omega, by rw [if_neg hnonzero]⟩

theorem fits_of_parts {x : Float} {s : Sign} {m : Nat} {e : Int} {hpos : 0 < m}
    (h : parts x = .finite s m e hpos) : Fits m e := by
  rcases toBits_of_parts h with ⟨field, hfield, -, hm, he⟩
  split at hm <;> rename_i hzero <;> simp only [hzero, if_true, if_false] at he
  · exact ⟨hpos, by omega, by omega, .inr he⟩
  · exact ⟨hpos, by omega, by omega, .inl (by omega)⟩

/-- The parts that are computed from the bits are the parts of the float. -/
theorem ofFloat_of_parts {x : Float} {s : Sign} {m : Nat} {e : Int} {hpos : 0 < m}
    (h : parts x = .finite s m e hpos) : ofFloat x = ⟨s == .negative, m, e⟩ := by
  rcases toBits_of_parts h with ⟨field, hfield, hbits, hm, he⟩
  have hsign : s.toBitVec.toNat = if s == .negative then 1 else 0 := by cases s <;> rfl
  have hsmall : s.toBitVec.toNat < 2 := s.toBitVec.isLt
  have hfieldBits : x.toBits.toNat / 2 ^ 52 % 2048 = field := by omega
  have hfraction : x.toBits.toNat % 2 ^ 52 = m % 2 ^ 52 := by omega
  have hnegative : x.toBits.toNat / 2 ^ 63 = s.toBitVec.toNat := by omega
  simp only [ofFloat, Nat.pow_eq, hfieldBits, hfraction, hnegative]
  rw [← hm, ← he, hsign]
  cases s <;> rfl

theorem wholePart_of_nonneg {negative : Bool} {m : Nat} {e : Int} (he : 0 ≤ e) :
    wholePart ⟨negative, m, e⟩ = m * 2 ^ e.toNat := by
  rcases Int.eq_ofNat_of_zero_le he with ⟨k, rfl⟩
  rfl

end Binary64

open Binary64

/-- What is beyond the signed numbers is cut to the greatest of them. -/
theorem truncateInt64_of_lt {x : Float} (h : 9223372036854775808.0 < x) :
    truncateInt64 x = maxInt64 := by
  have hbound : parts 9223372036854775808.0 = .finite .positive (2 ^ 52) 11 (by decide) := rfl
  rw [lt_iff_parts, hbound, lt_iff_of_finite] at h
  rcases h with hinf | ⟨m, e, hpos, hparts, hlt⟩
  · rw [← ofParts_parts x, hinf]
    rfl
  · have hfull := (fits_of_parts hparts).full
    have hnan : x.isNaN = false := congrArg UnpackedFloat.isNaN hparts
    have hinf : x.isInf = false := congrArg UnpackedFloat.isInf hparts
    -- beyond the bound the exponent is eleven at least, so that the mantissa has all its bits
    have hwhole : 2 ^ 63 ≤ m * 2 ^ e.toNat :=
      calc 2 ^ 63 = 2 ^ 52 * 2 ^ 11 := by norm_num
        _ ≤ m * 2 ^ e.toNat :=
          Nat.mul_le_mul (by omega) (Nat.pow_le_pow_right (by omega) (by omega))
    have hcast : (2 ^ 63 : Int) ≤ (m * 2 ^ e.toNat : Nat) := by exact_mod_cast hwhole
    have hmin : minInt64 = -2 ^ 63 := rfl
    have hmax : maxInt64 = 2 ^ 63 - 1 := rfl
    have hpositive : (Sign.positive == .negative) = false := rfl
    simp only [truncateInt64, hnan, hinf, ofFloat_of_parts hparts, hpositive, Bool.false_eq_true,
      if_false]
    rw [wholePart_of_nonneg (by omega)]
    omega

end SeriesQuery
