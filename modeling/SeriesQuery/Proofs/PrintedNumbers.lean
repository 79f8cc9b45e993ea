import SeriesQuery.Number.Format
import SeriesQuery.Proofs.BareSeconds
import SeriesQuery.Proofs.ReadingOperands
import SeriesQuery.Proofs.ShortestDigits

/-!
# Texts of floats

A number that was not written is printed with its shortest digits, in plain notation or with an
exponent.  Both are numerals by themselves (`legibleNumber_formatNumber`), and what is read from the
text of a negative number is the number without its sign (`zero_sub_numeralOf`).
-/

namespace SeriesQuery

open Text

/-! ## Numerals with exponents -/

section Exponent

variable {rest : List Char} {e : Int}

theorem readExponent_nil : readExponent [] = some 0 :=
  rfl

theorem head_of_readExponent (h : readExponent rest = some e) :
    ∀ c ∈ rest.head?, isDigitOrUnderscore c = false := by
  rcases readExponent_cases h with rfl | ⟨mark, sign, digits, rfl, rfl | rfl, -⟩ <;> simp <;> decide

/-- No unit of time starts like an exponent. -/
theorem ofStart_of_readExponent (h : readExponent rest = some e) : TimeUnit.ofStart rest = none := by
  rcases readExponent_cases h with rfl | ⟨mark, sign, digits, rfl, hmark, -⟩
  · rfl
  · cases hunit : TimeUnit.ofStart (mark :: (sign ++ digits)) with
    | none => rfl
    | some found =>
        have hletters := isUnitLetter_of_ofStart hunit
        have hlength := length_of_ofStart hunit
        obtain ⟨k, hk⟩ : ∃ k, found.2 = k + 1 := ⟨found.2 - 1, by omega⟩
        rw [hk, List.take_succ_cons] at hletters
        have hfirst := isUnitLetter_ne (hletters.2 mark List.mem_cons_self)
        rcases hmark with rfl | rfl
        · exact absurd rfl hfirst.2.2.2.1
        · exact absurd rfl hfirst.2.2.2.2

theorem exponentSign_append_digits {sign digits : List Char} (hsign : sign ∈ [['-'], ['+'], []])
    (hsome : digits ≠ []) (hall : ∀ c ∈ digits, isDigit c) :
    exponentSign (sign ++ digits) = (sign, digits) := by
  simp only [List.mem_cons, List.not_mem_nil, or_false] at hsign
  rcases hsign with rfl | rfl | rfl
  · rfl
  · rfl
  · cases digits with
    | nil => exact absurd rfl hsome
    | cons d digits =>
        have hdigit := hall d List.mem_cons_self
        have hne : d ≠ '-' ∧ d ≠ '+' := by
          constructor <;> rintro rfl <;> exact absurd hdigit (by decide)
        simp [exponentSign, hne]

/-- An exponent is taken as a whole. -/
theorem splitSuffix_of_readExponent (h : readExponent rest = some e) (whole taken : List Char) :
    splitSuffix whole taken rest = .ok (taken ++ rest, []) := by
  rcases readExponent_cases h with rfl | ⟨mark, sign, digits, rfl, hmark, hsign, hsome, hall⟩
  · simp [splitSuffix, multiplierLength]
  · have hletter : isMultiplierLetter mark.toLower = false := by
      rcases hmark with rfl | rfl <;> decide
    have hmarks : (mark == 'e' || mark == 'E') = true := by simpa using hmark
    have hdigits : splitDigits digits = (digits, []) := by
      rw [← List.append_nil digits, splitDigits_of_forall hall (by simp), List.append_nil]
    simp [splitSuffix, multiplierLength_of_first hletter, hmarks, splitExponent_eq,
      exponentSign_append_digits hsign hsome hall, hdigits, hsome]

end Exponent

namespace FixedPoint

variable {n : FixedPoint} {rest : List Char} {e : Int}

theorem head_point (hrest : readExponent rest = some e) :
    ∀ c ∈ (n.point ++ rest).head?, isDigitOrUnderscore c = false := by
  unfold point
  cases n.fraction with
  | none => exact head_of_readExponent hrest
  | some ds =>
      intro c hc
      cases hc
      decide

theorem splitFraction_point (hrest : readExponent rest = some e) (whole taken : List Char) :
    splitFraction whole taken (n.point ++ rest) = splitSuffix whole (taken ++ n.point) rest := by
  have hall := n.fraction_digits
  unfold point
  cases hfraction : n.fraction with
  | none =>
      rw [List.nil_append, List.append_nil]
      have hends := endsNumeral_of_readExponent hrest
      exact splitFraction_of_ne (fun r heq => (hends '.' (by simp [heq])).2 rfl) _ _
  | some ds =>
      rw [hfraction] at hall
      have hhead := head_of_readExponent hrest
      have hds : ∀ c ∈ ds, isDigitOrUnderscore c := fun c hc => by
        simp [isDigitOrUnderscore, hall ds rfl c hc]
      simp only [List.cons_append, splitFraction, takeWhile_append_of_head hhead,
        dropWhile_append_of_head hhead, List.takeWhile_eq_self_iff.2 hds,
        List.dropWhile_eq_nil_iff.2 hds, List.nil_append]

section

variable (hwhole : n.whole ≠ []) (hrest : readExponent rest = some e)
include hwhole hrest

/-- A numeral with an exponent is taken as a whole. -/
theorem splitNumber_text (hbase : Base.ofStart (n.text ++ rest) = none) :
    splitNumber (n.text ++ rest) = .ok (n.text ++ rest, []) := by
  have hmarked : marked (n.text ++ rest) = 0 := by simp [marked, hbase]
  have hhead := n.head_point hrest
  have hdigits : ∀ c ∈ n.whole, isDigitOrUnderscore c := fun c hc => by
    simp [isDigitOrUnderscore, n.whole_digits c hc]
  rw [splitNumber_of_ne (by simp [hbase]), hmarked, List.take_zero, List.drop_zero,
    List.nil_append, text, List.append_assoc, takeWhile_append_of_head hhead,
    dropWhile_append_of_head hhead, List.takeWhile_eq_self_iff.2 hdigits,
    List.dropWhile_eq_nil_iff.2 hdigits, List.nil_append, if_neg (by simp [hwhole]),
    splitFraction_point hrest, splitSuffix_of_readExponent hrest, List.append_assoc]

/-- A numeral with an exponent is no duration. -/
theorem splitDuration_text : splitDuration (n.text ++ rest) = none := by
  have hsigned : n.Signed false [] := .inl ⟨rfl, hwhole⟩
  have hnumber := n.splitPartNumber_text hsigned (endsNumeral_of_readExponent hrest)
  rw [List.nil_append, List.nil_append] at hnumber
  have htext : n.text ≠ [] := by simp [text, hwhole]
  simp [splitDuration, splitPart, hnumber, htext, ofStart_of_readExponent hrest]

omit hrest in
theorem exists_cons_text : ∃ d ds, isDigit d ∧ n.text = d :: ds := by
  have hdigits := n.whole_digits
  unfold text
  cases hcs : n.whole with
  | nil => exact absurd hcs hwhole
  | cons d ds =>
      rw [hcs] at hdigits
      exact ⟨d, ds ++ n.point, hdigits d List.mem_cons_self, rfl⟩

end

end FixedPoint

/-! ## Texts that stand for numbers -/

/-- The text is a numeral in base ten, perhaps with an exponent, that stands for the number. -/
inductive WritesDecimal : List Char → ℚ → Prop where
  | intro (n : FixedPoint) {rest : List Char} {e : Int} (hwhole : n.whole ≠ [])
      (hbase : Base.ofStart (n.text ++ rest) = none) (hrest : readExponent rest = some e) :
      WritesDecimal (n.text ++ rest)
        (Decimal.value ⟨decimalValue n.digits, e - n.decimals.length⟩)

namespace WritesDecimal

variable {cs : List Char} {v : ℚ}

theorem of_eq (n : FixedPoint) {rest : List Char} {e : Int} (htext : n.text ++ rest = cs)
    (hwhole : n.whole ≠ []) (hbase : Base.ofStart cs = none) (hrest : readExponent rest = some e)
    (hvalue : decimalValue n.digits * 10 ^ (e - n.decimals.length) = v) : WritesDecimal cs v := by
  subst htext hvalue
  exact .intro n hwhole hbase hrest

theorem startsNumber (h : WritesDecimal cs v) : startsNumber cs := by
  cases h with
  | intro n hwhole hbase hrest =>
      rcases n.exists_cons_text hwhole with ⟨d, ds, hd, htext⟩
      rw [htext]
      exact startsNumber_of_isDigit hd _

/-- The text is read as a float that rounds to the number. -/
theorem exists_positiveValue? (h : WritesDecimal cs v) :
    ∃ x, positiveValue? cs = some x ∧ Binary64.RoundsTo v x := by
  have hstarts := h.startsNumber
  cases h with
  | intro n hwhole hbase hrest =>
      have hdigits : n.digits ≠ [] := by simp [FixedPoint.digits, hwhole]
      exact ⟨_, positiveValue?_of_readFloat hstarts hbase
        (n.readFloat_text_append hdigits (endsNumeral_of_readExponent hrest) hrest),
        Decimal.roundsTo_toFloat _⟩

/-- The text is one token. -/
theorem isNumeral (h : WritesDecimal cs v) : IsNumeral (String.ofList cs) := by
  have hstarts := h.startsNumber
  cases h with
  | intro n hwhole hbase hrest =>
      rcases n.exists_cons_text hwhole with ⟨d, ds, hd, htext⟩
      have hstart : startsNumeral d := by simp [startsNumeral, hd]
      have hnumber := n.splitNumber_text hwhole hrest hbase
      have hduration := n.splitDuration_text hwhole hrest
      rw [htext, List.cons_append] at hstarts hnumber hduration ⊢
      constructor
      · exact ⟨d, _, String.toList_ofList, hstart⟩
      · rw [String.toList_ofList, scanToken_of_startsNumeral hstart]
        simp [splitSignOrNumber, splitSign_of_startsNumeral hstart, hduration, hstarts, hnumber,
          Except.mapError]

theorem isPositiveDuration (h : WritesDecimal cs v) :
    isPositiveDuration (String.ofList cs) = false := by
  cases h with
  | intro n hwhole hbase hrest =>
      simp [SeriesQuery.isPositiveDuration, n.splitDuration_text hwhole hrest]

theorem exists_ofToken (h : WritesDecimal cs v) :
    ∃ x, NumberLiteral.ofToken (String.ofList cs) = .ok ⟨x, some (String.ofList cs)⟩ ∧
      Binary64.RoundsTo v x := by
  rcases h.exists_positiveValue? with ⟨x, hvalue, hrounds⟩
  have hstarts := h.startsNumber
  have hplain : readNumber (String.ofList cs) = readPositive (String.ofList cs) := by
    have hsign : ∀ r, cs ≠ '-' :: r ∧ cs ≠ '+' :: r := by
      intro r
      constructor <;> rintro rfl
      · exact absurd (show isDigit '-' = true from hstarts) (by decide)
      · exact absurd (show isDigit '+' = true from hstarts) (by decide)
    unfold readNumber
    rw [String.toList_ofList]
    split
    · exact absurd rfl (hsign _).1
    · exact absurd rfl (hsign _).2
    · rfl
  refine ⟨x, ?_, hrounds⟩
  rw [NumberLiteral.ofToken, hplain, readPositive_ofList hvalue]
  rfl

/-- The sign is taken off in front of the numeral. -/
theorem magnitude_ofList (h : WritesDecimal cs v) (negative : Bool) :
    isNegated (String.ofList (if negative then '-' :: cs else cs)) = negative ∧
      magnitude (String.ofList (if negative then '-' :: cs else cs)) = String.ofList cs := by
  cases negative with
  | true => simp [isNegated, magnitude]
  | false =>
      have hplain : isNegated (String.ofList cs) = false := by
        rcases h.isNumeral.start with ⟨c, rest, hcs, hstart⟩
        have hminus : c ≠ '-' := by
          rintro rfl
          cases hstart
        simp [isNegated, hcs, hminus]
      exact ⟨hplain, magnitude_of_not_isNegated hplain⟩

theorem legibleNumber (h : WritesDecimal cs v) : LegibleNumber (String.ofList cs) := by
  rcases h.exists_ofToken with ⟨x, htoken, -⟩
  exact ⟨.inl h.isNumeral, h.isPositiveDuration, _, htoken⟩

end WritesDecimal

/-! ## Digits as they are printed -/

theorem decimalValue_eq (ds : List Char) : decimalValue ds = Nat.ofDigitChars 10 ds 0 := by
  have hstep : (fun (n : Nat) (c : Char) => n * 10 + (c.toNat - 48)) =
      fun n c => 10 * n + (c.toNat - '0'.toNat) := by
    funext n c
    rw [Nat.mul_comm]
    rfl
  rw [decimalValue, hstep, Nat.ofDigitChars_eq_foldl]

theorem decimalValue_toDigits (n : Nat) : decimalValue (Nat.toDigits 10 n) = n := by
  rw [decimalValue_eq, Nat.ofDigitChars_toDigits (by decide) (by decide)]

/-- Zeros in front do not count. -/
theorem decimalValue_zeros (k : Nat) (ds : List Char) :
    decimalValue (List.replicate k '0' ++ ds) = decimalValue ds := by
  rw [decimalValue_eq, decimalValue_eq, Nat.ofDigitChars_append, Nat.ofDigitChars_replicate_zero,
    Nat.mul_zero]

/-- Zeros behind the digits are powers of ten. -/
theorem decimalValue_append_zeros (ds : List Char) (k : Nat) :
    decimalValue (ds ++ List.replicate k '0') = 10 ^ k * decimalValue ds := by
  rw [decimalValue_eq, decimalValue_eq, Nat.ofDigitChars_append, Nat.ofDigitChars_replicate_zero]

theorem isDigit_of_mem_zeros {k : Nat} {c : Char} (h : c ∈ List.replicate k '0') : isDigit c := by
  rw [List.eq_of_mem_replicate h]
  decide

namespace Significand

/-- Digits without a zero in front. -/
structure Proper (s : Significand) : Prop where
  nonempty : s.digits ≠ []
  digits : ∀ c ∈ s.digits, isDigit c
  first : s.digits.head? ≠ some '0'

/-- The number that the significand stands for. -/
def value (s : Significand) : ℚ :=
  decimalValue s.digits * 10 ^ (s.exponent + 1 - s.digits.length)

/-- The digits are those of the number but for zeros at its end. -/
theorem exists_append_digits (d : Digits) : ∃ k,
    Nat.toDigits 10 d.digits = (ofDigits d).digits ++ List.replicate k '0' := by
  refine ⟨((Nat.toDigits 10 d.digits).reverse.takeWhile (· == '0')).length, ?_⟩
  have hzeros : (Nat.toDigits 10 d.digits).reverse.takeWhile (· == '0') =
      List.replicate ((Nat.toDigits 10 d.digits).reverse.takeWhile (· == '0')).length '0' := by
    refine List.eq_replicate_iff.2 ⟨rfl, fun c hc => ?_⟩
    simpa using List.mem_takeWhile_imp hc
  rw [← List.reverse_replicate, ← hzeros]
  dsimp only [ofDigits]
  rw [← List.reverse_append, List.takeWhile_append_dropWhile, List.reverse_reverse]

theorem proper_ofDigits {d : Digits} (h : 0 < d.digits) : (ofDigits d).Proper := by
  rcases exists_append_digits d with ⟨k, hk⟩
  have hsome : Nat.toDigits 10 d.digits ≠ [] := Nat.toDigits_ne_nil
  have hfirst := head_toDigits h
  have hdigits : ∀ c ∈ Nat.toDigits 10 d.digits, isDigit c := fun c => isDigit_of_mem_toDigits
  rw [hk] at hsome hfirst hdigits
  generalize (ofDigits d) = s at hsome hfirst hdigits ⊢
  have hnonempty : s.digits ≠ [] := by
    intro hnil
    rw [hnil, List.nil_append] at hsome hfirst
    cases k with
    | zero => exact hsome rfl
    | succ k => exact hfirst rfl
  refine ⟨hnonempty, fun c hc => hdigits c (by simp [hc]), ?_⟩
  rwa [List.head?_append_of_ne_nil _ hnonempty] at hfirst

/-- Without the zeros the digits stand for the same number. -/
theorem value_ofDigits (d : Digits) : (ofDigits d).value = d.value := by
  rcases exists_append_digits d with ⟨k, hk⟩
  have hvalue : d.digits = 10 ^ k * decimalValue (ofDigits d).digits := by
    rw [← decimalValue_append_zeros, ← hk, decimalValue_toDigits]
  have hexponent : (ofDigits d).exponent =
      d.scale + ((ofDigits d).digits.length + k : Nat) - 1 := by
    have hlength := congrArg List.length hk
    rw [List.length_append, List.length_replicate] at hlength
    rw [← hlength]
    rfl
  rw [value, Digits.value, hvalue, hexponent]
  have hsum : d.scale + ((ofDigits d).digits.length + k : Nat) - 1 + 1 -
      ((ofDigits d).digits.length : Int) = k + d.scale := by omega
  rw [hsum, zpow_add₀ (by norm_num), zpow_natCast]
  push_cast
  ring

theorem baseOfStart_of_head {cs : List Char} (h : cs.head? ≠ some '0') : Base.ofStart cs = none := by
  unfold Base.ofStart
  split
  · exact absurd rfl h
  · rfl

theorem baseOfStart_point (cs : List Char) : Base.ofStart ('0' :: '.' :: cs) = none := by
  simp only [Base.ofStart]
  decide

/-- The exponent is read as the power of ten of the first digit. -/
theorem readExponent_power (z : Int) (k : Nat) :
    readExponent ('e' :: (if z < 0 then '-' else '+') ::
      (List.replicate k '0' ++ Nat.toDigits 10 z.natAbs)) = some z := by
  have hdigits : ∀ c ∈ List.replicate k '0' ++ Nat.toDigits 10 z.natAbs, isDigit c := by
    intro c hc
    rcases List.mem_append.1 hc with hzero | hdigit
    · exact isDigit_of_mem_zeros hzero
    · exact isDigit_of_mem_toDigits hdigit
  have hread := readNat_of_forall (by simp [Nat.toDigits_ne_nil]) hdigits
  rw [decimalValue_zeros, decimalValue_toDigits] at hread
  split
  · have habs : -(z.natAbs : Int) = z := by omega
    simp only [readExponent, beq_self_eq_true, Bool.true_or, if_true, hread]
    exact congrArg some habs
  · have habs : (z.natAbs : Int) = z := by omega
    simp only [readExponent, beq_self_eq_true, Bool.true_or, if_true, hread, Option.map_some,
      Int.ofNat_eq_natCast, habs]

section Proper

variable {s : Significand} (h : s.Proper)
include h

theorem head_append (ds : List Char) : (s.digits ++ ds).head? ≠ some '0' := by
  rw [List.head?_append_of_ne_nil _ h.nonempty]
  exact h.first

/-- Zeros between the point and the digits. -/
theorem writesDecimal_small {k : Nat} (hk : s.exponent + 1 = -(k : Int)) :
    WritesDecimal (['0', '.'] ++ List.replicate k '0' ++ s.digits) s.value := by
  have hdigits : ∀ ds ∈ some (List.replicate k '0' ++ s.digits), ∀ c ∈ ds, isDigit c := by
    rintro _ ⟨⟩ c hc
    rcases List.mem_append.1 hc with hzero | hdigit
    · exact isDigit_of_mem_zeros hzero
    · exact h.digits c hdigit
  have hvalue := decimalValue_zeros (k + 1) s.digits
  have hexponent : (0 : Int) - (List.replicate k '0' ++ s.digits).length =
      s.exponent + 1 - s.digits.length := by
    rw [List.length_append, List.length_replicate]
    omega
  refine .of_eq ⟨['0'], _, fun c => isDigit_of_mem_zeros (k := 1), hdigits⟩
    ?_ (by simp) (baseOfStart_point _) readExponent_nil ?_
  · simp [FixedPoint.text, FixedPoint.point]
  · rw [value, ← hexponent, ← hvalue]
    rfl

/-- Zeros behind the digits, and perhaps an exponent. -/
theorem writesDecimal_whole {k : Nat} {rest : List Char} {e : Int}
    (hrest : readExponent rest = some e) (hk : s.exponent + 1 = e + (s.digits.length + k : Nat)) :
    WritesDecimal (s.digits ++ List.replicate k '0' ++ rest) s.value := by
  have hdigits : ∀ c ∈ s.digits ++ List.replicate k '0', isDigit c := by
    intro c hc
    rcases List.mem_append.1 hc with hdigit | hzero
    · exact h.digits c hdigit
    · exact isDigit_of_mem_zeros hzero
  have hexponent : s.exponent + 1 - s.digits.length = k + e := by omega
  refine .of_eq ⟨_, none, hdigits, by simp⟩ ?_ (by simp [h.nonempty]) ?_ hrest ?_
  · simp [FixedPoint.text, FixedPoint.point]
  · rw [List.append_assoc]
    exact baseOfStart_of_head (head_append h _)
  · rw [value, hexponent, zpow_add₀ (by norm_num), zpow_natCast]
    simp only [FixedPoint.digits, FixedPoint.decimals, Option.getD_none, List.append_nil,
      decimalValue_append_zeros]
    simp
    ring

/-- The point between the digits, and perhaps an exponent. -/
theorem writesDecimal_point {k : Nat} {rest : List Char} {e : Int} (hpos : 0 < k)
    (hle : k ≤ s.digits.length) (hrest : readExponent rest = some e) (hk : s.exponent + 1 = e + k) :
    WritesDecimal (s.digits.take k ++ '.' :: s.digits.drop k ++ rest) s.value := by
  have hsome : s.digits.take k ≠ [] := by simp [h.nonempty, hpos.ne']
  have hhead : (s.digits.take k).head? ≠ some '0' := by
    rw [List.head?_take, if_neg hpos.ne']
    exact h.first
  have hdigits : ∀ ds ∈ some (s.digits.drop k), ∀ c ∈ ds, isDigit c := by
    rintro _ ⟨⟩ c hc
    exact h.digits c (List.mem_of_mem_drop hc)
  have hexponent : e - (s.digits.drop k).length = s.exponent + 1 - s.digits.length := by
    rw [List.length_drop]
    omega
  refine .of_eq ⟨_, _, fun c hc => h.digits c (List.mem_of_mem_take hc), hdigits⟩ ?_ hsome
    (baseOfStart_of_head ?_) hrest ?_
  · simp [FixedPoint.text, FixedPoint.point]
  · rwa [List.append_assoc, List.head?_append_of_ne_nil _ hsome]
  · rw [value, ← hexponent]
    simp [FixedPoint.digits, FixedPoint.decimals]

/-- In plain notation the digits stand for their number. -/
theorem writesDecimal_plain : WritesDecimal s.plain s.value := by
  have hlength : 0 < s.digits.length := List.length_pos_of_ne_nil h.nonempty
  unfold plain
  dsimp only
  split
  · exact writesDecimal_small h (by omega)
  · split
    · have hwhole := writesDecimal_whole h (k := (s.exponent + 1).toNat - s.digits.length)
        readExponent_nil (by omega)
      rwa [List.append_nil] at hwhole
    · have hpoint := writesDecimal_point h (k := (s.exponent + 1).toNat) (by omega) (by omega)
        readExponent_nil (by omega)
      rwa [List.append_nil] at hpoint

/-- With an exponent they stand for it too. -/
theorem writesDecimal_scientific : WritesDecimal s.scientific s.value := by
  have hrest := readExponent_power s.exponent (2 - (Nat.toDigits 10 s.exponent.natAbs).length)
  unfold scientific
  dsimp only
  generalize 'e' :: (if s.exponent < 0 then '-' else '+') :: _ = rest at hrest ⊢
  split
  · rename_i first d more hcs
    have hpoint := writesDecimal_point h (k := 1) (by decide) (by simp [hcs]) hrest (by simp)
    rw [hcs] at hpoint
    exact hpoint
  · rename_i hshort
    have hone : s.digits.length = 1 := by
      cases hcs : s.digits with
      | nil => exact absurd hcs h.nonempty
      | cons first ds =>
          cases ds with
          | nil => rfl
          | cons d more => exact absurd hcs (hshort first d more)
    have hwhole := writesDecimal_whole h (k := 0) hrest (by omega)
    rwa [List.replicate_zero, List.append_nil] at hwhole

end Proper

end Significand

/-! ## Texts of floats -/

namespace Binary64

open Float.Model (UnpackedFloat)
open Float.Model.UnpackedFloat (Sign)

theorem sub_eq_ofParts (x y : Float) : x - y = ofParts (.sub .binary64 (parts x) (parts y)) := rfl

/-- The exponents of floats are bounded. -/
theorem le_of_parts {x : Float} {s : Sign} {m : Nat} {e : Int} {hpos : 0 < m}
    (h : parts x = .finite s m e hpos) : e ≤ 971 := by
  have hagain := parts_ofParts_finite (s := s) (fits_of_parts h)
  rw [← h, ofParts_parts, h] at hagain
  by_contra hgreat
  rw [if_pos (by omega)] at hagain
  cases hagain

theorem proper_ofBinary {negative : Bool} {m : Nat} {e : Int} (h : Fits m e) (he : e ≤ 971) :
    (Significand.ofBinary ⟨negative, m, e⟩).Proper := by
  refine Significand.proper_ofDigits (Nat.pos_of_ne_zero fun hzero => ?_)
  -- zero is beyond no float
  have hbeyond := (Interval.beyond_of_holds h (@Interval.holds_shortest negative m e h he)).1
  rw [hzero, Nat.cast_zero, zero_mul, Beyond, mul_zero] at hbeyond
  have hpos : (0 : ℚ) < (2 * (previous m e).1 + 1) * 2 ^ (previous m e).2 := by positivity
  rcases hbeyond with hlt | ⟨-, heq⟩
  · exact absurd hlt hpos.le.not_gt
  · exact hpos.ne' heq

section Finite

variable {x : Float} {s : Sign} {m : Nat} {e : Int} {hpos : 0 < m}
  (h : parts x = .finite s m e hpos)
include h

/-- The text of a finite float is a numeral behind its sign. -/
theorem formatNumber_of_parts : ∃ cs,
    formatNumber x = String.ofList (if s == .negative then '-' :: cs else cs) ∧
      WritesDecimal cs (shortest ⟨s == .negative, m, e⟩).value := by
  have hnan : x.isNaN = false := congrArg UnpackedFloat.isNaN h
  have hinf : x.isInf = false := congrArg UnpackedFloat.isInf h
  have hzero : (x == 0) = false := by
    have hbeq : (x == 0) = (parts x).beq (.zero .positive) := rfl
    rw [hbeq, h]
    cases s <;> rfl
  have hfits := fits_of_parts h
  have hproper := @proper_ofBinary (s == .negative) m e hfits (le_of_parts h)
  have hvalue : (Significand.ofBinary ⟨s == .negative, m, e⟩).value =
      (shortest ⟨s == .negative, m, e⟩).value := Significand.value_ofDigits _
  have hplain := Significand.writesDecimal_plain hproper
  have hscientific := Significand.writesDecimal_scientific hproper
  rw [hvalue] at hplain hscientific
  simp only [formatNumber, hnan, hinf, hzero, Bool.false_eq_true, if_false, formatWith,
    ofFloat_of_parts h]
  refine ⟨_, rfl, ?_⟩
  split
  · exact hplain
  · exact hscientific

theorem isNegated_formatNumber : isNegated (formatNumber x) = (s == .negative) := by
  rcases formatNumber_of_parts h with ⟨cs, hformat, hwrites⟩
  rw [hformat, (hwrites.magnitude_ofList _).1]

/-- Without its sign the text can be read back. -/
theorem legibleNumber_of_parts : LegibleNumber (magnitude (formatNumber x)) := by
  rcases formatNumber_of_parts h with ⟨cs, hformat, hwrites⟩
  rw [hformat, (hwrites.magnitude_ofList _).2]
  exact hwrites.legibleNumber

/-- What is read has the same parts but for the sign. -/
theorem parts_numeralOf :
    parts (numeralOf (magnitude (formatNumber x))).value = .finite .positive m e hpos := by
  rcases formatNumber_of_parts h with ⟨cs, hformat, hwrites⟩
  rcases hwrites.exists_ofToken with ⟨y, htoken, hrounds⟩
  rw [hformat, (hwrites.magnitude_ofList _).2, numeralOf, htoken]
  exact eq_of_roundsTo_shortest (fits_of_parts h) (le_of_parts h) hrounds

end Finite

theorem zero_sub_of_parts {x y : Float} {m : Nat} {e : Int} {hpos : 0 < m}
    (hx : parts x = .finite .negative m e hpos) (hy : parts y = .finite .positive m e hpos) :
    0.0 - y = x := by
  have hzero : parts 0.0 = .zero .positive := rfl
  rw [sub_eq_ofParts, hzero, hy, ← ofParts_parts x, hx]
  rfl

end Binary64

open Float.Model (UnpackedFloat)
open Binary64

theorem legibleNumber_zero : LegibleNumber "0" :=
  legibleNumber_of_isOk (.inl ⟨⟨'0', [], by decide, by decide⟩, by decide⟩) (by decide) (by decide)

theorem legibleNumber_word {text : String} (h : text ∈ ["NaN", "Inf"]) : LegibleNumber text := by
  have hall : ∀ text ∈ ["NaN", "Inf"], Grammar.isNumberWord text ∧
      isPositiveDuration text = false ∧ (NumberLiteral.ofToken text).isOk := by
    decide
  exact legibleNumber_of_isOk (.inr (hall text h).1) (hall text h).2.1 (hall text h).2.2

/-- A float is none, an infinity or a zero, or has a mantissa. -/
@[elab_as_elim]
theorem cases_parts {P : Float → Prop} (x : Float) (notANumber : P (ofParts .notANumber))
    (infinity : ∀ s, P (ofParts (.infinity s))) (zero : ∀ s, P (ofParts (.zero s)))
    (finite : ∀ x s m e hpos, parts x = .finite s m e hpos → P x) : P x := by
  have hx := ofParts_parts x
  cases hparts : parts x with
  | notANumber => exact hx ▸ hparts ▸ notANumber
  | infinity s => exact hx ▸ hparts ▸ infinity s
  | zero s => exact hx ▸ hparts ▸ zero s
  | finite s m e hpos => exact finite x s m e hpos hparts

/-- The texts of the floats without a mantissa. -/
theorem formatNumber_ofParts :
    formatNumber (ofParts .notANumber) = "NaN" ∧
      formatNumber (ofParts (.infinity .positive)) = "+Inf" ∧
        formatNumber (ofParts (.infinity .negative)) = "-Inf" ∧
          formatNumber (ofParts (.zero .positive)) = "0" ∧
            formatNumber (ofParts (.zero .negative)) = "-0" := by
  decide +kernel

/-- The sign is printed where the sign bit is set. -/
theorem isNegated_eq_isSignNegative (x : Float) : isNegated (formatNumber x) = isSignNegative x := by
  induction x using cases_parts with
  | notANumber => decide +kernel
  | infinity s => cases s <;> decide +kernel
  | zero s => cases s <;> decide +kernel
  | finite x s m e hpos hparts =>
      rw [isNegated_formatNumber hparts]
      exact (congrArg Binary64.negative (ofFloat_of_parts hparts)).symm

/-- The text of a number can be read back without its sign, unless it is that of an infinity. -/
theorem legibleNumber_formatNumber {x : Float} (h : formatNumber x ≠ "+Inf") :
    LegibleNumber (magnitude (formatNumber x)) := by
  rcases formatNumber_ofParts with ⟨hnan, hinfinity, hminusInfinity, hzero, hminusZero⟩
  induction x using cases_parts with
  | notANumber =>
      rw [hnan]
      exact legibleNumber_word (by decide)
  | infinity s =>
      cases s with
      | positive => exact absurd hinfinity h
      | negative =>
          rw [hminusInfinity]
          exact legibleNumber_word (by decide)
  | zero s =>
      cases s with
      | positive =>
          rw [hzero]
          exact legibleNumber_zero
      | negative =>
          rw [hminusZero]
          exact legibleNumber_zero
  | finite x s m e hpos hparts => exact legibleNumber_of_parts hparts

/-- The text of a negative number is read as a number that is subtracted from zero, and gives the
number again.  Of a zero the sign is lost. -/
theorem zero_sub_numeralOf {x : Float} (hminus : isNegated (formatNumber x))
    (hzero : formatNumber x ≠ "-0") :
    0.0 - (numeralOf (magnitude (formatNumber x))).value = x := by
  rcases formatNumber_ofParts with ⟨hnan, hinfinity, hminusInfinity, hplusZero, hminusZero⟩
  induction x using cases_parts with
  | notANumber =>
      rw [hnan] at hminus
      cases hminus
  | infinity s =>
      cases s with
      | positive =>
          rw [hinfinity] at hminus
          cases hminus
      | negative =>
          have hvalue : (numeralOf (magnitude "-Inf")).value = ofParts (.infinity .positive) := by
            decide +kernel
          rw [hminusInfinity, hvalue]
          rfl
  | zero s =>
      cases s with
      | positive =>
          rw [hplusZero] at hminus
          cases hminus
      | negative => exact absurd hminusZero hzero
  | finite x s m e hpos hparts =>
      rw [isNegated_formatNumber hparts, beq_iff_eq] at hminus
      -- The digits give the number back without its sign, and zero minus that is exact.
      subst hminus
      exact zero_sub_of_parts hparts (parts_numeralOf hparts)

end SeriesQuery
