import SeriesQuery.Proofs.DecimalFloats

/-!
# Values of scanned numbers

A decimal number that is found at the start of a text can be read.  Where a multiplier stands behind
its digits, the value is that of the digits times a power of 1000 or of 1024.

* `splitNumber_cases` — what a scanned number consists of;
* `positiveValue?_letters` — the value in front of a multiplier;
* `readPositive_of_splitNumber` — scanned numbers can be read, and multipliers count as they should.
-/

namespace SeriesQuery

open Text

/-! ## Multipliers -/

/-- The sizes that multipliers come in. -/
inductive Magnitude where
  | kilo
  | mega
  | giga
  | tera
  deriving DecidableEq, Repr

namespace Magnitude

/-- The letter of the size. -/
def letter : Magnitude → Char
  | kilo => 'k'
  | mega => 'm'
  | giga => 'g'
  | tera => 't'

/-- How often the base is multiplied with itself. -/
def power : Magnitude → Nat
  | kilo => 1
  | mega => 2
  | giga => 3
  | tera => 4

theorem exists_of_isMultiplierLetter {c : Char} (h : isMultiplierLetter c) :
    ∃ size : Magnitude, c = size.letter := by
  simp only [isMultiplierLetter, Bool.or_eq_true, beq_iff_eq] at h
  rcases h with ((rfl | rfl) | rfl) | rfl
  · exact ⟨kilo, rfl⟩
  · exact ⟨mega, rfl⟩
  · exact ⟨giga, rfl⟩
  · exact ⟨tera, rfl⟩

end Magnitude

/-- A multiplier: a size, perhaps an `i` for powers of 1024, and perhaps a `b`, which means nothing. -/
structure Multiplier where
  size : Magnitude
  binary : Bool
  inBytes : Bool
  deriving DecidableEq, Repr

namespace Multiplier

/-- The multiplier in small letters. -/
def letters (m : Multiplier) : List Char :=
  m.size.letter :: ((if m.binary then ['i'] else []) ++ if m.inBytes then ['b'] else [])

/-- The number whose powers the multiplier counts in. -/
def base (m : Multiplier) : Nat :=
  if m.binary then 1024 else 1000

/-- What the multiplier stands for. -/
def factor (m : Multiplier) : Float :=
  Float.ofNat (m.base ^ m.size.power)

/-- Letters that a multiplier may end with. -/
def lastLetters : List Char :=
  ['k', 'm', 'g', 't', 'i', 'b']

theorem getLast?_letters (m : Multiplier) : ∃ c ∈ lastLetters, m.letters.getLast? = some c := by
  rcases m with ⟨size, binary, inBytes⟩
  cases size <;> cases binary <;> cases inBytes <;> exact ⟨_, by decide, rfl⟩

/-- What is counted as a multiplier is one, in any case of its letters. -/
theorem exists_letters {cs : List Char} (h : 0 < multiplierLength cs) :
    ∃ m : Multiplier, (cs.take (multiplierLength cs)).map Char.toLower = m.letters := by
  rcases multiplierLength_cases h with ⟨a, ds, left, rfl, ha, hds, hlength⟩
  rcases Magnitude.exists_of_isMultiplierLetter ha with ⟨size, hsize⟩
  rw [hlength, List.take_left, List.map_cons, hsize]
  rcases hds with ⟨rfl, -⟩ | hds
  · exact ⟨⟨size, false, false⟩, rfl⟩
  · simp only [List.mem_cons, List.not_mem_nil, or_false] at hds
    rcases hds with hds | hds | hds <;> rw [hds]
    · exact ⟨⟨size, true, false⟩, rfl⟩
    · exact ⟨⟨size, false, true⟩, rfl⟩
    · exact ⟨⟨size, true, true⟩, rfl⟩

/-- The table has a line for each multiplier, and no line before it fits. -/
theorem find?_multipliers (m : Multiplier) (ds : List Char) :
    multipliers.find? (fun line => line.1.isSuffixOf (ds ++ m.letters)) =
      some (m.letters, m.factor) := by
  rcases m with ⟨size, binary, inBytes⟩
  cases size <;> cases binary <;> cases inBytes <;>
    simp [multipliers, letters, Magnitude.letter, List.isSuffixOf, List.isPrefixOf] <;>
    decide +kernel

theorem splitMultiplier_letters (m : Multiplier) (ds : List Char) :
    splitMultiplier (ds ++ m.letters) = (ds, m.factor) := by
  have hlength : (ds ++ m.letters).length - m.letters.length = ds.length := by simp
  rw [splitMultiplier, find?_multipliers]
  simp only [hlength, List.take_left]

end Multiplier

theorem notMem_lastLetters_of_isDigit {c : Char} (h : isDigit c) : c ∉ Multiplier.lastLetters := by
  intro hletter
  have hnone : ∀ c ∈ Multiplier.lastLetters, isDigit c = false := by
    simp [Multiplier.lastLetters, isDigit]
  rw [hnone c hletter] at h
  cases h

/-- Without the letters of a multiplier at its end a text is read as it is. -/
theorem splitMultiplier_of_getLast {cs : List Char}
    (h : ∀ c ∈ cs.getLast?, c ∉ Multiplier.lastLetters) : splitMultiplier cs = (cs, 1.0) := by
  have hlast : ∀ line ∈ multipliers, ∃ c ∈ line.1.getLast?, c ∈ Multiplier.lastLetters := by
    simp [multipliers, Multiplier.lastLetters]
  have hnone : multipliers.find? (fun line => line.1.isSuffixOf cs) = none := by
    apply List.find?_eq_none.2
    intro line hline hsuffix
    rcases hlast line hline with ⟨c, hc, hletter⟩
    rcases List.isSuffixOf_iff_suffix.1 hsuffix with ⟨ds, rfl⟩
    refine h c ?_ hletter
    rw [List.getLast?_append, Option.mem_def.1 hc]
    rfl
  rw [splitMultiplier, hnone]

/-! ## Texts as they are read -/

/-- The text in small letters and without underscores, as its value is read. -/
def asRead (cs : List Char) : List Char :=
  (cs.map Char.toLower).filter (· != '_')

theorem asRead_append (cs ds : List Char) : asRead (cs ++ ds) = asRead cs ++ asRead ds := by
  simp [asRead]

theorem positiveValue?_of_base_none {cs : List Char} (h : Base.ofStart cs = none) :
    positiveValue? cs =
      (readFloat (splitMultiplier (asRead cs)).1).map (· * (splitMultiplier (asRead cs)).2) := by
  unfold positiveValue?
  rw [h]
  rfl

theorem toLower_of_isDigit {c : Char} (h : isDigit c) : c.toLower = c := by
  rcases isAsciiLetter_or_toLower_eq c with hletter | hsame
  · rw [isAsciiLetter_iff] at hletter
    rw [isDigit_iff] at h
    omega
  · exact hsame

theorem ne_underscore_of_isDigit {c : Char} (h : isDigit c) : c ≠ '_' := by
  rintro rfl
  exact absurd h (by decide)

theorem asRead_cons_of_isDigit {c : Char} (h : isDigit c) (cs : List Char) :
    asRead (c :: cs) = c :: asRead cs := by
  simp [asRead, toLower_of_isDigit h, ne_underscore_of_isDigit h]

theorem asRead_point (cs : List Char) : asRead ('.' :: cs) = '.' :: asRead cs := rfl

/-- Of digits and underscores the digits are left. -/
theorem isDigit_of_mem_asRead {cs : List Char} (h : ∀ c ∈ cs, isDigitOrUnderscore c) :
    ∀ c ∈ asRead cs, isDigit c := by
  intro c hc
  rcases List.mem_filter.1 hc with ⟨hmem, hline⟩
  rcases List.mem_map.1 hmem with ⟨d, hd, rfl⟩
  have hcases := h d hd
  simp only [isDigitOrUnderscore, Bool.or_eq_true, beq_iff_eq] at hcases
  rcases hcases with hdigit | rfl
  · rwa [toLower_of_isDigit hdigit]
  · exact absurd hline (by decide)

theorem asRead_of_forall {cs : List Char} (h : ∀ c ∈ cs, isDigit c ∨ c = '.') : asRead cs = cs := by
  induction cs with
  | nil => rfl
  | cons c cs ih =>
      have hparts := List.forall_mem_cons.1 h
      rcases hparts.1 with hdigit | rfl
      · rw [asRead_cons_of_isDigit hdigit, ih hparts.2]
      · rw [asRead_point, ih hparts.2]

/-- A number starts with a digit, or with a point and a digit. -/
theorem startsNumber_cases {cs : List Char} (h : startsNumber cs) :
    ∃ d rest, isDigit d ∧ (cs = d :: rest ∨ cs = '.' :: d :: rest) := by
  cases cs with
  | nil => cases h
  | cons c cs =>
      by_cases hpoint : c = '.'
      · subst hpoint
        cases cs with
        | nil => exact absurd (show isDigit '.' = true from h) (by decide)
        | cons d cs => exact ⟨d, cs, h, .inr rfl⟩
      · exact ⟨c, cs, by simpa [startsNumber, hpoint] using h, .inl rfl⟩

theorem startsNumber_of_isDigit {d : Char} (h : isDigit d) (rest : List Char) :
    startsNumber (d :: rest) := by
  have hpoint : d ≠ '.' := by
    rintro rfl
    exact absurd h (by decide)
  simpa [startsNumber, hpoint] using h

theorem startsNumber_asRead {cs : List Char} (h : startsNumber cs) : startsNumber (asRead cs) := by
  rcases startsNumber_cases h with ⟨d, rest, hd, rfl | rfl⟩
  · rw [asRead_cons_of_isDigit hd]
    exact startsNumber_of_isDigit hd _
  · rw [asRead_point, asRead_cons_of_isDigit hd]
    exact hd

/-! ## What is scanned -/

/-- What may stand behind the digits of a scanned number. -/
inductive Ending : List Char → Prop where
  | nothing : Ending []
  | multiplier {u : List Char} (m : Multiplier) (letters : u.map Char.toLower = m.letters) : Ending u
  | exponent {mark : Char} {sign digits : List Char} (isMark : mark = 'e' ∨ mark = 'E')
      (isSign : sign ∈ [['-'], ['+'], []]) (someDigit : digits ≠ [])
      (allDigits : ∀ c ∈ digits, isDigit c) : Ending (mark :: (sign ++ digits))

theorem splitExponent_cases {whole taken cs t left : List Char}
    (h : splitExponent whole taken cs = .ok (t, left)) :
    ∃ sign digits, t = taken ++ (sign ++ digits) ∧ sign ∈ [['-'], ['+'], []] ∧ digits ≠ [] ∧
      ∀ c ∈ digits, isDigit c := by
  rw [splitExponent_eq] at h
  split at h
  · cases h
  · rename_i hdigits
    cases h
    refine ⟨_, _, List.append_assoc _ _ _, exponentSign_cases cs, ?_, ?_⟩
    · simpa using hdigits
    · exact fun c hc => List.mem_takeWhile_imp hc

theorem splitSuffix_cases {whole taken cs t left : List Char}
    (h : splitSuffix whole taken cs = .ok (t, left)) : ∃ u, t = taken ++ u ∧ Ending u := by
  unfold splitSuffix at h
  dsimp only at h
  split at h
  · rename_i hpos
    cases h
    rcases Multiplier.exists_letters hpos with ⟨m, hm⟩
    exact ⟨_, rfl, .multiplier m hm⟩
  · split at h
    · rename_i c after _
      split at h
      · rename_i hmark
        rcases splitExponent_cases h with ⟨sign, digits, rfl, hsign, hsome, hall⟩
        refine ⟨c :: (sign ++ digits), by simp, .exponent ?_ hsign hsome hall⟩
        simpa using hmark
      · cases h
        exact ⟨[], by simp, .nothing⟩
    · cases h
      exact ⟨[], by simp, .nothing⟩

/-- Digits and underscores, perhaps with a point and more of them, are read as a numeral. -/
theorem exists_numeral {whole point : List Char} (hwhole : ∀ c ∈ whole, isDigitOrUnderscore c)
    (hpoint : point = [] ∨ ∃ ds, point = '.' :: ds ∧ ∀ c ∈ ds, isDigitOrUnderscore c) :
    ∃ n : FixedPoint, asRead (whole ++ point) = n.text := by
  have hdigits := isDigit_of_mem_asRead hwhole
  rcases hpoint with rfl | ⟨ds, rfl, hds⟩
  · refine ⟨⟨asRead whole, none, hdigits, by simp⟩, ?_⟩
    simp [FixedPoint.text, FixedPoint.point]
  · have hdecimals := isDigit_of_mem_asRead hds
    refine ⟨⟨asRead whole, some (asRead ds), hdigits, ?_⟩, ?_⟩
    · rintro _ ⟨⟩
      exact hdecimals
    · simp [FixedPoint.text, FixedPoint.point, asRead_append, asRead_point]

/-- A numeral that starts like a number has digits. -/
theorem digits_ne_nil_of_startsNumber {n : FixedPoint} {body : List Char}
    (hread : asRead body = n.text) (h : startsNumber body) : n.digits ≠ [] := by
  have hstarts := n.startsNumber_text endsNumeral_nil
  rw [List.append_nil, ← hread, startsNumber_asRead h] at hstarts
  intro hnil
  simp [hnil] at hstarts

/-- A decimal number that is scanned is a numeral, but for its underscores, with an ending. -/
theorem splitNumber_cases {cs t left : List Char} (hstarts : startsNumber cs)
    (hbase : Base.ofStart cs = none) (h : splitNumber cs = .ok (t, left)) :
    ∃ (n : FixedPoint) (body u : List Char), t = body ++ u ∧ asRead body = n.text ∧
      n.digits ≠ [] ∧ Ending u := by
  have hmarked : marked cs = 0 := by simp [marked, hbase]
  have hdigit : ∀ {d : Char}, isDigit d → isDigitOrUnderscore d := fun hd => by
    simp [isDigitOrUnderscore, hd]
  have hwhole : ∀ c ∈ cs.takeWhile isDigitOrUnderscore, isDigitOrUnderscore c :=
    fun c hc => List.mem_takeWhile_imp hc
  rw [splitNumber_of_ne (by simp [hbase]), hmarked, List.take_zero, List.drop_zero,
    List.nil_append] at h
  split at h
  · cases h
  · by_cases hpoint : ∃ after, cs.dropWhile isDigitOrUnderscore = '.' :: after
    · rcases hpoint with ⟨after, hafter⟩
      rw [hafter] at h
      rcases splitSuffix_cases h with ⟨u, rfl, hu⟩
      have hfraction : ∀ c ∈ after.takeWhile isDigitOrUnderscore, isDigitOrUnderscore c :=
        fun c hc => List.mem_takeWhile_imp hc
      rcases exists_numeral hwhole (.inr ⟨_, rfl, hfraction⟩) with ⟨n, hn⟩
      refine ⟨n, _, u, rfl, hn, digits_ne_nil_of_startsNumber hn ?_, hu⟩
      rcases startsNumber_cases hstarts with ⟨d, rest, hd, rfl | rfl⟩
      · rw [List.takeWhile_cons_of_pos (hdigit hd)]
        exact startsNumber_of_isDigit hd _
      · -- the point comes first, and the digit behind it is the first of the fraction
        cases hafter
        rw [List.takeWhile_cons_of_pos (hdigit hd)]
        exact hd
    · -- without a point the number cannot start with one
      have hne : ∀ after, cs.dropWhile isDigitOrUnderscore ≠ '.' :: after :=
        fun after heq => hpoint ⟨after, heq⟩
      rw [splitFraction_of_ne hne] at h
      rcases splitSuffix_cases h with ⟨u, rfl, hu⟩
      rcases exists_numeral hwhole (.inl rfl) with ⟨n, hn⟩
      rw [List.append_nil] at hn
      refine ⟨n, _, u, rfl, hn, digits_ne_nil_of_startsNumber hn ?_, hu⟩
      rcases startsNumber_cases hstarts with ⟨d, rest, hd, rfl | rfl⟩
      · rw [List.takeWhile_cons_of_pos (hdigit hd)]
        exact startsNumber_of_isDigit hd _
      · exact absurd rfl (hne (d :: rest))

/-! ## Values -/

theorem readPositive_ofList {cs : List Char} {x : Float} (h : positiveValue? cs = some x) :
    readPositive (String.ofList cs) = .ok x := by
  simp [readPositive, h]

theorem FixedPoint.text_ne_nil (n : FixedPoint) (h : n.digits ≠ []) : n.text ≠ [] := by
  intro hnil
  have hparts := List.append_eq_nil_iff.1 hnil
  refine h ?_
  cases hfraction : n.fraction with
  | none => simp [digits, decimals, hparts.1, hfraction]
  | some ds => simp [point, hfraction] at hparts

/-- A numeral with an exponent is read with the power of ten moved by it. -/
theorem FixedPoint.readFloat_text_append {n : FixedPoint} (hdigits : n.digits ≠ [])
    {rest : List Char} (hends : EndsNumeral rest) {e : Int} (hrest : readExponent rest = some e) :
    readFloat (n.text ++ rest) =
      some (Decimal.toFloat ⟨decimalValue n.digits, e - n.decimals.length⟩) := by
  have hhead := n.head_text (n.text_ne_nil hdigits) rest
  rw [readFloat_of_head hhead, readMagnitude_eq hhead, n.readDecimal_text hends,
    n.joinDigits_eq hdigits, hrest]
  rfl

theorem exists_readExponent {mark : Char} {sign digits : List Char} (hmark : mark = 'e' ∨ mark = 'E')
    (hsign : sign ∈ [['-'], ['+'], []]) (hsome : digits ≠ []) (hall : ∀ c ∈ digits, isDigit c) :
    ∃ e, readExponent (mark :: (sign ++ digits)) = some e := by
  have hread := readNat_of_forall hsome hall
  have hletter : (mark == 'e' || mark == 'E') = true := by simpa using hmark
  simp only [List.mem_cons, List.not_mem_nil, or_false] at hsign
  rcases hsign with rfl | rfl | rfl
  · exact ⟨_, by simp [readExponent, hletter, hread]; rfl⟩
  · exact ⟨_, by simp [readExponent, hletter, hread]; rfl⟩
  · cases digits with
    | nil => exact absurd rfl hsome
    | cons d digits =>
        have hd := hall d List.mem_cons_self
        have hminus : d ≠ '-' ∧ d ≠ '+' := by
          constructor <;> rintro rfl <;> exact absurd hd (by decide)
        exact ⟨_, by simp [readExponent, hletter, hread, hminus]; rfl⟩

section

variable {n : FixedPoint} (hdigits : n.digits ≠ []) {body : List Char}
include hdigits

omit hdigits in
theorem FixedPoint.getLast?_text_notMem (n : FixedPoint) :
    ∀ c ∈ n.text.getLast?, c ∉ Multiplier.lastLetters := by
  intro c hc
  rcases n.isDigit_of_mem_text (List.mem_of_getLast? hc) with hdigit | rfl
  · exact notMem_lastLetters_of_isDigit hdigit
  · decide

/-- Digits with underscores among them are read as the numeral without these. -/
theorem positiveValue?_numeral (hbase : Base.ofStart body = none) (hread : asRead body = n.text) :
    positiveValue? body = some n.decimal.toFloat := by
  rw [positiveValue?_of_base_none hbase, hread, splitMultiplier_of_getLast n.getLast?_text_notMem,
    n.readFloat_text hdigits, Option.map_some, Binary64.mul_one_float]

/-- In front of a multiplier the value of the digits is multiplied. -/
theorem positiveValue?_letters {cs : List Char} (hbase : Base.ofStart cs = none) {m : Multiplier}
    (hread : asRead cs = n.text ++ m.letters) :
    positiveValue? cs = some (n.decimal.toFloat * m.factor) := by
  rw [positiveValue?_of_base_none hbase, hread, m.splitMultiplier_letters, n.readFloat_text hdigits,
    Option.map_some]

omit hdigits in
theorem asRead_exponent {mark : Char} {sign digits : List Char} (hmark : mark = 'e' ∨ mark = 'E')
    (hsign : sign ∈ [['-'], ['+'], []]) (hall : ∀ c ∈ digits, isDigit c) :
    asRead (mark :: (sign ++ digits)) = 'e' :: (sign ++ digits) := by
  have hsigns : ∀ sign ∈ [['-'], ['+'], []], asRead sign = sign := by decide
  have hletter : asRead (mark :: (sign ++ digits)) = 'e' :: asRead (sign ++ digits) := by
    rcases hmark with rfl | rfl <;> rfl
  rw [hletter, asRead_append, hsigns sign hsign, asRead_of_forall fun c hc => .inl (hall c hc)]

omit hdigits in
/-- The digits of an exponent are last. -/
theorem getLast?_exponent_notMem {cs sign digits : List Char} {mark : Char} (hsome : digits ≠ [])
    (hall : ∀ c ∈ digits, isDigit c) :
    ∀ c ∈ (cs ++ mark :: (sign ++ digits)).getLast?, c ∉ Multiplier.lastLetters := by
  intro c hc
  rw [← List.cons_append, ← List.append_assoc, List.getLast?_append_of_ne_nil _ hsome] at hc
  exact notMem_lastLetters_of_isDigit (hall c (List.mem_of_getLast? hc))

/-- With an exponent behind it a numeral has a value as well. -/
theorem positiveValue?_exponent {mark : Char} {sign digits : List Char} {e : Int}
    (hbase : Base.ofStart (body ++ mark :: (sign ++ digits)) = none) (hread : asRead body = n.text)
    (hmark : mark = 'e' ∨ mark = 'E') (hsign : sign ∈ [['-'], ['+'], []]) (hsome : digits ≠ [])
    (hall : ∀ c ∈ digits, isDigit c) (he : readExponent (mark :: (sign ++ digits)) = some e) :
    positiveValue? (body ++ mark :: (sign ++ digits)) =
      some (Decimal.toFloat ⟨decimalValue n.digits, e - n.decimals.length⟩) := by
  have hsmall : readExponent ('e' :: (sign ++ digits)) = some e := by
    rcases hmark with rfl | rfl <;> exact he
  rw [positiveValue?_of_base_none hbase, asRead_append, hread, asRead_exponent hmark hsign hall,
    splitMultiplier_of_getLast (getLast?_exponent_notMem hsome hall),
    FixedPoint.readFloat_text_append hdigits (endsNumeral_cons (by decide) (by decide)) hsmall,
    Option.map_some, Binary64.mul_one_float]

end

/-- The base is told by the first two characters. -/
theorem baseOfStart_none_of_append {cs ds : List Char} (h : Base.ofStart (cs ++ ds) = none) :
    Base.ofStart cs = none := by
  have hagain := @baseOfStart_again cs ds fun base hbase => by
    rw [h] at hbase
    cases hbase
  rw [hagain, h]

theorem Multiplier.asRead_of_letters {u : List Char} {m : Multiplier}
    (h : u.map Char.toLower = m.letters) : asRead u = m.letters := by
  have hall : ∀ c ∈ m.letters, (c != '_') = true := by
    rcases m with ⟨size, binary, inBytes⟩
    cases size <;> cases binary <;> cases inBytes <;> simp [letters, Magnitude.letter]
  rw [asRead, h, List.filter_eq_self.2 hall]

/-- The last letter of a multiplier tells it from digits. -/
theorem not_letters_of_getLast? {cs ds : List Char} {m : Multiplier}
    (hlast : ∀ c ∈ cs.getLast?, c ∉ Multiplier.lastLetters) : cs ≠ ds ++ m.letters := by
  rintro rfl
  rcases m.getLast?_letters with ⟨c, hletter, hc⟩
  refine hlast c ?_ hletter
  rw [List.getLast?_append, hc]
  rfl

/-- A scanned number that ends with a multiplier has its digits in front of that. -/
theorem Ending.asRead_eq {n : FixedPoint} {body u d letters : List Char} (hu : Ending u)
    (hread : asRead body = n.text) {m : Multiplier} (hm : letters.map Char.toLower = m.letters)
    (h : body ++ u = d ++ letters) : asRead d = n.text := by
  have hequal : n.text ++ asRead u = asRead d ++ m.letters := by
    rw [← hread, ← asRead_append, h, asRead_append, m.asRead_of_letters hm]
  cases hu with
  | nothing =>
      refine absurd hequal (not_letters_of_getLast? ?_)
      simpa [asRead] using n.getLast?_text_notMem
  | multiplier m' hm' =>
      -- the multiplier that is scanned and the one that is split off take the same digits
      rw [m'.asRead_of_letters hm'] at hequal
      have hsplit := congrArg splitMultiplier hequal
      rw [m'.splitMultiplier_letters, m.splitMultiplier_letters] at hsplit
      exact (congrArg Prod.fst hsplit).symm
  | exponent hmark hsign hsome hall =>
      rw [asRead_exponent hmark hsign hall] at hequal
      exact absurd hequal (not_letters_of_getLast? (getLast?_exponent_notMem hsome hall))

/-- A scanned decimal number has a value.  If a multiplier is at its end, what stands before that is a
numeral but for its underscores, and the value is that of the numeral times a power of the base. -/
theorem readPositive_of_splitNumber {s : String} {t left : List Char}
    (hstarts : startsNumber s.toList) (hbase : Base.ofStart s.toList = none)
    (h : splitNumber s.toList = .ok (t, left)) :
    (∃ x, readPositive (String.ofList t) = .ok x) ∧
      ∀ d u, t = d ++ u → u ≠ [] → multiplierLength (u ++ left) = u.length →
        ∃ (m : Multiplier) (n : FixedPoint), u.map Char.toLower = m.letters ∧ asRead d = n.text ∧
          readPositive (String.ofList d) = .ok n.decimal.toFloat ∧
            readPositive (String.ofList t) =
              .ok (n.decimal.toFloat * Float.ofNat (m.base ^ m.size.power)) := by
  have hconcat := (splitNumber_concat h).1
  rcases splitNumber_cases hstarts hbase h with ⟨n, body, ending, rfl, hread, hdigits, hending⟩
  rw [← hconcat] at hbase
  have hbaseNumber := baseOfStart_none_of_append hbase
  constructor
  · -- whatever the ending is, the numeral in front of it is read
    cases hending with
    | nothing =>
        rw [List.append_nil] at hbaseNumber ⊢
        exact ⟨_, readPositive_ofList (positiveValue?_numeral hdigits hbaseNumber hread)⟩
    | multiplier m hm =>
        have hletters : asRead (body ++ ending) = n.text ++ m.letters := by
          rw [asRead_append, hread, m.asRead_of_letters hm]
        exact ⟨_, readPositive_ofList (positiveValue?_letters hdigits hbaseNumber hletters)⟩
    | exponent hmark hsign hsome hall =>
        rcases exists_readExponent hmark hsign hsome hall with ⟨e, he⟩
        exact ⟨_, readPositive_ofList
          (positiveValue?_exponent hdigits hbaseNumber hread hmark hsign hsome hall he)⟩
  · -- the letters that are scanned are those that the table is searched for
    intro d u hsplit hsome hlength
    have hpos : 0 < multiplierLength (u ++ left) := by
      rw [hlength]
      exact List.length_pos_of_ne_nil hsome
    rcases Multiplier.exists_letters hpos with ⟨m, hm⟩
    rw [hlength, List.take_left] at hm
    have hd : asRead d = n.text := hending.asRead_eq hread hm hsplit
    rw [hsplit] at hbaseNumber ⊢
    have hletters : asRead (d ++ u) = n.text ++ m.letters := by
      rw [asRead_append, hd, m.asRead_of_letters hm]
    refine ⟨m, n, hm, hd, ?_, ?_⟩
    · have hbaseDigits := baseOfStart_none_of_append hbaseNumber
      exact readPositive_ofList (positiveValue?_numeral hdigits hbaseDigits hd)
    · exact readPositive_ofList (positiveValue?_letters hdigits hbaseNumber hletters)

/-- A multiplier behind a fraction with underscores, in letters of both cases. -/
theorem readPositive_of_splitNumber_mebibytes :
    startsNumber "1_2.5_MiB/3".toList ∧ Base.ofStart "1_2.5_MiB/3".toList = none ∧
      splitNumber "1_2.5_MiB/3".toList = .ok ("1_2.5_MiB".toList, "/3".toList) ∧
        (∃ x, readPositive "1_2.5_MiB" = .ok x) ∧
          ∃ (m : Multiplier) (n : FixedPoint), "MiB".toList.map Char.toLower = m.letters ∧
            asRead "1_2.5_".toList = n.text ∧ readPositive "1_2.5_" = .ok n.decimal.toFloat ∧
              readPositive "1_2.5_MiB" =
                .ok (n.decimal.toFloat * Float.ofNat (m.base ^ m.size.power)) := by
  have hsplit : splitNumber "1_2.5_MiB/3".toList = .ok ("1_2.5_MiB".toList, "/3".toList) := by
    decide
  have hvalues := readPositive_of_splitNumber (s := "1_2.5_MiB/3") (by decide) (by decide) hsplit
  exact ⟨by decide, by decide, hsplit, hvalues.1,
    hvalues.2 "1_2.5_".toList "MiB".toList (by decide) (by decide) (by decide)⟩

end SeriesQuery
