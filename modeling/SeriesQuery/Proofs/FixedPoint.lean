import SeriesQuery.Proofs.Rescanning

/-!
# Numerals without exponents

`FixedPoint` is a numeral of digits with an optional point and more digits behind it.  Readers of
numbers and splitters of durations take such a numeral as a whole in front of everything that does
not go on with it.

* `readFloat_text` — the float that the numeral is read as;
* `splitPartNumber_text`, `splitPart_cases` — parts of durations are numerals with a unit.
-/

namespace SeriesQuery

open Text

/-- The text does not go on with a numeral. -/
def EndsNumeral (cs : List Char) : Prop :=
  ∀ c ∈ cs.head?, isDigit c = false ∧ c ≠ '.'

theorem endsNumeral_nil : EndsNumeral [] := by
  simp [EndsNumeral]

theorem endsNumeral_cons {c : Char} {cs : List Char} (hdigit : isDigit c = false) (hpoint : c ≠ '.') :
    EndsNumeral (c :: cs) := by
  simp [EndsNumeral, hdigit, hpoint]

theorem splitDigits_of_forall {ds rest : List Char} (hds : ∀ c ∈ ds, isDigit c)
    (hrest : ∀ c ∈ rest.head?, isDigit c = false) : splitDigits (ds ++ rest) = (ds, rest) := by
  rw [splitDigits, takeWhile_append_of_head hrest, dropWhile_append_of_head hrest,
    List.takeWhile_eq_self_iff.2 hds, List.dropWhile_eq_nil_iff.2 hds, List.nil_append]

/-- The number that decimal digits stand for. -/
def decimalValue (ds : List Char) : Nat :=
  ds.foldl (fun n c => n * 10 + (c.toNat - 48)) 0

theorem readDigits_of_forall {ds : List Char} (h : ∀ c ∈ ds, isDigit c) (acc : Nat) :
    readDigits 10 ds acc = some (ds.foldl (fun n c => n * 10 + (c.toNat - 48)) acc) := by
  induction ds generalizing acc with
  | nil => rfl
  | cons c ds ih =>
      have hparts := List.forall_mem_cons.1 h
      have hrange := isDigit_iff.1 hparts.1
      have hdigit : digitIn 10 c = some (c.toNat - 48) := by
        simp only [digitIn, digitValue, hparts.1, if_true, Option.filter_some]
        rw [if_pos (by simp; omega)]
      simp only [readDigits, hdigit, List.foldl_cons]
      exact ih hparts.2 _

theorem readNat_of_forall {ds : List Char} (hne : ds ≠ []) (h : ∀ c ∈ ds, isDigit c) :
    readNat 10 ds = some (decimalValue ds) := by
  cases ds with
  | nil => exact absurd rfl hne
  | cons c ds => exact readDigits_of_forall h 0

/-! ## Numerals -/

/-- A numeral of digits, and perhaps a point with more digits behind it. -/
structure FixedPoint where
  whole : List Char
  /-- The digits behind the point, if there is one. -/
  fraction : Option (List Char) := none
  whole_digits : ∀ c ∈ whole, isDigit c
  fraction_digits : ∀ ds ∈ fraction, ∀ c ∈ ds, isDigit c

namespace FixedPoint

/-- The numeral with these digits, which are checked one by one. -/
def ofDigits (whole : List Char) (fraction : Option (List Char)) (hwhole : whole.all isDigit)
    (hfraction : fraction.all (·.all isDigit)) : FixedPoint where
  whole
  fraction
  whole_digits := List.all_eq_true.1 hwhole
  fraction_digits ds hds := by
    cases hds
    exact List.all_eq_true.1 hfraction

/-- What stands behind the whole digits. -/
def point (n : FixedPoint) : List Char :=
  match n.fraction with
  | none => []
  | some ds => '.' :: ds

/-- The numeral as it is written. -/
def text (n : FixedPoint) : List Char :=
  n.whole ++ n.point

/-- The digits behind the point. -/
def decimals (n : FixedPoint) : List Char :=
  n.fraction.getD []

/-- All digits of the numeral. -/
def digits (n : FixedPoint) : List Char :=
  n.whole ++ n.decimals

/-- The digits as one number, with a power of ten. -/
def decimal (n : FixedPoint) : Decimal :=
  ⟨decimalValue n.digits, -(n.decimals.length : Int)⟩

variable (n : FixedPoint)

theorem isDigit_of_mem_decimals {c : Char} (h : c ∈ n.decimals) : isDigit c := by
  have hall := n.fraction_digits
  unfold decimals at h
  cases hfraction : n.fraction with
  | none => simp [hfraction] at h
  | some ds =>
      rw [hfraction] at h hall
      exact hall ds rfl c h

theorem isDigit_of_mem_digits {c : Char} (h : c ∈ n.digits) : isDigit c := by
  rcases List.mem_append.1 h with hwhole | hdecimals
  · exact n.whole_digits c hwhole
  · exact n.isDigit_of_mem_decimals hdecimals

/-- A numeral holds digits and points only. -/
theorem isDigit_of_mem_text {c : Char} (h : c ∈ n.text) : isDigit c ∨ c = '.' := by
  rcases List.mem_append.1 h with hwhole | hpoint
  · exact .inl (n.whole_digits c hwhole)
  · have hall := n.fraction_digits
    unfold point at hpoint
    cases hfraction : n.fraction with
    | none => simp [hfraction] at hpoint
    | some ds =>
        rw [hfraction] at hpoint hall
        rcases List.mem_cons.1 hpoint with rfl | hds
        · exact .inr rfl
        · exact .inl (hall ds rfl c hds)

/-- A numeral starts a number unless it has no digits. -/
theorem startsNumber_text {rest : List Char} (hrest : EndsNumeral rest) :
    startsNumber (n.text ++ rest) = !n.digits.isEmpty := by
  have hall := n.fraction_digits
  unfold text digits point decimals
  -- The first character is a digit, or the point, or else what ends the numeral.
  cases hwhole : n.whole with
  | cons c cs =>
      have hdigit := n.whole_digits c (by simp [hwhole])
      have hpoint : c ≠ '.' := by
        rintro rfl
        exact absurd hdigit (by decide)
      simp [startsNumber, hdigit, hpoint]
  | nil =>
      cases hfraction : n.fraction with
      | none =>
          cases rest with
          | nil => rfl
          | cons c rest =>
              have hc := hrest c rfl
              simp [startsNumber, hc]
      | some ds =>
          cases ds with
          | nil =>
              cases rest with
              | nil => rfl
              | cons c rest =>
                  have hc := hrest c rfl
                  simp [startsNumber, hc]
          | cons d ds =>
              rw [hfraction] at hall
              have hdigit := hall (d :: ds) rfl d List.mem_cons_self
              simp [startsNumber, hdigit]

/-! ## Values -/

theorem readDecimal_text {rest : List Char} (hrest : EndsNumeral rest) :
    readDecimal (n.text ++ rest) = joinDigits n.whole n.decimals rest := by
  have hall := n.fraction_digits
  have hnot : ∀ c ∈ rest.head?, isDigit c = false := fun c hc => (hrest c hc).1
  unfold text point decimals readDecimal
  cases hfraction : n.fraction with
  | none =>
      rw [List.append_nil, splitDigits_of_forall n.whole_digits hnot]
      cases rest with
      | nil => rfl
      | cons c rest =>
          have hc := (hrest c rfl).2
          simp [hc]
  | some ds =>
      rw [hfraction] at hall
      rw [List.append_assoc, List.cons_append,
        splitDigits_of_forall n.whole_digits (by simp; decide)]
      simp only [splitDigits_of_forall (hall ds rfl) hnot, Option.getD_some]

theorem joinDigits_eq (hne : n.digits ≠ []) (rest : List Char) :
    joinDigits n.whole n.decimals rest =
      (readExponent rest).map fun e => ⟨decimalValue n.digits, e - n.decimals.length⟩ := by
  have hread : readNat 10 (n.whole ++ n.decimals) = some (decimalValue n.digits) :=
    readNat_of_forall hne fun c => n.isDigit_of_mem_digits
  unfold joinDigits
  rw [hread]
  cases readExponent rest <;> rfl

theorem joinDigits_eq_none (hnil : n.digits = []) (rest : List Char) :
    joinDigits n.whole n.decimals rest = none := by
  have hread : n.whole ++ n.decimals = [] := hnil
  simp [joinDigits, hread, readNat]

/-- What starts like a numeral is no word. -/
theorem map_toLower_ne {cs : List Char} (h : ∀ c ∈ cs.head?, isDigit c ∨ c = '.')
    (word : List Char) (hword : ∃ d rest, word = d :: rest ∧ isAsciiLetter d) :
    cs.map Char.toLower ≠ word := by
  rcases hword with ⟨d, rest, rfl, hletter⟩
  intro heq
  cases cs with
  | nil => cases heq
  | cons c cs =>
      have hlower : c.toLower = d := (List.cons.inj heq).1
      have hc := h c rfl
      have hsame : c.toLower = c := by
        rcases isAsciiLetter_or_toLower_eq c with hascii | hsame
        · rw [isAsciiLetter_iff] at hascii
          rcases hc with hdigit | rfl
          · rw [isDigit_iff] at hdigit
            omega
          · rfl
        · exact hsame
      rw [← hlower, hsame, isAsciiLetter_iff] at hletter
      rcases hc with hdigit | rfl
      · rw [isDigit_iff] at hdigit
        omega
      · exact absurd hletter (by decide)

theorem readMagnitude_eq {cs : List Char} (h : ∀ c ∈ cs.head?, isDigit c ∨ c = '.') :
    readMagnitude cs = (readDecimal cs).map Decimal.toFloat := by
  have hinf := map_toLower_ne h "inf".toList ⟨'i', _, rfl, by decide⟩
  have hinfinity := map_toLower_ne h "infinity".toList ⟨'i', _, rfl, by decide⟩
  have hnan := map_toLower_ne h "nan".toList ⟨'n', _, rfl, by decide⟩
  simp only [readMagnitude, hinf, hinfinity, hnan, decide_false, Bool.or_self, Bool.false_eq_true,
    if_false]

theorem head_text (hne : n.text ≠ []) (rest : List Char) :
    ∀ c ∈ (n.text ++ rest).head?, isDigit c ∨ c = '.' := by
  intro c hc
  have hmem : c ∈ n.text := by
    cases htext : n.text with
    | nil => exact absurd htext hne
    | cons d ds =>
        rw [htext] at hc
        cases hc
        exact List.mem_cons_self
  exact n.isDigit_of_mem_text hmem

/-- The numeral is read as the float nearest to its digits, if there are some. -/
theorem readMagnitude_text :
    readMagnitude n.text = if n.digits = [] then none else some n.decimal.toFloat := by
  have hread := n.readDecimal_text endsNumeral_nil
  rw [List.append_nil] at hread
  rw [readMagnitude_eq fun c hc => n.isDigit_of_mem_text (List.mem_of_mem_head? hc), hread]
  split
  · rename_i hnil
    rw [joinDigits_eq_none n hnil]
    rfl
  · rename_i hdigits
    rw [joinDigits_eq n hdigits]
    simp [readExponent, decimal]

theorem readFloat_of_head {cs : List Char} (h : ∀ c ∈ cs.head?, isDigit c ∨ c = '.') :
    readFloat cs = readMagnitude cs := by
  have hsign : ∀ rest, cs ≠ '-' :: rest ∧ cs ≠ '+' :: rest := by
    intro rest
    constructor <;> rintro rfl <;> exact absurd (h _ rfl) (by decide)
  unfold readFloat
  split
  · exact absurd rfl (hsign _).1
  · exact absurd rfl (hsign _).2
  · rfl

theorem readFloat_text (hdigits : n.digits ≠ []) :
    readFloat n.text = some n.decimal.toFloat := by
  rw [readFloat_of_head fun c hc => n.isDigit_of_mem_text (List.mem_of_mem_head? hc),
    readMagnitude_text, if_neg hdigits]

/-- A numeral followed by a letter that marks no exponent is no float. -/
theorem readFloat_text_eq_none (hne : n.text ≠ []) {c : Char} {rest : List Char}
    (hrest : EndsNumeral (c :: rest)) (hexponent : c ≠ 'e' ∧ c ≠ 'E') :
    readFloat (n.text ++ c :: rest) = none := by
  have hhead := n.head_text hne (c :: rest)
  have hread : readExponent (c :: rest) = none := by simp [readExponent, hexponent]
  rw [readFloat_of_head hhead, readMagnitude_eq hhead, readDecimal_text n hrest]
  by_cases hnil : n.digits = []
  · rw [joinDigits_eq_none n hnil]
    rfl
  · rw [joinDigits_eq n hnil, hread]
    rfl

/-! ## Parts of durations -/

/-- The sign that a part has in front of the numeral: none where the numeral starts with a digit, or
a minus where parts may be signed. -/
def Signed (signed : Bool) (sign : List Char) : Prop :=
  sign = [] ∧ n.whole ≠ [] ∨ sign = ['-'] ∧ signed = true

theorem partFraction_text {cs sign rest : List Char} (hsign : sign ≠ [] ∨ n.whole ≠ [])
    (hrest : EndsNumeral rest) :
    partFraction cs sign (splitDigits (n.text ++ rest)).1 (splitDigits (n.text ++ rest)).2 =
      (sign ++ n.text, rest) := by
  have hall := n.fraction_digits
  have hnot : ∀ c ∈ rest.head?, isDigit c = false := fun c hc => (hrest c hc).1
  unfold text point
  cases hfraction : n.fraction with
  | none =>
      rw [List.append_nil, splitDigits_of_forall n.whole_digits hnot]
      refine partFraction_of_ne ?_
      rintro r rfl
      exact (hrest '.' rfl).2 rfl
  | some ds =>
      rw [hfraction] at hall
      rw [List.append_assoc, List.cons_append,
        splitDigits_of_forall n.whole_digits (by simp; decide)]
      have hsome : (sign.isEmpty && n.whole.isEmpty) = false := by
        rcases hsign with hsign | hwhole <;> simp [*]
      have hds := splitDigits_of_forall (hall ds rfl) hnot
      simp only [splitDigits, Prod.mk.injEq] at hds
      simp [partFraction, hsome, hds.1, hds.2]

/-- A numeral with its sign is the whole number of a part. -/
theorem splitPartNumber_text {signed : Bool} {sign rest : List Char} (hsign : n.Signed signed sign)
    (hrest : EndsNumeral rest) :
    splitPartNumber signed (sign ++ (n.text ++ rest)) = (sign ++ n.text, rest) := by
  rw [splitPartNumber_eq]
  rcases hsign with ⟨rfl, hwhole⟩ | ⟨rfl, rfl⟩
  · have hnone : partSign signed (n.text ++ rest) = ([], n.text ++ rest) := by
      unfold text
      cases hcs : n.whole with
      | nil => exact absurd hcs hwhole
      | cons c cs =>
          have hminus : c ≠ '-' := by
            rintro rfl
            exact absurd (n.whole_digits '-' (by simp [hcs])) (by decide)
          simp [partSign_cons, hminus]
    rw [List.nil_append, hnone]
    exact n.partFraction_text (.inr hwhole) hrest
  · have hminus : partSign true (['-'] ++ (n.text ++ rest)) = (['-'], n.text ++ rest) := rfl
    rw [hminus]
    exact n.partFraction_text (.inl (by simp)) hrest

/-- The number of a part has a value unless it has no digits. -/
theorem isSome_readFloat {signed : Bool} {sign : List Char} (hsign : n.Signed signed sign) :
    (readFloat (sign ++ n.text)).isSome = !n.digits.isEmpty := by
  rcases hsign with ⟨rfl, hwhole⟩ | ⟨rfl, -⟩
  · have hdigits : n.digits ≠ [] := by simp [digits, hwhole]
    simp [readFloat_text n hdigits, hdigits]
  · have hminus : readFloat (['-'] ++ n.text) = (readMagnitude n.text).map fun x => -x := rfl
    rw [hminus, readMagnitude_text]
    by_cases hdigits : n.digits = [] <;> simp [hdigits]

end FixedPoint

/-- The letters of units, in either case. -/
def isUnitLetter (c : Char) : Bool :=
  c.toLower == 'm' || c.toLower == 's' || c.toLower == 'h' || c.toLower == 'd' ||
    c.toLower == 'w' || c.toLower == 'y' || c.toLower == 'i'

/-- Letters of units go on no numeral, and are neither signs nor marks of exponents. -/
theorem isUnitLetter_ne {c : Char} (h : isUnitLetter c) :
    isDigit c = false ∧ c ≠ '.' ∧ c ≠ '-' ∧ c ≠ 'e' ∧ c ≠ 'E' := by
  refine ⟨?_, ?_, ?_, ?_, ?_⟩
  · by_contra hdigit
    rw [Bool.not_eq_false, isDigit_iff] at hdigit
    have hsame : c.toLower = c := by
      rcases isAsciiLetter_or_toLower_eq c with hascii | hsame
      · rw [isAsciiLetter_iff] at hascii
        omega
      · exact hsame
    simp only [isUnitLetter, hsame, Bool.or_eq_true, beq_iff_eq] at h
    rcases h with (((((rfl | rfl) | rfl) | rfl) | rfl) | rfl) | rfl <;>
      exact absurd hdigit (by decide)
  all_goals
    rintro rfl
    exact absurd h (by decide)

theorem isUnitLetter_of_ofLetter {c : Char} {unit : TimeUnit} (h : TimeUnit.ofLetter c = some unit) :
    isUnitLetter c := by
  unfold TimeUnit.ofLetter at h
  unfold isUnitLetter
  split at h
  · rename_i hm
    rw [eq_of_beq hm]
    decide
  · split at h <;> simp_all

/-- A unit is one letter or two. -/
theorem isUnitLetter_of_ofStart {cs : List Char} {unit : TimeUnit} {k : Nat}
    (h : TimeUnit.ofStart cs = some (unit, k)) :
    cs.take k ≠ [] ∧ ∀ c ∈ cs.take k, isUnitLetter c := by
  have hone : ∀ {c : Char} {rest : List Char}, (TimeUnit.ofLetter c).map (·, 1) = some (unit, k) →
      (c :: rest).take k ≠ [] ∧ ∀ d ∈ (c :: rest).take k, isUnitLetter d := by
    intro c rest hletter
    rcases Option.map_eq_some_iff.1 hletter with ⟨u, hu, heq⟩
    cases heq
    simp [isUnitLetter_of_ofLetter hu]
  rcases cs with _ | ⟨c, _ | ⟨d, rest⟩⟩
  · cases h
  · simp only [TimeUnit.ofStart, ite_self] at h
    exact hone h
  · simp only [TimeUnit.ofStart] at h
    split at h
    · rename_i hm
      split at h
      · rename_i hs
        cases h
        simp_all [isUnitLetter]
      · split at h
        · cases h
        · exact hone h
    · exact hone h

/-- A part is a numeral with its sign and a unit. -/
theorem splitPart_cases {signed : Bool} {cs left : List Char} {part : DurationPart}
    (h : splitPart signed cs = some (part, left)) :
    ∃ (sign : List Char) (n : FixedPoint), n.Signed signed sign ∧ part.number = sign ++ n.text ∧
      part.unitText ≠ [] ∧ ∀ c ∈ part.unitText, isUnitLetter c := by
  unfold splitPart at h
  rcases hnumber : splitPartNumber signed cs with ⟨number, after⟩
  rw [hnumber] at h
  dsimp only at h
  split at h
  · cases h
  · rename_i hsome
    rcases Option.map_eq_some_iff.1 h with ⟨⟨unit, k⟩, hunit, heq⟩
    cases heq
    have hletters := isUnitLetter_of_ofStart hunit
    -- The unit is settled, and what is left is to find a numeral in what stands before it.
    suffices hnumeral : ∃ (sign : List Char) (n : FixedPoint), n.Signed signed sign ∧
        number = sign ++ n.text by
      rcases hnumeral with ⟨sign, n, hsign, heq⟩
      exact ⟨sign, n, hsign, heq, hletters⟩
    rw [splitPartNumber_eq] at hnumber
    have hsigned : (partSign signed cs).1 = [] ∨ (partSign signed cs).1 = ['-'] ∧ signed = true := by
      unfold partSign
      split <;> simp
    -- From here on only the pieces count, and no longer what they were split off from.
    generalize (partSign signed cs).1 = sign at hnumber hsigned
    generalize (partSign signed cs).2 = rest at hnumber
    have hwhole : ∀ c ∈ (splitDigits rest).1, isDigit c := fun c hc => List.mem_takeWhile_imp hc
    generalize (splitDigits rest).1 = whole at hnumber hwhole
    unfold partFraction at hnumber
    split at hnumber
    · rename_i afterPoint _
      split at hnumber
      · cases hnumber
        simp at hsome
      · rename_i hdigits
        cases hnumber
        refine ⟨sign, ⟨whole, some (afterPoint.takeWhile isDigit), hwhole, ?_⟩, ?_, ?_⟩
        · rintro ds hds c hc
          cases hds
          exact List.mem_takeWhile_imp hc
        · rcases hsigned with rfl | hsigned
          · exact .inl ⟨rfl, by simpa using hdigits⟩
          · exact .inr hsigned
        · simp [FixedPoint.text, FixedPoint.point]
    · cases hnumber
      refine ⟨sign, ⟨whole, none, hwhole, by simp⟩, ?_, by simp [FixedPoint.text, FixedPoint.point]⟩
      rcases hsigned with rfl | hsigned
      · exact .inl ⟨rfl, by simpa using hsome⟩
      · exact .inr hsigned

end SeriesQuery
