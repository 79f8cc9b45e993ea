import SeriesQuery.Proofs.LiteralValues
import SeriesQuery.Proofs.Written

/-!
# Bare numbers as durations

A number without a unit counts seconds.  Where it stands for a duration, its milliseconds are those of
the number literal, whichever base that is in (`value_of_bareNumber`), with one exception: digits behind
a zero are octal as a number, but in base ten as a duration.

* `splitFloat` — what can be read as a float by itself;
* `partsValue_error` — a text that ends with a digit or a point is no sum of parts;
* `value_of_bareNumber` — the value of the durations that the grammar reads from bare numbers.
-/

namespace SeriesQuery

open Text

/-! ## Digits -/

theorem isDigit_of_digitIn {base k : Nat} {c : Char} (hbase : base ≤ 10)
    (h : digitIn base c = some k) : isDigit c ∧ k = c.toNat - 48 := by
  rcases Option.filter_eq_some_iff.1 h with ⟨hvalue, hlt⟩
  have hsmall : k < 10 := Nat.lt_of_lt_of_le (by simpa using hlt) hbase
  unfold digitValue at hvalue
  split at hvalue
  · cases hvalue
    exact ⟨‹_›, rfl⟩
  · -- letters count ten and more
    exfalso
    split at hvalue
    · rename_i hletter
      simp only [Bool.and_eq_true, decide_eq_true_eq, le_iff_toNat_le] at hletter
      cases hvalue
      simp at hletter hsmall
      omega
    · split at hvalue
      · rename_i hletter
        simp only [Bool.and_eq_true, decide_eq_true_eq, le_iff_toNat_le] at hletter
        cases hvalue
        simp at hletter hsmall
        omega
      · cases hvalue

theorem isDigit_of_readDigits {base : Nat} (hbase : base ≤ 10) {ds : List Char} {acc k : Nat}
    (h : readDigits base ds acc = some k) : ∀ c ∈ ds, isDigit c := by
  induction ds generalizing acc with
  | nil => simp
  | cons c ds ih =>
      unfold readDigits at h
      split at h
      · rename_i d hd
        exact List.forall_mem_cons.2 ⟨(isDigit_of_digitIn hbase hd).1, ih h⟩
      · cases h

theorem isDigit_of_readNat {base : Nat} (hbase : base ≤ 10) {ds : List Char} {k : Nat}
    (h : readNat base ds = some k) : ds ≠ [] ∧ ∀ c ∈ ds, isDigit c := by
  cases ds with
  | nil => cases h
  | cons c ds => exact ⟨by simp, isDigit_of_readDigits hbase h⟩

/-! ## Texts that are floats -/

/-- What ends a numeral that is read as a float: nothing, or an exponent. -/
theorem readExponent_cases {cs : List Char} {e : Int} (h : readExponent cs = some e) :
    cs = [] ∨ ∃ mark sign digits, cs = mark :: (sign ++ digits) ∧ (mark = 'e' ∨ mark = 'E') ∧
      sign ∈ [['-'], ['+'], []] ∧ digits ≠ [] ∧ ∀ c ∈ digits, isDigit c := by
  cases cs with
  | nil => exact .inl rfl
  | cons mark rest =>
      refine .inr ?_
      simp only [readExponent] at h
      split at h
      · rename_i hmark
        simp only [Bool.or_eq_true, beq_iff_eq] at hmark
        split at h
        · rcases Option.map_eq_some_iff.1 h with ⟨k, hk, -⟩
          rcases Option.bind_eq_some_iff.1 hk with ⟨j, hj, -⟩
          exact ⟨mark, ['-'], _, rfl, hmark, by simp, isDigit_of_readNat (Nat.le_refl 10) hj⟩
        · rcases Option.map_eq_some_iff.1 h with ⟨k, hk, -⟩
          exact ⟨mark, ['+'], _, rfl, hmark, by simp, isDigit_of_readNat (Nat.le_refl 10) hk⟩
        · rcases Option.map_eq_some_iff.1 h with ⟨k, hk, -⟩
          exact ⟨mark, [], _, rfl, hmark, by simp, isDigit_of_readNat (Nat.le_refl 10) hk⟩
      · cases h

theorem endsNumeral_of_readExponent {rest : List Char} {e : Int} (h : readExponent rest = some e) :
    EndsNumeral rest := by
  rcases readExponent_cases h with rfl | ⟨mark, sign, digits, rfl, rfl | rfl, -⟩
  · exact endsNumeral_nil
  · exact endsNumeral_cons (by decide) (by decide)
  · exact endsNumeral_cons (by decide) (by decide)

/-- A text without a sign that is a float consists of a numeral and perhaps an exponent. -/
theorem readDecimal_cases {cs : List Char} {d : Decimal} (h : readDecimal cs = some d) :
    ∃ (n : FixedPoint) (rest : List Char) (e : Int), cs = n.text ++ rest ∧ n.digits ≠ [] ∧
      EndsNumeral rest ∧ readExponent rest = some e := by
  -- whatever the fraction is, the digits are joined, and what follows them is an exponent
  have hjoin : ∀ (n : FixedPoint) (rest : List Char), cs = n.text ++ rest →
      joinDigits n.whole n.decimals rest = some d →
        ∃ (n : FixedPoint) (rest : List Char) (e : Int), cs = n.text ++ rest ∧ n.digits ≠ [] ∧
          EndsNumeral rest ∧ readExponent rest = some e := by
    intro n rest hcs hjoined
    have hdigits : n.digits ≠ [] := by
      intro hnil
      rw [n.joinDigits_eq_none hnil] at hjoined
      cases hjoined
    rw [n.joinDigits_eq hdigits] at hjoined
    rcases Option.map_eq_some_iff.1 hjoined with ⟨e, he, -⟩
    exact ⟨n, rest, e, hcs, hdigits, endsNumeral_of_readExponent he, he⟩
  have hwhole : ∀ c ∈ cs.takeWhile isDigit, isDigit c := fun c hc => List.mem_takeWhile_imp hc
  have hconcat : cs = cs.takeWhile isDigit ++ cs.dropWhile isDigit :=
    List.takeWhile_append_dropWhile.symm
  unfold readDecimal at h
  simp only [splitDigits] at h
  split at h
  · rename_i afterPoint heq
    have hfraction : ∀ c ∈ afterPoint.takeWhile isDigit, isDigit c :=
      fun c hc => List.mem_takeWhile_imp hc
    refine hjoin ⟨_, some _, hwhole, ?_⟩ (afterPoint.dropWhile isDigit) ?_ h
    · rintro _ ⟨⟩
      exact hfraction
    · rw [FixedPoint.text, FixedPoint.point, List.append_assoc, List.cons_append,
        List.takeWhile_append_dropWhile, ← heq]
      exact hconcat
  · refine hjoin ⟨_, none, hwhole, by simp⟩ (cs.dropWhile isDigit) ?_ h
    rw [FixedPoint.text, FixedPoint.point, List.append_nil]
    exact hconcat

theorem readFloat_of_startsNumber {cs : List Char} (h : startsNumber cs) :
    readFloat cs = (readDecimal cs).map Decimal.toFloat := by
  have hhead : ∀ c ∈ cs.head?, isDigit c ∨ c = '.' := by
    intro c hc
    rcases startsNumber_cases h with ⟨d, rest, hd, rfl | rfl⟩ <;> cases hc
    · exact .inl hd
    · exact .inr rfl
  rw [FixedPoint.readFloat_of_head hhead, FixedPoint.readMagnitude_eq hhead]

/-- A float has no underscores. -/
theorem notMem_underscore_of_readDecimal {cs : List Char} {d : Decimal}
    (h : readDecimal cs = some d) : '_' ∉ cs := by
  rcases readDecimal_cases h with ⟨n, rest, e, rfl, -, -, he⟩
  have htext : '_' ∉ n.text := by
    intro hmem
    exact absurd (n.isDigit_of_mem_text hmem) (by decide)
  rcases readExponent_cases he with rfl | ⟨mark, sign, digits, rfl, hmark, hsign, -, hall⟩
  · simpa using htext
  · have hdigits : '_' ∉ digits := fun hmem => absurd (hall '_' hmem) (by decide)
    have hsigns : ∀ sign ∈ [['-'], ['+'], []], '_' ∉ sign := by decide
    have hletter : '_' ≠ mark := by rcases hmark with rfl | rfl <;> decide
    simp [htext, hletter, hsigns sign hsign, hdigits]

/-- In base ten a float has the same value as a literal. -/
theorem positiveValue?_of_readFloat {cs : List Char} {x : Float} (hstarts : startsNumber cs)
    (hbase : Base.ofStart cs = none) (h : readFloat cs = some x) : positiveValue? cs = some x := by
  rw [readFloat_of_startsNumber hstarts] at h
  rcases Option.map_eq_some_iff.1 h with ⟨d, hd, -⟩
  rcases readDecimal_cases hd with ⟨n, rest, e, rfl, hdigits, hends, he⟩
  rw [← readFloat_of_startsNumber hstarts, n.readFloat_text_append hdigits hends he] at h
  have hnumeral : asRead n.text = n.text := asRead_of_forall fun c => n.isDigit_of_mem_text
  rcases readExponent_cases he with rfl | ⟨mark, sign, digits, rfl, hmark, hsign, hsome, hall⟩
  · have hzero : e = 0 := by simpa [readExponent] using he.symm
    rw [hzero, Int.zero_sub] at h
    rw [List.append_nil] at hbase ⊢
    rw [positiveValue?_numeral hdigits hbase hnumeral]
    exact h
  · rw [positiveValue?_exponent hdigits hbase hnumeral hmark hsign hsome hall he, h]

/-- A number behind a mark with a letter is no float. -/
theorem readFloat_of_mark {cs : List Char} {base : Base} (h : Base.ofStart cs = some base)
    (hne : base ≠ .plainOctal) : readFloat cs = none := by
  -- The zero is a numeral by itself, and what stands behind it is no exponent.
  have hletter : ∀ {c m : Char} (rest : List Char), isDigit c = false → c.toLower = m →
      m ∈ ['x', 'o', 'b'] → readFloat ('0' :: c :: rest) = none := by
    intro c m rest hdigit hlower hm
    have hmarks : ∀ m ∈ ['x', 'o', 'b'], ∀ d ∈ ['.', 'e', 'E'], d.toLower ≠ m := by simp
    have hother : ∀ d ∈ ['.', 'e', 'E'], c ≠ d := by
      rintro d hd rfl
      exact hmarks m hm c hd hlower
    have hzero : FixedPoint.text (.ofDigits ['0'] none rfl rfl) = ['0'] := rfl
    have hends : EndsNumeral (c :: rest) := endsNumeral_cons hdigit (hother '.' (by simp))
    have hnone := FixedPoint.readFloat_text_eq_none (.ofDigits ['0'] none rfl rfl) (by simp [hzero])
      hends ⟨hother 'e' (by simp), hother 'E' (by simp)⟩
    rwa [hzero] at hnone
  unfold Base.ofStart at h
  split at h
  · rename_i c rest
    split at h
    · cases h
      exact absurd rfl hne
    · rename_i hdigit
      simp only [beq_iff_eq, Bool.not_eq_true] at h hdigit
      split at h
      · exact hletter rest hdigit ‹_› (by simp)
      · split at h
        · exact hletter rest hdigit ‹_› (by simp)
        · split at h
          · exact hletter rest hdigit ‹_› (by simp)
          · cases h
  · cases h

/-! ## Octal digits -/

theorem le_foldl_digits (ds : List Char) (acc : Nat) :
    acc ≤ ds.foldl (fun n c => n * 10 + (c.toNat - 48)) acc := by
  induction ds generalizing acc with
  | nil => exact Nat.le_refl _
  | cons c ds ih =>
      have hrest := ih (acc * 10 + (c.toNat - 48))
      rw [List.foldl_cons]
      omega

/-- Below eight the digits stand for the same number in base eight and in base ten. -/
theorem readDigits_eight {ds : List Char} {acc k : Nat} (h : readDigits 8 ds acc = some k)
    (hsmall : ds.foldl (fun n c => n * 10 + (c.toNat - 48)) acc < 8) :
    k = ds.foldl (fun n c => n * 10 + (c.toNat - 48)) acc := by
  induction ds generalizing acc with
  | nil =>
      cases h
      rfl
  | cons c ds ih =>
      rw [List.foldl_cons] at hsmall ⊢
      unfold readDigits at h
      split at h
      · rename_i d hd
        -- no digit but the last may count, so that the base does not matter
        have hzero : acc = 0 := by
          have hle := le_foldl_digits ds (acc * 10 + (c.toNat - 48))
          omega
        have hdigit := (isDigit_of_digitIn (by decide) hd).2
        subst hzero hdigit
        exact ih h hsmall
      · cases h

/-- Digits behind a zero that count eight or more.  They are octal as a number, but in base ten where
they are read as a float. -/
def isReadInTwoBases (cs : List Char) : Bool :=
  Base.ofStart cs == some .plainOctal && cs.all isDigit && decide (8 ≤ decimalValue cs)

theorem toFloat_ofInt_small : ∀ k < 8, Float.ofInt (k : Nat) = Decimal.toFloat ⟨k, 0⟩ := by
  decide +kernel

theorem readFloat_of_forall_isDigit {cs : List Char} (hne : cs ≠ []) (h : ∀ c ∈ cs, isDigit c) :
    readFloat cs = some (Decimal.toFloat ⟨decimalValue cs, 0⟩) := by
  let n : FixedPoint := ⟨cs, none, h, by simp⟩
  have htext : n.text = cs := List.append_nil _
  have hdigits : n.digits = cs := List.append_nil _
  have hread := n.readFloat_text (by rwa [hdigits])
  rw [htext, FixedPoint.decimal, hdigits] at hread
  exact hread

theorem readInt64_of_isDigit {base : Nat} {d : Char} {rest : List Char} {i : Int} (hd : isDigit d)
    (h : readInt64 base (d :: rest) = some i) : ∃ k, readNat base (d :: rest) = some k ∧ i = k := by
  have hsign : ∀ {ds}, d :: rest ≠ '-' :: ds ∧ d :: rest ≠ '+' :: ds := by
    intro ds
    constructor <;> rintro ⟨⟩ <;> exact absurd hd (by decide)
  have hvalue := (Option.filter_eq_some_iff.1 h).1
  split at hvalue
  · exact absurd ‹_› hsign.1
  · exact absurd ‹_› hsign.2
  · rcases Option.map_eq_some_iff.1 hvalue with ⟨k, hk, rfl⟩
    exact ⟨k, hk, rfl⟩

/-- An octal number without a letter in its mark is a float as well if it consists of digits. -/
theorem plainOctal_cases {cs : List Char} {x y : Float} (hbase : Base.ofStart cs = some .plainOctal)
    (hvalue : positiveValue? cs = some x) (hfloat : readFloat cs = some y) :
    cs.all isDigit ∧ y = Decimal.toFloat ⟨decimalValue cs, 0⟩ ∧ (decimalValue cs < 8 → x = y) := by
  rcases mark_cases hbase with ⟨d, rest, rfl, ⟨hmark, -⟩ | ⟨-, -, hd⟩⟩
  · cases hmark
  · have hstarts := startsNumber_of_isDigit (d := '0') (by decide) (d :: rest)
    rw [readFloat_of_startsNumber hstarts] at hfloat
    rcases Option.map_eq_some_iff.1 hfloat with ⟨decimal, hdecimal, -⟩
    have hline := notMem_underscore_of_readDecimal hdecimal
    rw [← readFloat_of_startsNumber hstarts] at hfloat
    have hfilter : ('0' :: d :: rest).filter (· != '_') = '0' :: d :: rest := by
      apply List.filter_eq_self.2
      rintro c hc
      have hne : c ≠ '_' := by
        rintro rfl
        exact hline hc
      simpa using hne
    -- the mark is the zero, and what follows it is read in base eight
    simp only [positiveValue?, hbase, hfilter, Base.markLength, Base.radix, List.drop_one,
      List.tail_cons] at hvalue
    rcases Option.map_eq_some_iff.1 hvalue with ⟨i, hi, rfl⟩
    rcases readInt64_of_isDigit hd hi with ⟨k, hk, rfl⟩
    have hdigits : ∀ c ∈ '0' :: d :: rest, isDigit c :=
      List.forall_mem_cons.2 ⟨by decide, (isDigit_of_readNat (by decide) hk).2⟩
    have hread := readFloat_of_forall_isDigit (by simp) hdigits
    rw [hfloat] at hread
    have hy := Option.some.inj hread
    refine ⟨List.all_eq_true.2 hdigits, hy, fun hsmall => ?_⟩
    have hk8 : k = decimalValue ('0' :: d :: rest) := readDigits_eight hk hsmall
    rw [hy, ← hk8]
    exact toFloat_ofInt_small k (hk8 ▸ hsmall)

/-! ## Sums of parts -/

/-- What is added up is parts to its end, so that a unit is last. -/
theorem getLast?_of_sumParts {whole : String} {step : Int} {fuel : Nat} {minus : Bool}
    {sum total : Float} {cs : List Char} (h : sumParts whole step fuel minus sum cs = .ok total) :
    cs = [] ∨ ∃ c ∈ cs.getLast?, isUnitLetter c := by
  induction fuel generalizing minus sum cs with
  | zero =>
      cases cs with
      | nil => exact .inl rfl
      | cons c cs => cases h
  | succ fuel ih =>
      cases cs with
      | nil => exact .inl rfl
      | cons c cs =>
          right
          simp only [sumParts] at h
          split at h
          · cases h
          · rename_i part rest hpart
            have hconcat := splitPart_concat hpart
            rcases splitPart_cases hpart with ⟨sign, n, -, -, hunit, hletters⟩
            -- A part ends with its unit, and the last part ends the text.
            have hunitLast : ∃ d ∈ part.text.getLast?, isUnitLetter d := by
              refine ⟨part.unitText.getLast hunit, ?_, hletters _ (List.getLast_mem hunit)⟩
              rw [DurationPart.text, List.getLast?_append_of_ne_nil _ hunit,
                List.getLast?_eq_some_getLast hunit]
              rfl
            cases hvalue : part.value step with
            | error cause =>
                rw [hvalue] at h
                cases h
            | ok x =>
                rw [hvalue] at h
                rw [← hconcat]
                rcases ih h with rfl | ⟨d, hd, hletter⟩
                · rwa [List.append_nil]
                · refine ⟨d, ?_, hletter⟩
                  rw [List.getLast?_append, Option.mem_def.1 hd]
                  rfl

theorem sumParts_error (whole : String) (step : Int) (fuel : Nat) (minus : Bool) (sum : Float)
    {cs : List Char} (hne : cs ≠ []) (hlast : ∀ c ∈ cs.getLast?, isDigit c ∨ c = '.') :
    ∃ cause, sumParts whole step fuel minus sum cs = .error cause := by
  cases hsum : sumParts whole step fuel minus sum cs with
  | error cause => exact ⟨cause, rfl⟩
  | ok total =>
      exfalso
      rcases getLast?_of_sumParts hsum with rfl | ⟨c, hc, hletter⟩
      · exact hne rfl
      · have hother := isUnitLetter_ne hletter
        rcases hlast c hc with hdigit | rfl
        · rw [hother.1] at hdigit
          cases hdigit
        · exact hother.2.1 rfl

/-! ## Durations from numbers -/

theorem startsNumber_ne_sign {cs : List Char} (h : startsNumber cs) :
    ∀ ds, cs ≠ '-' :: ds ∧ cs ≠ '+' :: ds := by
  intro ds
  constructor <;> rintro rfl <;> exact absurd h (by simp [startsNumber, isDigit])

/-- A number without a sign and without a unit has the value of the float that it is, or else of the
literal that it is. -/
theorem value_of_readPositive {t : String} {x : Float} (hstarts : startsNumber t.toList)
    (hlast : ∀ c ∈ t.toList.getLast?, isDigit c ∨ c = '.') (hread : readPositive t = .ok x)
    (step : Int) :
    Duration.value ⟨t, false⟩ step =
      .ok (truncateInt64 ((readFloat t.toList).getD x * 1000.0)) := by
  have hne : t.toList ≠ [] := by
    intro hnil
    rw [hnil] at hstarts
    cases hstarts
  have hempty : t.isEmpty = false := by
    rw [Bool.eq_false_iff, Ne, String.isEmpty_iff]
    rintro rfl
    exact hne rfl
  have hnumber : readNumber t = .ok x := by
    unfold readNumber
    split
    · exact absurd ‹_› (startsNumber_ne_sign hstarts _).1
    · exact absurd ‹_› (startsNumber_ne_sign hstarts _).2
    · exact hread
  cases hfloat : readFloat t.toList with
  | some y => simp [Duration.value, durationValue, hempty, hfloat]
  | none =>
      rcases sumParts_error t step t.length false 0.0 hne hlast with ⟨cause, hsum⟩
      have hparts : partsValue t step = .error cause := by
        rw [partsValue, hsum]
        rfl
      simp [Duration.value, durationValue, hempty, hfloat, hparts, hnumber]

/-- What is read as a float has the value of the literal, unless the digits are read in two bases. -/
theorem getD_readFloat {cs : List Char} {x : Float} (hstarts : startsNumber cs)
    (hvalue : positiveValue? cs = some x) :
    (readFloat cs).getD x =
      if isReadInTwoBases cs then Decimal.toFloat ⟨decimalValue cs, 0⟩ else x := by
  cases hfloat : readFloat cs with
  | none =>
      have hone : isReadInTwoBases cs = false := by
        by_contra htwo
        simp only [isReadInTwoBases, Bool.not_eq_false, Bool.and_eq_true] at htwo
        rw [readFloat_of_forall_isDigit (by rintro rfl; cases hstarts)
          (List.all_eq_true.1 htwo.1.2)] at hfloat
        cases hfloat
      simp [hone]
  | some y =>
      cases hbase : Base.ofStart cs with
      | none =>
          have hsame := positiveValue?_of_readFloat hstarts hbase hfloat
          rw [hvalue] at hsame
          simp [isReadInTwoBases, hbase, Option.some.inj hsame]
      | some base =>
          -- Of the marks only a lone zero leaves a text that is a float as well.
          by_cases hoctal : base = .plainOctal
          · subst hoctal
            rcases plainOctal_cases hbase hvalue hfloat with ⟨hdigits, hy, hsmall⟩
            simp only [isReadInTwoBases, hbase, hdigits, beq_self_eq_true, Bool.true_and,
              decide_eq_true_eq, Option.getD_some]
            split
            · exact hy
            · exact (hsmall (by omega)).symm
          · rw [readFloat_of_mark hbase hoctal] at hfloat
            cases hfloat

namespace Reader

/-- Where neither a name nor a duration stands, a duration is read from a bare number. -/
theorem gives_duration_bareSeconds {feed : Feed} (hname : startsIdent feed.token.toList = false)
    (hspan : isPositiveDuration feed.token = false) :
    Gives (fun found => startsNumber feed.token.toList ∧ bareSeconds feed.token = .ok found.1)
      (duration feed) := by
  refine gives_seq (gives_token feed) ?_
  rintro ⟨text, feed'⟩ ⟨⟩
  simp only [hname, hspan, Bool.false_eq_true, if_false]
  have hbare : Gives (fun d => bareSeconds feed.token = .ok d) (bareSeconds feed.token) :=
    fun _ hd => hd
  have hrest : Yields (fun d => startsNumber feed.token.toList ∧ bareSeconds feed.token = .ok d)
      (if startsNumber feed.token.toList then do
        let d ← ofExcept .duration (bareSeconds feed.token)
        bump
        return d
      else unexpected .duration "duration") := by
    split
    · rename_i hstarts
      exact (yields_ofExcept hbare).bind fun d hd =>
        yields_bind_any fun _ => yields_pure ⟨hstarts, hd⟩
    · exact yields_unexpected _ _
  exact hrest feed

theorem bareSeconds_cases {text : String} {d : Duration} (h : bareSeconds text = .ok d) :
    d = ⟨text, false⟩ ∧ (∀ c ∈ text.toList.getLast?, isDigit c ∨ c = '.') ∧
      ∃ x, readPositive text = .ok x := by
  unfold bareSeconds at h
  split at h
  · rename_i c hc
    split at h
    · rename_i hdigit
      split at h
      · rename_i x hx
        cases h
        refine ⟨rfl, ?_, x, hx⟩
        intro c' hc'
        rw [hc] at hc'
        cases hc'
        simpa using hdigit
      · cases h
    · cases h
  · cases h

end Reader

/-- A duration that is read from a bare number has the value of that number in seconds, in whatever base
it is written; but digits behind a zero that count eight or more are taken in base ten. -/
theorem value_of_bareNumber {feed feed' : Feed} {d : Duration}
    (h : Reader.duration feed = .ok (d, feed')) (hname : startsIdent feed.token.toList = false)
    (hspan : isPositiveDuration feed.token = false) :
    d = ⟨feed.token, false⟩ ∧ ∃ x, readPositive feed.token = .ok x ∧ ∀ step,
      (isReadInTwoBases feed.token.toList = false →
          d.value step = .ok (truncateInt64 (x * 1000.0))) ∧
        (isReadInTwoBases feed.token.toList →
          d.value step =
            .ok (truncateInt64 (Decimal.toFloat ⟨decimalValue feed.token.toList, 0⟩ * 1000.0))) := by
  rcases Reader.gives_duration_bareSeconds hname hspan _ h with ⟨hstarts, hbare⟩
  rcases Reader.bareSeconds_cases hbare with ⟨rfl, hlast, x, hx⟩
  have hvalue : positiveValue? feed.token.toList = some x := by
    unfold readPositive at hx
    split at hx
    · cases hx
      assumption
    · cases hx
  refine ⟨rfl, x, hx, fun step => ?_⟩
  rw [value_of_readPositive hstarts hlast hx, getD_readFloat hstarts hvalue]
  constructor
  · intro hone
    rw [hone]
    rfl
  · intro htwo
    rw [htwo]
    rfl

/-- A number with underscores, a fraction and an exponent stands before a bracket. -/
theorem value_of_bareNumber_exponent :
    Reader.duration ⟨["1_2.5e-1", "]"], none, 0⟩ = .ok (⟨"1_2.5e-1", false⟩, ⟨["]"], none, 0⟩) ∧
      startsIdent "1_2.5e-1".toList = false ∧ isPositiveDuration "1_2.5e-1" = false ∧
        isReadInTwoBases "1_2.5e-1".toList = false ∧
          ∃ x, readPositive "1_2.5e-1" = .ok x ∧ ∀ step,
            Duration.value ⟨"1_2.5e-1", false⟩ step = .ok (truncateInt64 (x * 1000.0)) := by
  have hread : Reader.duration ⟨["1_2.5e-1", "]"], none, 0⟩ =
      .ok (⟨"1_2.5e-1", false⟩, ⟨["]"], none, 0⟩) := by
    rfl
  have hname : startsIdent "1_2.5e-1".toList = false := by decide
  have hspan : isPositiveDuration "1_2.5e-1" = false := by decide
  have hone : isReadInTwoBases "1_2.5e-1".toList = false := by decide
  rcases value_of_bareNumber hread hname hspan with ⟨-, x, hx, hvalue⟩
  exact ⟨hread, hname, hspan, hone, x, hx, fun step => (hvalue step).1 hone⟩

/-- Octal digits behind a zero are counted in base ten as a duration. -/
theorem not_value_of_bareNumber :
    ¬ ∀ (feed feed' : Feed) (d : Duration), Reader.duration feed = .ok (d, feed') →
      startsIdent feed.token.toList = false → isPositiveDuration feed.token = false →
        ∃ x, readPositive feed.token = .ok x ∧ ∀ step,
          d.value step = .ok (truncateInt64 (x * 1000.0)) := by
  intro h
  have hread : Reader.duration ⟨["010", "]"], none, 0⟩ =
      .ok (⟨"010", false⟩, ⟨["]"], none, 0⟩) := by
    rfl
  have height : readPositive "010" = .ok (Float.ofInt 8) := by decide
  have hten : (Duration.value ⟨"010", false⟩ 0).toOption = some 10000 := by decide +kernel
  have hseconds : truncateInt64 (Float.ofInt 8 * 1000.0) = 8000 := by decide +kernel
  rcases h _ _ _ hread (by decide) (by decide) with ⟨x, hx, hvalue⟩
  have heq : x = Float.ofInt 8 := Except.ok.inj (hx.symm.trans height)
  rw [hvalue 0, heq, hseconds] at hten
  cases hten

end SeriesQuery
