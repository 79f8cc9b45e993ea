import SeriesQuery.Proofs.Alike
import SeriesQuery.Proofs.Binding
import SeriesQuery.Proofs.WellFormed

/-!
# Numbers and durations are plain

What is read as a number or a duration is made of digits, letters, points and signs, and so is what
is written for one.  So all numbers and durations of a query are plain, and expansion and
simplification keep to that: `Expr.made_parse`.
-/

namespace SeriesQuery

open Text

/-! ## Characters -/

theorem isPlainChar_of_isIdentChar {c : Char} (h : isIdentChar c) : isPlainChar c := by
  simp [isPlainChar, h]

theorem isPlainChar_of_isDigit {c : Char} (h : isDigit c) : isPlainChar c :=
  isPlainChar_of_isIdentChar (by simp [isIdentChar, h])

theorem isPlainChar_of_toLower {c : Char} (h : isPlainChar c.toLower) : isPlainChar c := by
  rcases isAsciiLetter_or_toLower_eq c with hletter | hsame
  · have hstart := isIdentStart_of_isAsciiLetter hletter
    exact isPlainChar_of_isIdentChar (isIdentChar_of_isIdentStart hstart)
  · rwa [hsame] at h

theorem isPlain_of_isDigit {cs : List Char} (h : ∀ c ∈ cs, isDigit c) : IsPlain cs :=
  fun c hc => isPlainChar_of_isDigit (h c hc)

theorem isPlain_of_toLower {cs : List Char} (h : IsPlain (cs.map Char.toLower)) : IsPlain cs :=
  fun _ hc => isPlainChar_of_toLower (h _ (List.mem_map_of_mem hc))

/-- Underscores are plain. -/
theorem isPlain_of_filter {cs : List Char} (h : IsPlain (cs.filter (· != '_'))) : IsPlain cs := by
  intro c hc
  by_cases hline : c = '_'
  · rw [hline]
    decide
  · exact h c (List.mem_filter.2 ⟨hc, by simpa using hline⟩)

/-! ## Numbers that are read -/

theorem isPlain_of_readDigits {base acc n : Nat} {cs : List Char}
    (h : readDigits base cs acc = some n) : IsPlain cs := by
  induction cs generalizing acc with
  | nil => exact isPlain_nil
  | cons c cs ih =>
      unfold readDigits at h
      split at h
      · rename_i hdigit
        exact isPlain_cons.2 ⟨isPlainChar_of_isIdentChar (isIdentChar_of_digitIn hdigit), ih h⟩
      · cases h

theorem isPlain_of_readNat (base : Nat) {cs : List Char} (h : readNat base cs ≠ none) :
    IsPlain cs := by
  rcases Option.ne_none_iff_exists'.1 h with ⟨n, hn⟩
  unfold readNat at hn
  split at hn
  · exact isPlain_nil
  · exact isPlain_of_readDigits hn

theorem isPlain_of_readInt64 {base : Nat} {cs : List Char} {x : Int}
    (h : readInt64 base cs = some x) : IsPlain cs := by
  have hvalue := (Option.filter_eq_some_iff.1 h).1
  split at hvalue
  · exact isPlain_cons.2 ⟨by decide, isPlain_of_readNat base fun hnone => by simp [hnone] at hvalue⟩
  · exact isPlain_cons.2 ⟨by decide, isPlain_of_readNat base fun hnone => by simp [hnone] at hvalue⟩
  · exact isPlain_of_readNat base fun hnone => by simp [hnone] at hvalue

theorem isPlain_of_readExponent {cs : List Char} {x : Int} (h : readExponent cs = some x) :
    IsPlain cs := by
  unfold readExponent at h
  split at h
  · exact isPlain_nil
  · split at h
    · rename_i c rest hmark
      have hc : isPlainChar c := by
        simp only [Bool.or_eq_true, beq_iff_eq] at hmark
        rcases hmark with rfl | rfl <;> decide
      refine isPlain_cons.2 ⟨hc, ?_⟩
      split at h
      · exact isPlain_cons.2 ⟨by decide, isPlain_of_readNat 10 fun hnone => by simp [hnone] at h⟩
      · exact isPlain_cons.2 ⟨by decide, isPlain_of_readNat 10 fun hnone => by simp [hnone] at h⟩
      · exact isPlain_of_readNat 10 fun hnone => by simp [hnone] at h
    · cases h

theorem isPlain_of_joinDigits {whole fraction rest : List Char} {d : Decimal}
    (h : joinDigits whole fraction rest = some d) : IsPlain (whole ++ fraction ++ rest) := by
  simp only [joinDigits, Option.bind_eq_bind, Option.bind_eq_some_iff] at h
  rcases h with ⟨digits, hdigits, exponent, hexponent, _⟩
  exact isPlain_append.2 ⟨isPlain_of_readNat 10 (by simp [hdigits]), isPlain_of_readExponent hexponent⟩

theorem isPlain_of_readDecimal {cs : List Char} {d : Decimal} (h : readDecimal cs = some d) :
    IsPlain cs := by
  have hsplit := splitDigits_concat cs
  unfold readDecimal at h
  generalize splitDigits cs = parts at h hsplit
  rcases parts with ⟨whole, rest⟩
  dsimp only at h hsplit
  split at h
  · rename_i afterPoint
    have hfraction := splitDigits_concat afterPoint
    have hall := isPlain_of_joinDigits h
    rw [List.append_assoc, hfraction, isPlain_append] at hall
    rw [← hsplit]
    exact isPlain_append.2 ⟨hall.1, isPlain_cons.2 ⟨by decide, hall.2⟩⟩
  · have hall := isPlain_of_joinDigits h
    rwa [List.append_nil, hsplit] at hall

theorem isPlain_of_readMagnitude {cs : List Char} {x : Float} (h : readMagnitude cs = some x) :
    IsPlain cs := by
  unfold readMagnitude at h
  dsimp only at h
  split at h
  · rename_i hword
    apply isPlain_of_toLower
    simp only [Bool.or_eq_true, decide_eq_true_eq] at hword
    rcases hword with hword | hword <;> (rw [hword]; unfold IsPlain; decide)
  · split at h
    · rename_i hword
      apply isPlain_of_toLower
      rw [hword]
      unfold IsPlain
      decide
    · rcases Option.map_eq_some_iff.1 h with ⟨d, hd, _⟩
      exact isPlain_of_readDecimal hd

theorem isPlain_of_readFloat {cs : List Char} {x : Float} (h : readFloat cs = some x) :
    IsPlain cs := by
  unfold readFloat at h
  split at h
  · rcases Option.map_eq_some_iff.1 h with ⟨_, hmagnitude, _⟩
    exact isPlain_cons.2 ⟨by decide, isPlain_of_readMagnitude hmagnitude⟩
  · exact isPlain_cons.2 ⟨by decide, isPlain_of_readMagnitude h⟩
  · exact isPlain_of_readMagnitude h

theorem isPlain_of_splitMultiplier {cs : List Char} (h : IsPlain (splitMultiplier cs).1) :
    IsPlain cs := by
  have hletters : ∀ m ∈ multipliers, IsPlain m.1 := by
    unfold IsPlain
    decide
  unfold splitMultiplier at h
  split at h
  · rename_i letters value hfound
    have hsuffix : letters <:+ cs := by
      simpa using List.find?_some hfound
    have hmember := hletters _ (List.mem_of_find?_eq_some hfound)
    rw [← List.suffix_iff_eq_append.1 hsuffix]
    exact isPlain_append.2 ⟨h, hmember⟩
  · exact h

theorem IsPlain.sublist {cs ds : List Char} (h : IsPlain ds) (hsub : cs.Sublist ds) : IsPlain cs :=
  fun c hc => h c (hsub.mem hc)

/-- The letter in the mark of a base is plain, in either case, and no underscore. -/
theorem isPlainChar_of_mark {c m : Char} (hm : m ∈ ['x', 'o', 'b']) (h : c.toLower = m) :
    isPlainChar c ∧ c ≠ '_' := by
  have hplain : ∀ m ∈ ['x', 'o', 'b'], isPlainChar m ∧ '_'.toLower ≠ m := by decide
  refine ⟨isPlainChar_of_toLower (h ▸ (hplain m hm).1), ?_⟩
  rintro rfl
  exact (hplain m hm).2 h

/-- The marks of bases are plain, and have no underscores. -/
theorem isPlain_take_markLength {cs : List Char} {base : Base} (h : Base.ofStart cs = some base) :
    IsPlain ((cs.filter (· != '_')).take base.markLength) := by
  unfold Base.ofStart at h
  split at h
  · rename_i c rest
    have hc : isPlainChar c ∧ c ≠ '_' := by
      split at h
      · rename_i hdigit
        refine ⟨isPlainChar_of_isDigit hdigit, ?_⟩
        rintro rfl
        exact absurd hdigit (by decide)
      · simp only [beq_iff_eq] at h
        split at h
        · exact isPlainChar_of_mark (m := 'x') (by decide) ‹_›
        · split at h
          · exact isPlainChar_of_mark (m := 'o') (by decide) ‹_›
          · split at h
            · exact isPlainChar_of_mark (m := 'b') (by decide) ‹_›
            · cases h
    have hlength : base.markLength ≤ 2 := by cases base <;> decide
    have hmark : IsPlain ['0', c] := isPlain_cons.2 ⟨by decide, isPlain_cons.2 ⟨hc.1, isPlain_nil⟩⟩
    -- Two characters are enough, as neither of them is an underscore.
    refine hmark.sublist ?_
    have htake := List.take_sublist_take_left (l := ('0' :: c :: rest).filter (· != '_')) hlength
    simpa [hc.2] using htake
  · cases h

/-- What has a value is plain. -/
theorem isPlain_of_positiveValue {cs : List Char} {x : Float} (h : positiveValue? cs = some x) :
    IsPlain cs := by
  unfold positiveValue? at h
  split at h
  · rename_i base hbase
    rcases Option.map_eq_some_iff.1 h with ⟨n, hn, _⟩
    apply isPlain_of_filter
    rw [← List.take_append_drop base.markLength (cs.filter (· != '_'))]
    exact isPlain_append.2 ⟨isPlain_take_markLength hbase, isPlain_of_readInt64 hn⟩
  · rcases Option.map_eq_some_iff.1 h with ⟨n, hn, _⟩
    apply isPlain_of_toLower
    apply isPlain_of_filter
    exact isPlain_of_splitMultiplier (isPlain_of_readFloat hn)

theorem isPlain_of_readPositive {s : String} {x : Float} (h : readPositive s = .ok x) :
    IsPlain s.toList := by
  unfold readPositive at h
  split at h
  · rename_i hvalue
    exact isPlain_of_positiveValue hvalue
  · cases h

/-- What is read as a number is plain. -/
theorem isPlain_of_readNumber {s : String} {x : Float} (h : readNumber s = .ok x) :
    IsPlain s.toList := by
  unfold readNumber at h
  split at h
  · rename_i cs htext
    cases hread : readPositive (String.ofList cs) with
    | error cause =>
        rw [hread] at h
        cases h
    | ok y =>
        have hcs := isPlain_of_readPositive hread
        rw [String.toList_ofList] at hcs
        rw [htext]
        exact isPlain_cons.2 ⟨by decide, hcs⟩
  · rename_i cs htext
    have hcs := isPlain_of_readPositive h
    rw [String.toList_ofList] at hcs
    rw [htext]
    exact isPlain_cons.2 ⟨by decide, hcs⟩
  · exact isPlain_of_readPositive h

/-! ## Numbers that are written -/

theorem isPlain_toDigits (n : Nat) : IsPlain (Nat.toDigits 10 n) :=
  isPlain_of_isDigit fun _ => isDigit_of_mem_toDigits

theorem isPlain_zeros (n : Nat) : IsPlain (List.replicate n '0') := by
  intro c hc
  rw [List.eq_of_mem_replicate hc]
  decide

namespace Significand

theorem isPlain_ofDigits (d : Digits) : IsPlain (ofDigits d).digits := by
  intro c hc
  have hmem := (List.dropWhile_sublist _).mem (List.mem_reverse.1 hc)
  exact isPlain_toDigits d.digits c (List.mem_reverse.1 hmem)

theorem isPlain_plain {s : Significand} (h : IsPlain s.digits) : IsPlain s.plain := by
  unfold plain
  dsimp only
  split
  · simp only [isPlain_append, isPlain_cons]
    exact ⟨⟨⟨by decide, by decide, isPlain_nil⟩, isPlain_zeros _⟩, h⟩
  · split
    · exact isPlain_append.2 ⟨h, isPlain_zeros _⟩
    · refine isPlain_append.2 ⟨h.sublist (List.take_sublist _ _), ?_⟩
      exact isPlain_cons.2 ⟨by decide, h.sublist (List.drop_sublist _ _)⟩

theorem isPlain_scientific {s : Significand} (h : IsPlain s.digits) : IsPlain s.scientific := by
  unfold scientific
  dsimp only
  refine isPlain_append.2 ⟨?_, ?_⟩
  · split
    · rename_i first d rest hdigits
      rw [hdigits, isPlain_cons] at h
      exact isPlain_cons.2 ⟨h.1, isPlain_cons.2 ⟨by decide, h.2⟩⟩
    · exact h
  · refine isPlain_cons.2 ⟨by decide, isPlain_cons.2 ⟨?_, ?_⟩⟩
    · split <;> decide
    · exact isPlain_append.2 ⟨isPlain_zeros _, isPlain_toDigits _⟩

end Significand

theorem isPlain_formatWith {write : Significand → List Char}
    (hwrite : ∀ s : Significand, IsPlain s.digits → IsPlain (write s)) (x : Float) :
    IsPlain (formatWith write x).toList := by
  have hdigits := hwrite _ (Significand.isPlain_ofDigits (shortest (Binary64.ofFloat x)))
  unfold formatWith
  rw [String.toList_ofList]
  split
  · exact isPlain_cons.2 ⟨by decide, hdigits⟩
  · exact hdigits

/-- What is written for a number is plain. -/
theorem isPlain_formatNumber (x : Float) : IsPlain (formatNumber x).toList := by
  have hwords : ∀ word ∈ ["NaN", "-Inf", "+Inf", "-0", "0"], IsPlain word.toList := by
    unfold IsPlain
    decide
  unfold formatNumber
  split
  · exact hwords _ (by decide)
  split
  · split <;> exact hwords _ (by decide)
  split
  · split <;> exact hwords _ (by decide)
  · refine isPlain_formatWith (fun s hs => ?_) x
    split
    · exact Significand.isPlain_plain hs
    · exact Significand.isPlain_scientific hs

/-! ## Durations -/

theorem isPlain_of_ofLetter {c : Char} {unit : TimeUnit} (h : TimeUnit.ofLetter c = some unit) :
    isPlainChar c := by
  have hletters : ∀ m ∈ ['s', 'h', 'd', 'w', 'y', 'i'], isPlainChar m := by decide
  unfold TimeUnit.ofLetter at h
  split at h
  · rename_i hm
    rw [beq_iff_eq.1 hm]
    decide
  · apply isPlainChar_of_toLower
    split at h
    case h_7 => cases h
    all_goals
      rename_i heq
      rw [heq]
      decide

/-- Units are plain. -/
theorem isPlain_take_ofStart {cs : List Char} {unit : TimeUnit} {n : Nat}
    (h : TimeUnit.ofStart cs = some (unit, n)) : IsPlain (cs.take n) := by
  have hone : ∀ {c : Char} {cs : List Char}, (TimeUnit.ofLetter c).map (·, 1) = some (unit, n) →
      IsPlain ((c :: cs).take n) := by
    intro c cs hletter
    rcases Option.map_eq_some_iff.1 hletter with ⟨u, hu, heq⟩
    cases heq
    exact isPlain_cons.2 ⟨isPlain_of_ofLetter hu, isPlain_nil⟩
  unfold TimeUnit.ofStart at h
  split at h
  · cases h
  · split at h
    · rename_i c rest hm
      have hc : isPlainChar c := isPlainChar_of_toLower (by rw [beq_iff_eq.1 hm]; decide)
      split at h
      · rename_i d more
        split at h
        · rename_i hs
          cases h
          have hd : isPlainChar d := isPlainChar_of_toLower (by rw [beq_iff_eq.1 hs]; decide)
          exact isPlain_cons.2 ⟨hc, isPlain_cons.2 ⟨hd, isPlain_nil⟩⟩
        · split at h
          · cases h
          · exact hone h
      · exact hone h
    · exact hone h

theorem isPlain_takeWhile_isDigit (cs : List Char) : IsPlain (cs.takeWhile isDigit) :=
  isPlain_of_isDigit fun _ hc => List.mem_takeWhile_imp hc

theorem isPlain_partSign (signed : Bool) (cs : List Char) : IsPlain (partSign signed cs).1 := by
  unfold partSign
  split
  · exact isPlain_cons.2 ⟨by decide, isPlain_nil⟩
  · exact isPlain_nil

theorem isPlain_splitPartNumber (signed : Bool) (cs : List Char) :
    IsPlain (splitPartNumber signed cs).1 := by
  have hsign := isPlain_partSign signed cs
  have hwhole : IsPlain (splitDigits (partSign signed cs).2).1 := isPlain_takeWhile_isDigit _
  rw [splitPartNumber_eq]
  unfold partFraction
  split
  · split
    · exact isPlain_nil
    · rename_i afterPoint _ _
      have hfraction := isPlain_takeWhile_isDigit afterPoint
      exact isPlain_append.2 ⟨isPlain_append.2 ⟨hsign, hwhole⟩, isPlain_cons.2 ⟨by decide, hfraction⟩⟩
  · exact isPlain_append.2 ⟨hsign, hwhole⟩

theorem isPlain_of_splitPart {signed : Bool} {cs left : List Char} {part : DurationPart}
    (h : splitPart signed cs = some (part, left)) : IsPlain part.text := by
  have hnumber := isPlain_splitPartNumber signed cs
  unfold splitPart at h
  rcases splitPartNumber signed cs with ⟨number, after⟩
  dsimp only at h hnumber
  split at h
  · cases h
  · rcases Option.map_eq_some_iff.1 h with ⟨⟨unit, n⟩, hunit, heq⟩
    cases heq
    exact isPlain_append.2 ⟨hnumber, isPlain_take_ofStart hunit⟩

theorem isPlain_splitParts (fuel : Nat) (cs : List Char) :
    IsPlain ((splitParts fuel cs).1.flatMap DurationPart.text) := by
  induction fuel generalizing cs with
  | zero => exact isPlain_nil
  | succ fuel ih =>
      unfold splitParts
      split
      · rename_i part rest hpart
        exact isPlain_append.2 ⟨isPlain_of_splitPart hpart, ih rest⟩
      · exact isPlain_nil

theorem isPlain_of_splitDuration {cs text left : List Char}
    (h : splitDuration cs = some (text, left)) : IsPlain text := by
  unfold splitDuration at h
  rcases Option.map_eq_some_iff.1 h with ⟨⟨part, rest⟩, hpart, heq⟩
  cases heq
  exact isPlain_append.2 ⟨isPlain_of_splitPart hpart, isPlain_splitParts _ _⟩

theorem isPlain_of_isPositiveDuration {text : String} (h : isPositiveDuration text) :
    IsPlain text.toList := by
  unfold isPositiveDuration at h
  split at h
  · rename_i hsplit
    have hconcat := splitDuration_concat hsplit
    rw [List.append_nil] at hconcat
    rw [← hconcat]
    exact isPlain_of_splitDuration hsplit
  · cases h

theorem isPlain_of_bareSeconds {text : String} {d : Duration}
    (h : Reader.bareSeconds text = .ok d) : IsPlain text.toList := by
  unfold Reader.bareSeconds at h
  split at h
  · split at h
    · split at h
      · rename_i hread
        exact isPlain_of_readPositive hread
      · cases h
    · cases h
  · cases h

theorem IsSpan.isPlain {text : String} (h : IsSpan text) : IsPlain text.toList := by
  rcases h with hduration | ⟨_, hseconds⟩
  · exact isPlain_of_isPositiveDuration hduration
  · exact isPlain_of_bareSeconds hseconds

/-! ## Plain leaves -/

/-- Numbers and durations are plain; of names and strings nothing is said. -/
def Leaf.Plain : Leaf → Prop
  | .text _ | .label _ => True
  | .number n => IsPlain n.render.toList
  | .duration value => IsPlain value.toList

theorem Leaf.closed_plain : Leaf.Closed Leaf.Plain where
  empty := trivial
  append _ _ := trivial
  label _ := trivial
  duration h := h

theorem NumberLiteral.Written.isPlain {n : NumberLiteral} (h : n.Written) :
    IsPlain n.render.toList := by
  unfold NumberLiteral.render
  cases htext : n.text with
  | none => exact isPlain_formatNumber n.value
  | some text => exact isPlain_of_readNumber (h text htext)

theorem plain_segmentLeaf (segment : Segment) : segment.leaf.Plain := by
  cases segment <;> trivial

theorem plain_filterLeaf (f : FilterExpr) : ∀ l ∈ f.leaves, l.Plain := by
  intro l hl
  unfold FilterExpr.leaves at hl
  split at hl
  · rcases List.mem_singleton.1 hl with rfl
    trivial
  · rcases List.mem_map.1 hl with ⟨segment, _, rfl⟩
    exact plain_segmentLeaf segment

theorem plain_operatorLeaves (b : BinaryOp) : ∀ l ∈ b.leaves, l.Plain := by
  refine forall_mem_operatorLeaves.2 ⟨fun _ _ _ _ => trivial, fun _ _ _ _ => trivial, ?_⟩
  intro lead _ l hl
  rcases List.mem_map.1 hl with ⟨segment, _, rfl⟩
  exact plain_segmentLeaf segment

theorem plain_durationLeaf {d : Duration} (h : d.isTemplate = false → IsPlain d.text.toList) :
    d.leaf.Plain := by
  unfold Duration.leaf
  split
  · trivial
  · rename_i htext
    exact h (by simpa using htext)

theorem Duration.Written.plain {d : Duration} (h : d.Written) : d.leaf.Plain := by
  refine plain_durationLeaf fun htext => ?_
  rcases h with htemplate | hspan
  · rw [htext] at htemplate
    cases htemplate
  · exact hspan.isPlain

theorem Range.Written.plain {r : Range} (h : r.Written) : ∀ l ∈ r.leaves, l.Plain := by
  refine forall_mem_rangeLeaves.2 ⟨fun d hd => (h.window d hd).plain,
    fun d hd => (h.step d hd).plain, fun d hd => ?_⟩
  rcases h.offset d hd with hwritten | ⟨text, hspan, htext⟩
  · exact hwritten.plain
  · refine plain_durationLeaf fun _ => ?_
    rw [htext, String.toList_append]
    exact isPlain_append.2 ⟨isPlain_cons.2 ⟨by decide, isPlain_nil⟩, hspan.isPlain⟩

namespace Expr

/-- The numbers and durations of what the grammar reads are plain. -/
theorem Written.made {e : Expr} (h : Written e) : e.Made Leaf.Plain := by
  induction h with
  | number hn => exact made_number.2 hn.isPlain
  | duration _ htext =>
      exact made_duration.2 (plain_durationLeaf fun _ => isPlain_of_isPositiveDuration htext)
  | string value => exact made_string.2 trivial
  | concat s => exact made_concat.2 fun segment _ => plain_segmentLeaf segment
  | selector _ => exact made_selector.2 fun _ _ _ _ => trivial
  | selectorExpr s => exact made_selectorExpr.2 fun _ _ f _ => plain_filterLeaf f
  | call _ _ ih => exact made_call.2 ⟨trivial, ih⟩
  | aggregate _ _ ih =>
      refine made_aggregate.2 ⟨?_, ih⟩
      exact forall_mem_aggregationLeaves.2 ⟨trivial, fun _ _ _ _ => trivial⟩
  | binary _ _ _ ihl ihr => exact made_binary.2 ⟨plain_operatorLeaves _, ihl, ihr⟩
  | rollup hrange _ _ ih iht => exact made_rollup.2 ⟨ih, hrange.plain, iht⟩
  | tuple _ ih => exact made_tuple.2 ih
  | withTemplates _ _ ihts ih =>
      refine made_withTemplates.2 ⟨fun t ht => ?_, ih⟩
      exact Template.made_iff.2 ⟨trivial, fun _ _ => trivial, ihts t ht⟩

/-! ## Passes -/

section

variable {K : Leaf → Prop}

/-- Expansion makes no leaves but those that it puts together. -/
theorem gives_expandTemplates_made (hK : Leaf.Closed K) (hscope : builtinScope.Made K) {e : Expr}
    (h : e.Made K) : Gives (Made K) e.expandTemplates :=
  ((Corresponds.same hscope).concur hK maxExpansionDepth maxExpansionDepth h).gives

theorem Made.dropParens {e : Expr} (h : e.Made K) : e.dropParens.Made K := by
  induction e using Expr.inductionOn with
  | call name args keepNames ih =>
      have hparts := made_call.1 h
      rw [Expr.dropParens, dropParensList_eq_map]
      exact made_call.2 ⟨hparts.1, List.forall_mem_map.2 fun a ha => ih a ha (hparts.2 a ha)⟩
  | aggregate a args ih =>
      have hparts := made_aggregate.1 h
      rw [Expr.dropParens, dropParensList_eq_map]
      exact made_aggregate.2 ⟨hparts.1, List.forall_mem_map.2 fun a ha => ih a ha (hparts.2 a ha)⟩
  | binary b l r ihl ihr =>
      have hparts := made_binary.1 h
      exact made_binary.2 ⟨hparts.1, ihl hparts.2.1, ihr hparts.2.2⟩
  | rollup inner range time ih iht =>
      have hparts := made_rollup.1 h
      rw [Expr.dropParens, dropParensOption_eq_map]
      refine made_rollup.2 ⟨ih hparts.1, hparts.2.1, ?_⟩
      exact Option.forall_mem_map.2 fun e he => iht e he (hparts.2.2 e he)
  | tuple items ih =>
      have hparts := made_tuple.1 h
      rw [Expr.dropParens, dropParensList_eq_map]
      exact made_ofItems (List.forall_mem_map.2 fun e he => ih e he (hparts e he))
  | _ => exact h

/-- The value of an operator on strings is a string put together of them, or a number. -/
theorem made_foldBinary (hK : Leaf.Closed K) (hnumber : ∀ x, K (.number (.ofFloat x)))
    {b : BinaryOp} {l r : Expr} (h : Made K (.binary b l r)) : (foldBinary b l r).Made K := by
  have hparts := made_binary.1 h
  unfold foldBinary
  split
  · exact made_number.2 (hnumber _)
  · rename_i s t
    cases hfold : foldStrings b s t with
    | none => exact h
    | some e =>
        unfold foldStrings at hfold
        split at hfold
        · cases hfold
          have hs := made_string.1 hparts.2.1
          have ht := made_string.1 hparts.2.2
          exact made_string.2 (hK.append hs ht)
        · rcases Option.map_eq_some_iff.1 hfold with ⟨x, _, rfl⟩
          exact made_number.2 (hnumber _)
  · exact h

theorem Made.foldConstants (hK : Leaf.Closed K) (hnumber : ∀ x, K (.number (.ofFloat x))) {e : Expr}
    (h : e.Made K) : e.foldConstants.Made K := by
  induction e using Expr.inductionOn with
  | call name args keepNames ih =>
      have hparts := made_call.1 h
      rw [Expr.foldConstants, foldConstantsList_eq_map]
      exact made_call.2 ⟨hparts.1, List.forall_mem_map.2 fun a ha => ih a ha (hparts.2 a ha)⟩
  | aggregate a args ih =>
      have hparts := made_aggregate.1 h
      rw [Expr.foldConstants, foldConstantsList_eq_map]
      exact made_aggregate.2 ⟨hparts.1, List.forall_mem_map.2 fun a ha => ih a ha (hparts.2 a ha)⟩
  | binary b l r ihl ihr =>
      have hparts := made_binary.1 h
      exact made_foldBinary hK hnumber (made_binary.2 ⟨hparts.1, ihl hparts.2.1, ihr hparts.2.2⟩)
  | rollup inner range time ih iht =>
      have hparts := made_rollup.1 h
      rw [Expr.foldConstants, foldConstantsOption_eq_map]
      refine made_rollup.2 ⟨ih hparts.1, hparts.2.1, ?_⟩
      exact Option.forall_mem_map.2 fun e he => iht e he (hparts.2.2 e he)
  | tuple items ih =>
      have hparts := made_tuple.1 h
      rw [Expr.foldConstants, foldConstantsList_eq_map]
      exact made_tuple.2 (List.forall_mem_map.2 fun e he => ih e he (hparts e he))
  | _ => exact h

end

end Expr

/-! ## Queries -/

theorem made_builtinScope : builtinScope.Made Leaf.Plain := by
  intro frame hframe
  rcases List.mem_singleton.1 hframe with rfl
  intro t ht
  have hbody := (written_builtinTemplates t ht).made
  exact Template.made_iff.2 ⟨trivial, fun _ _ => trivial, hbody⟩

/-- The numbers and durations of what a query stands for are plain. -/
theorem Expr.made_parse {query : String} {e : Expr} (h : parse query = .ok e) :
    e.Made Leaf.Plain := by
  have hnumber : ∀ x, Leaf.Plain (.number (.ofFloat x)) := fun x => isPlain_formatNumber x
  have hparse : Gives (Expr.Made Leaf.Plain) (parse query) := by
    refine (Expr.gives_ofText query).bind fun written hwritten => ?_
    refine (Expr.gives_expandTemplates_made Leaf.closed_plain made_builtinScope
      hwritten.made).bind fun expanded hexpanded => ?_
    unfold normalize
    split
    · exact gives_error _
    · refine gives_bind_any fun _ => gives_ok ?_
      exact hexpanded.dropParens.foldConstants Leaf.closed_plain hnumber
  exact hparse e h

end SeriesQuery
