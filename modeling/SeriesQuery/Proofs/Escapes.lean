import Mathlib.Data.Nat.Digits.Defs
import SeriesQuery.Text.Quoted

/-!
# Escapes

Identifiers and string literals are written with escapes where a character could not stand as it
is.  A scanner takes the whole of what is written.

* `splitIdent_escape` — identifiers;
* `splitQuoted_quote` — string literals.
-/

namespace SeriesQuery
namespace Text

/-! ## Hexadecimal digits -/

theorem digitIn_hexDigit : ∀ d < 16, digitIn 16 (hexDigit d) = some d := by
  decide

theorem isHexDigit_hexDigit {d : Nat} (h : d < 16) : isHexDigit (hexDigit d) := by
  simp [isHexDigit, digitIn_hexDigit d h]

theorem length_hexFixed (width n : Nat) : (hexFixed width n).length = width := by
  induction width generalizing n with
  | zero => rfl
  | succ width ih => simp [hexFixed, ih]

theorem isHexDigit_of_mem_hexFixed {width n : Nat} {c : Char} (h : c ∈ hexFixed width n) :
    isHexDigit c := by
  induction width generalizing n with
  | zero => cases h
  | succ width ih =>
      rcases List.mem_append.1 h with h | h
      · exact ih h
      · rcases List.mem_singleton.1 h with rfl
        exact isHexDigit_hexDigit (Nat.mod_lt n (by decide))

theorem readDigits_append (base : Nat) (cs ds : List Char) (acc : Nat) :
    readDigits base (cs ++ ds) acc = (readDigits base cs acc).bind (readDigits base ds) := by
  induction cs generalizing acc with
  | nil => rfl
  | cons c cs ih =>
      simp only [List.cons_append, readDigits]
      cases digitIn base c with
      | none => rfl
      | some d => exact ih _

theorem digitIn_lt {base n : Nat} {c : Char} (h : digitIn base c = some n) : n < base := by
  simpa using (Option.filter_eq_some_iff.1 h).2

theorem readDigits_lt {base n : Nat} {cs : List Char} {acc : Nat}
    (h : readDigits base cs acc = some n) : n < (acc + 1) * base ^ cs.length := by
  induction cs generalizing acc with
  | nil =>
      cases h
      simp
  | cons c cs ih =>
      simp only [readDigits] at h
      split at h
      · rename_i d hd
        have hdigit := digitIn_lt hd
        calc n < (acc * base + d + 1) * base ^ cs.length := ih h
          _ ≤ ((acc + 1) * base) * base ^ cs.length := by
              apply Nat.mul_le_mul_right
              rw [Nat.add_mul]
              omega
          _ = (acc + 1) * base ^ (c :: cs).length := by
              rw [List.length_cons, Nat.pow_succ']
              ring
      · cases h

/-- A numeral of so many digits has a bounded value. -/
theorem readNat_lt {base n : Nat} {cs : List Char} (h : readNat base cs = some n) :
    n < base ^ cs.length := by
  cases cs with
  | nil => cases h
  | cons c cs => simpa using readDigits_lt h

theorem readDigits_hexFixed {width n : Nat} (h : n < 16 ^ width) (acc : Nat) :
    readDigits 16 (hexFixed width n) acc = some (acc * 16 ^ width + n) := by
  induction width generalizing n acc with
  | zero =>
      have hzero : n = 0 := by simpa using h
      simp [hexFixed, readDigits, hzero]
  | succ width ih =>
      have hquotient : n / 16 < 16 ^ width := by
        rw [Nat.pow_succ] at h
        omega
      have hdigit := digitIn_hexDigit (n % 16) (Nat.mod_lt n (by decide))
      simp only [hexFixed, readDigits_append, ih hquotient, Option.bind_some, readDigits, hdigit]
      rw [Nat.pow_succ]
      congr 1
      have hsplit := Nat.div_add_mod n 16
      calc (acc * 16 ^ width + n / 16) * 16 + n % 16
          = acc * (16 ^ width * 16) + (16 * (n / 16) + n % 16) := by ring
        _ = acc * (16 ^ width * 16) + n := by rw [hsplit]

theorem readNat_hexFixed {width n : Nat} (hwidth : 0 < width) (h : n < 16 ^ width) :
    readNat 16 (hexFixed width n) = some n := by
  have hread := readDigits_hexFixed h 0
  cases hdigits : hexFixed width n with
  | nil =>
      have hlength := length_hexFixed width n
      rw [hdigits] at hlength
      exact absurd hlength.symm hwidth.ne'
  | cons c cs =>
      rw [hdigits] at hread
      simpa [readNat] using hread

theorem isHexDigit_of_mem_hexDigits {n : Nat} {c : Char} (h : c ∈ hexDigits n) : isHexDigit c := by
  unfold hexDigits at h
  by_cases hsmall : n < 16
  · rw [Nat.toDigits_of_lt_base hsmall] at h
    rcases List.mem_singleton.1 h with rfl
    exact isHexDigit_hexDigit hsmall
  · rw [Nat.toDigits_of_base_le (by decide) (by omega)] at h
    rcases List.mem_append.1 h with h | h
    · exact isHexDigit_of_mem_hexDigits h
    · rcases List.mem_singleton.1 h with rfl
      exact isHexDigit_hexDigit (Nat.mod_lt n (by decide))
termination_by n

theorem isHexDigit_of_mem_hexPadded {width n : Nat} {c : Char} (h : c ∈ hexPadded width n) :
    isHexDigit c := by
  unfold hexPadded at h
  split at h
  · exact isHexDigit_of_mem_hexFixed h
  · exact isHexDigit_of_mem_hexDigits h

theorem le_length_hexPadded {width n : Nat} (hwidth : 0 < width) :
    width ≤ (hexPadded width n).length := by
  unfold hexPadded
  split
  · exact (length_hexFixed width n).ge
  · rename_i hlarge
    by_contra hshort
    have hle : (hexDigits n).length ≤ width := by omega
    exact hlarge ((Nat.length_toDigits_le_iff (by decide) hwidth).1 hle)

/-! ## Characters -/

-- Without these instances what holds of a few characters is decided by going through all
-- characters, where the library has an instance for that.
instance decidableForallMem (cs : List Char) (p : Char → Prop) [DecidablePred p] :
    Decidable (∀ c ∈ cs, p c) :=
  List.decidableBAll p cs

instance decidableForallMemOption (p : Char → Prop) [DecidablePred p] :
    (o : Option Char) → Decidable (∀ c ∈ o, p c)
  | none => .isTrue (by simp)
  | some c => decidable_of_iff (p c) (by simp)

theorem le_iff_toNat_le {c d : Char} : c ≤ d ↔ c.toNat ≤ d.toNat := by
  rw [Char.le_def, UInt32.le_iff_toNat_le]; rfl

theorem isDigit_iff {c : Char} : isDigit c ↔ 48 ≤ c.toNat ∧ c.toNat ≤ 57 := by
  simp [isDigit, le_iff_toNat_le]

theorem isAsciiLetter_iff {c : Char} :
    isAsciiLetter c ↔ (97 ≤ c.toNat ∧ c.toNat ≤ 122) ∨ (65 ≤ c.toNat ∧ c.toNat ≤ 90) := by
  simp [isAsciiLetter, le_iff_toNat_le]

/-- Only letters change their case. -/
theorem isAsciiLetter_or_toLower_eq (c : Char) : isAsciiLetter c ∨ c.toLower = c := by
  unfold Char.toLower
  split
  · rename_i hupper
    simp only [ge_iff_le, UInt32.le_iff_toNat_le] at hupper
    exact .inl (isAsciiLetter_iff.2 (.inr hupper))
  · exact .inr rfl

theorem isIdentStart_of_isAsciiLetter {c : Char} (h : isAsciiLetter c) : isIdentStart c := by
  have hascii : c.toNat < 0x80 := by
    rw [isAsciiLetter_iff] at h
    omega
  simp [isIdentStart, isAlphabetic, hascii, h]

theorem isIdentChar_of_isIdentStart {c : Char} (h : isIdentStart c) : isIdentChar c := by
  simp [isIdentChar, h]

/-- Digits of any base are digits or letters. -/
theorem isIdentChar_of_digitIn {base n : Nat} {c : Char} (h : digitIn base c = some n) :
    isIdentChar c := by
  by_cases hdigit : isDigit c
  · simp [isIdentChar, hdigit]
  · have hletter : isAsciiLetter c := by
      by_contra hnone
      have hvalue : digitValue c = none := by
        rw [isAsciiLetter_iff, not_or] at hnone
        simp [digitValue, hdigit, le_iff_toNat_le, hnone]
      simp [digitIn, hvalue] at h
    exact isIdentChar_of_isIdentStart (isIdentStart_of_isAsciiLetter hletter)

theorem isIdentChar_of_isHexDigit {c : Char} (h : isHexDigit c) : isIdentChar c := by
  rcases Option.isSome_iff_exists.1 h with ⟨n, hn⟩
  exact isIdentChar_of_digitIn hn

/-! ## Splitting identifiers -/

/-- The characters that end an identifier where they stand alone. -/
def EndsIdent (cs : List Char) : Prop :=
  ∀ c ∈ cs.head?, isIdentChar c = false ∧ c ≠ '\\'

/-- The characters belong to the identifier in which they come next, whatever follows them. -/
def Taken (started : Bool) (xs : List Char) : Prop :=
  ∀ cs, splitIdentFrom started 0 (xs ++ cs) =
    (xs ++ (splitIdentFrom true 0 cs).1, (splitIdentFrom true 0 cs).2)

theorem taken_nil : Taken true [] :=
  fun _ => rfl

theorem taken_start {c : Char} (h : isIdentStart c) : Taken false [c] := by
  intro cs
  simp [splitIdentFrom, h]

theorem taken_char {c : Char} (h : isIdentChar c) : Taken true [c] := by
  intro cs
  simp [splitIdentFrom, h]

theorem Taken.append {started : Bool} {xs ys : List Char} (hx : Taken started xs)
    (hy : Taken true ys) : Taken started (xs ++ ys) := by
  intro cs
  rw [List.append_assoc, hx (ys ++ cs), hy cs]
  simp

theorem taken_of_all {xs : List Char} (h : ∀ c ∈ xs, isIdentChar c) : Taken true xs := by
  induction xs with
  | nil => exact taken_nil
  | cons c xs ih =>
      have hparts := List.forall_mem_cons.1 h
      exact (taken_char hparts.1).append (ih hparts.2)

theorem splitIdentFrom_owed (xs cs : List Char) :
    splitIdentFrom true xs.length (xs ++ cs) =
      (xs ++ (splitIdentFrom true 0 cs).1, (splitIdentFrom true 0 cs).2) := by
  induction xs with
  | nil => rfl
  | cons x xs ih =>
      simp only [List.length_cons, List.cons_append, splitIdentFrom]
      rw [ih]

/-- The characters of an escape are taken whatever they are. -/
theorem taken_backslash {started : Bool} {xs : List Char}
    (h : ∀ cs, escapeLength (xs ++ cs) = some xs.length) : Taken started ('\\' :: xs) := by
  intro cs
  have hstart : isIdentStart '\\' = false := by decide
  have hchar : isIdentChar '\\' = false := by decide
  cases started <;> simp [splitIdentFrom, hstart, hchar, h cs, splitIdentFrom_owed]

/-- The letters before a numeral may start an identifier. -/
theorem ne_numeralLetter_of_isIdentStart_eq_false {c : Char} (h : isIdentStart c = false) :
    c ≠ 'x' ∧ c ≠ 'X' ∧ c ≠ 'u' ∧ c ≠ 'U' := by
  refine ⟨?_, ?_, ?_, ?_⟩ <;>
  · rintro rfl
    exact absurd h (by decide)

theorem escapeLength_printable {c : Char} (hident : isIdentStart c = false)
    (hprint : isPrintable c) (cs : List Char) : escapeLength (c :: cs) = some 1 := by
  rcases ne_numeralLetter_of_isIdentStart_eq_false hident with ⟨hx, hX, hu, hU⟩
  simp [escapeLength, hx, hX, hu, hU, hprint]

/-- The letter stands before an escape with so many hexadecimal digits. -/
def CountsDigits (mark : Char) (width : Nat) : Prop :=
  ∀ cs : List Char, width ≤ cs.length → (cs.take width).all isHexDigit →
    escapeLength (mark :: cs) = some (width + 1)

theorem countsDigits_two {c : Char} (h : c == 'x' || c == 'X') : CountsDigits c 2 := by
  intro cs hlength hall
  rw [escapeLength, if_pos h, if_pos (by simp [hlength, hall])]

theorem countsDigits_four {c : Char} (h : c == 'u' || c == 'U') : CountsDigits c 4 := by
  intro cs hlength hall
  have hother : ¬(c == 'x' || c == 'X') := by
    rcases Bool.or_eq_true_iff.1 h with h | h <;> rw [beq_iff_eq.1 h] <;> decide
  rw [escapeLength, if_neg hother, if_pos h, if_pos (by simp [hlength, hall])]

/-- All that an escape can be: a letter with its hexadecimal digits, or a printable character. -/
theorem escapeLength_cases {cs : List Char} {n : Nat} (h : escapeLength cs = some n) :
    (∃ mark width rest, cs = mark :: rest ∧ n = width + 1 ∧ isIdentStart mark ∧
        CountsDigits mark width ∧ width ≤ rest.length ∧ (rest.take width).all isHexDigit) ∨
      ∃ c rest, cs = c :: rest ∧ n = 1 ∧ isPrintable c ∧
        ∀ others, escapeLength (c :: others) = some 1 := by
  -- The marks of escapes with digits are letters, whichever case they are in.
  have hletter : ∀ {c x X : Char}, isIdentStart x → isIdentStart X → (c == x || c == X) →
      isIdentStart c := by
    intro c x X hx hX hc
    rcases Bool.or_eq_true_iff.1 hc with hc | hc <;> rw [beq_iff_eq.1 hc] <;> assumption
  cases cs with
  | nil => cases h
  | cons c rest =>
      rw [escapeLength] at h
      split at h
      · rename_i hx
        have hparts := Option.ite_none_right_eq_some.1 h
        rcases Bool.and_eq_true_iff.1 hparts.1 with ⟨hlength, hall⟩
        exact .inl ⟨c, 2, rest, rfl, (Option.some.inj hparts.2).symm,
          hletter (by decide) (by decide) hx, countsDigits_two hx, of_decide_eq_true hlength, hall⟩
      · rename_i hx
        split at h
        · rename_i hu
          have hparts := Option.ite_none_right_eq_some.1 h
          rcases Bool.and_eq_true_iff.1 hparts.1 with ⟨hlength, hall⟩
          exact .inl ⟨c, 4, rest, rfl, (Option.some.inj hparts.2).symm,
            hletter (by decide) (by decide) hu, countsDigits_four hu, of_decide_eq_true hlength, hall⟩
        · rename_i hu
          have hparts := Option.ite_none_right_eq_some.1 h
          refine .inr ⟨c, rest, rfl, (Option.some.inj hparts.2).symm, hparts.1, fun others => ?_⟩
          rw [escapeLength, if_neg hx, if_neg hu, if_pos hparts.1]

/-- An escape takes so many hexadecimal digits; further ones belong to the identifier anyway. -/
theorem taken_hexEscape {started : Bool} {mark : Char} {width n : Nat} (hwidth : 0 < width)
    (hmark : CountsDigits mark width) : Taken started ('\\' :: mark :: hexPadded width n) := by
  have hlength := le_length_hexPadded (n := n) hwidth
  have hhex : ∀ d ∈ hexPadded width n, isHexDigit d := fun d => isHexDigit_of_mem_hexPadded
  generalize hexPadded width n = digits at hlength hhex
  have hescape : Taken started ('\\' :: mark :: digits.take width) := by
    refine taken_backslash fun cs => ?_
    have htake : (digits.take width).length = width := List.length_take_of_le hlength
    have hfirst : (digits.take width ++ cs).take width = digits.take width := by
      rw [List.take_append_of_le_length htake.ge, List.take_of_length_le htake.le]
    rw [List.cons_append, hmark _ (by simp [htake]) ?_, List.length_cons, htake]
    rw [hfirst, List.all_eq_true]
    exact fun d hd => hhex d (List.mem_of_mem_take hd)
  have hrest : Taken true (digits.drop width) :=
    taken_of_all fun d hd => isIdentChar_of_isHexDigit (hhex d (List.mem_of_mem_drop hd))
  simpa using hescape.append hrest

theorem taken_escapeChar {started : Bool} {c : Char} (hident : isIdentStart c = false) :
    Taken started (escapeChar c) := by
  unfold escapeChar
  split
  · rename_i hprint
    exact taken_backslash fun cs => escapeLength_printable hident hprint cs
  · split
    · exact taken_hexEscape (by decide) (countsDigits_two rfl)
    · exact taken_hexEscape (by decide) (countsDigits_four rfl)

theorem taken_escapeTail (cs : List Char) : Taken true (escapeTail cs) := by
  induction cs with
  | nil => exact taken_nil
  | cons c cs ih =>
      have hone : Taken true (if isIdentChar c then [c] else escapeChar c) := by
        split
        · exact taken_char ‹_›
        · rename_i hident
          have hstart : isIdentStart c = false := by
            by_contra hstart
            exact hident (isIdentChar_of_isIdentStart (by simpa using hstart))
          exact taken_escapeChar hstart
      exact hone.append ih

theorem taken_escape {cs : List Char} (h : cs ≠ []) : Taken false (escape cs) := by
  cases cs with
  | nil => exact absurd rfl h
  | cons c rest =>
      have hone : Taken false (if isIdentStart c then [c] else escapeChar c) := by
        split
        · exact taken_start ‹_›
        · rename_i hident
          exact taken_escapeChar (by simpa using hident)
      exact hone.append (taken_escapeTail rest)

theorem splitIdentFrom_of_endsIdent {cs : List Char} (h : EndsIdent cs) :
    splitIdentFrom true 0 cs = ([], cs) := by
  cases cs with
  | nil => rfl
  | cons c rest =>
      have hc := h c rfl
      simp [splitIdentFrom, hc.1, hc.2]

/-- The whole of an identifier is taken where something follows it that ends identifiers. -/
theorem splitIdent_escape {cs rest : List Char} (h : cs ≠ []) (hrest : EndsIdent rest) :
    splitIdent (escape cs ++ rest) = (escape cs, rest) := by
  have htaken := taken_escape h rest
  rw [splitIdentFrom_of_endsIdent hrest] at htaken
  simpa [splitIdent] using htaken

/-! ## Splitting string literals -/

/-- The characters belong to the body of the literal in which they come next. -/
def Kept (xs : List Char) : Prop :=
  ∀ cs, splitBody '"' false (xs ++ cs) =
    (splitBody '"' false cs).map fun found => (xs ++ found.1, found.2)

theorem kept_nil : Kept [] := by
  intro cs
  cases h : splitBody '"' false cs <;> simp [h]

theorem kept_char {c : Char} (hquote : c ≠ '"') (hbackslash : c ≠ '\\') : Kept [c] := by
  intro cs
  have hplain : (c == '\\') = false := by simpa using hbackslash
  simp [splitBody, hquote, hplain]

theorem kept_escape (c : Char) : Kept ['\\', c] := by
  intro cs
  simp [splitBody, Option.map_map, Function.comp_def]

theorem Kept.append {xs ys : List Char} (hx : Kept xs) (hy : Kept ys) : Kept (xs ++ ys) := by
  intro cs
  rw [List.append_assoc, hx, hy, Option.map_map]
  congr 1
  funext found
  simp

theorem kept_of_all {xs : List Char} (h : ∀ c ∈ xs, isHexDigit c) : Kept xs := by
  induction xs with
  | nil => exact kept_nil
  | cons c xs ih =>
      have hparts := List.forall_mem_cons.1 h
      have hother : ∀ d, isHexDigit d = false → c ≠ d := by
        intro d hd heq
        rw [← heq, hparts.1] at hd
        cases hd
      exact (kept_char (hother '"' (by decide)) (hother '\\' (by decide))).append (ih hparts.2)

theorem kept_quoteChar (c : Char) : Kept (quoteChar c) := by
  have hhex : ∀ (mark : Char) (width : Nat),
      Kept ('\\' :: mark :: hexPadded width c.toNat) := by
    intro mark width
    exact (kept_escape mark).append (kept_of_all fun d => isHexDigit_of_mem_hexPadded)
  unfold quoteChar
  refine iteInduction (motive := Kept) (fun _ => kept_escape _) fun hquote => ?_
  refine iteInduction (motive := Kept) (fun _ => kept_escape _) fun hbackslash => ?_
  -- Seven control characters have letters of their own.
  iterate 7 refine iteInduction (motive := Kept) (fun _ => kept_escape _) fun _ => ?_
  have hplain := kept_char (by simpa using hquote) (by simpa using hbackslash)
  refine iteInduction (motive := Kept) (fun _ => hplain) fun _ => ?_
  refine iteInduction (motive := Kept) (fun _ => hhex 'x' 2) fun _ => ?_
  exact iteInduction (motive := Kept) (fun _ => hhex 'u' 4) fun _ => hhex 'U' 8

theorem kept_flatMap_quoteChar (cs : List Char) : Kept (cs.flatMap quoteChar) := by
  induction cs with
  | nil => exact kept_nil
  | cons c cs ih => exact (kept_quoteChar c).append ih

/-- The whole of a literal is taken, whatever follows it. -/
theorem splitQuoted_quote (s : String) (rest : List Char) :
    splitQuoted ((quote s).toList ++ rest) = .ok ((quote s).toList, rest) := by
  have hbody := kept_flatMap_quoteChar s.toList ('"' :: rest)
  have hend : splitBody '"' false ('"' :: rest) = some (['"'], rest) := rfl
  rw [hend] at hbody
  have htext : (quote s).toList = '"' :: (s.toList.flatMap quoteChar ++ ['"']) := by simp [quote]
  rw [htext]
  cases hcase : s.toList.flatMap quoteChar ++ ['"'] ++ rest with
  | nil => simp at hcase
  | cons c cs =>
      have hwhole : c :: cs = s.toList.flatMap quoteChar ++ '"' :: rest := by simp [← hcase]
      rw [List.cons_append, hcase, splitQuoted, hwhole, hbody]
      · simp
      · simp

end Text
end SeriesQuery
