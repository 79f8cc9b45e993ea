import SeriesQuery.Proofs.Escapes

/-!
# Names behind escaped identifiers

The identifier that is written for a name is a whole identifier, and stands for the name if all
characters of the name are below `U+F0000`.  From there on escapes have more than the four
hexadecimal digits that are read again: `reread` is what such a character is read as.

* `unescape_escape_eq` — what the identifier for any name stands for;
* `unescape_escape` — names that come back from their identifiers;
* `unescapeIdent_escapeIdent` — both, with the extent of the identifier.
-/

namespace SeriesQuery
namespace Text

/-! ## Planes of characters -/

theorem toNat_lt_planes (c : Char) : c.toNat < 0x110000 := by
  rcases c.valid with hlow | hhigh
  · exact Nat.lt_trans hlow (by decide)
  · exact hhigh.2

theorem toNat_lt_of_isPrintable {c : Char} (h : isPrintable c) : c.toNat < 0xF0000 := by
  have hchar := toNat_lt_planes c
  simp only [isPrintable, Bool.or_eq_true, beq_iff_eq, Bool.not_eq_true', Bool.or_eq_false_iff,
    inRanges, unprintableRanges, List.any_cons, List.any_nil, Bool.and_eq_false_iff,
    decide_eq_false_iff_not] at h
  rcases h with rfl | h
  · decide
  · omega

theorem toNat_lt_of_isIdentStart {c : Char} (h : isIdentStart c) : c.toNat < 0xF0000 := by
  simp only [isIdentStart, Bool.or_eq_true, beq_iff_eq] at h
  rcases h with (hletter | rfl) | rfl
  · unfold isAlphabetic at hletter
    split at hletter
    · omega
    · have htable : ∀ range ∈ alphabeticRanges, range.2 < 0xF0000 := by decide +kernel
      rcases List.any_eq_true.1 hletter with ⟨range, hmem, hin⟩
      have hrange := htable range hmem
      simp only [Bool.and_eq_true, decide_eq_true_eq] at hin
      omega
  · decide
  · decide

theorem toNat_lt_of_isIdentChar {c : Char} (h : isIdentChar c) : c.toNat < 0xF0000 := by
  simp only [isIdentChar, Bool.or_eq_true, beq_iff_eq] at h
  rcases h with (hstart | hdigit) | rfl
  · exact toNat_lt_of_isIdentStart hstart
  · have hrange := isDigit_iff.1 hdigit
    omega
  · decide

theorem toNat_lt_of_not_isPrintable {c : Char} (h : isPrintable c = false)
    (hplane : c.toNat < 0xF0000) : c.toNat < 0x10000 := by
  simp only [isPrintable, isControl, isWhiteSpace, inRanges, whiteSpaceRanges, unprintableRanges,
    List.any_cons, List.any_nil, Bool.or_false, Bool.or_eq_false_iff, Bool.not_eq_false',
    Bool.or_eq_true, Bool.and_eq_true, decide_eq_true_eq] at h
  omega

/-! ## Digits of large numbers -/

theorem hexFixed_add (width k n : Nat) :
    hexFixed (width + k) n = hexFixed width (n / 16 ^ k) ++ hexFixed k n := by
  induction k generalizing n with
  | zero => simp [hexFixed]
  | succ k ih =>
      rw [← Nat.add_assoc, hexFixed, ih, Nat.div_div_eq_div_mul, ← Nat.pow_succ',
        List.append_assoc]
      rfl

theorem hexDigits_eq_hexFixed {width n : Nat} (hlow : 16 ^ width ≤ n) (hhigh : n < 16 ^ (width + 1)) :
    hexDigits n = hexFixed (width + 1) n := by
  induction width generalizing n with
  | zero =>
      have hsmall : n < 16 := hhigh
      rw [hexDigits, Nat.toDigits_of_lt_base hsmall]
      simp [hexFixed, hexDigit, Nat.mod_eq_of_lt hsmall]
  | succ width ih =>
      have hlarge : 16 ≤ n := by
        have hpositive : 0 < 16 ^ width := Nat.pow_pos (by decide)
        rw [Nat.pow_succ] at hlow
        omega
      have hquotient : hexDigits (n / 16) = hexFixed (width + 1) (n / 16) := by
        apply ih
        · rw [Nat.pow_succ] at hlow
          omega
        · rw [Nat.pow_succ] at hhigh
          omega
      rw [hexDigits, Nat.toDigits_of_base_le (by decide) hlarge]
      exact congrArg (· ++ [hexDigit (n % 16)]) hquotient

/-! ## Characters -/

/-- How many hexadecimal digits of the character an escape has beyond the four that are read. -/
def unreadDigits (c : Char) : Nat :=
  if c.toNat < 0xF0000 then 0
  else if c.toNat < 0x100000 then 1
  else 2

/-- What the escape of a character is read as: the character with the first four of its digits, and
the other digits. -/
def reread (c : Char) : List Char :=
  Char.ofNat (c.toNat / 16 ^ unreadDigits c) :: hexFixed (unreadDigits c) c.toNat

theorem reread_of_lt {c : Char} (h : c.toNat < 0xF0000) : reread c = [c] := by
  simp [reread, unreadDigits, h, hexFixed, Char.ofNat_toNat]

theorem length_reread (c : Char) : (reread c).length = unreadDigits c + 1 := by
  simp [reread, length_hexFixed]

theorem unreadDigits_eq_zero_iff {c : Char} : unreadDigits c = 0 ↔ c.toNat < 0xF0000 := by
  unfold unreadDigits
  split
  · simpa
  · split <;> simp <;> omega

theorem unescape_cons {c : Char} (h : c ≠ '\\') (cs : List Char) :
    unescape (c :: cs) = c :: unescape cs := by
  rw [unescape.eq_def]
  simp [h]

/-- Characters before the first backslash stand for themselves. -/
theorem unescape_append {ds : List Char} (h : ∀ d ∈ ds, d ≠ '\\') (cs : List Char) :
    unescape (ds ++ cs) = ds ++ unescape cs := by
  induction ds with
  | nil => rfl
  | cons d ds ih =>
      have hparts := List.forall_mem_cons.1 h
      rw [List.cons_append, unescape_cons hparts.1, ih hparts.2, List.cons_append]

/-- Four hexadecimal digits are read, and no more. -/
theorem unescape_point {n : Nat} (hsmall : n < 16 ^ 4) (hvalid : n.isValidChar) (cs : List Char) :
    unescape ('\\' :: 'u' :: (hexFixed 4 n ++ cs)) = Char.ofNat n :: unescape cs := by
  have hread := readNat_hexFixed (by decide) hsmall
  have hdigits : ∃ a b d e, hexFixed 4 n = [a, b, d, e] := ⟨_, _, _, _, rfl⟩
  rcases hdigits with ⟨a, b, d, e, habde⟩
  rw [habde] at hread ⊢
  rw [unescape.eq_def]
  simp [hread, charOfNat?, hvalid]

theorem hexPadded_of_not_isPrintable {c : Char} (h : isPrintable c = false) :
    hexPadded 4 c.toNat = hexFixed (4 + unreadDigits c) c.toNat ∧
      c.toNat / 16 ^ unreadDigits c < 16 ^ 4 ∧ (c.toNat / 16 ^ unreadDigits c).isValidChar := by
  have hchar := toNat_lt_planes c
  unfold unreadDigits
  split
  · rename_i hplane
    have hsmall : c.toNat < 16 ^ 4 := toNat_lt_of_not_isPrintable h hplane
    have hvalid : c.toNat.isValidChar := c.valid
    exact ⟨if_pos hsmall, by simpa using hsmall, by simpa using hvalid⟩
  · split
    · rename_i hplane hfive
      refine ⟨?_, by omega, .inr ⟨by omega, by omega⟩⟩
      rw [hexPadded, if_neg (by norm_num; omega)]
      exact hexDigits_eq_hexFixed (by norm_num; omega) (by norm_num; omega)
    · rename_i hplane hfive
      refine ⟨?_, by omega, .inl (by omega)⟩
      rw [hexPadded, if_neg (by norm_num; omega)]
      exact hexDigits_eq_hexFixed (by norm_num; omega) (by norm_num; omega)

theorem unescape_escapeChar {c : Char} (hident : isIdentStart c = false) (cs : List Char) :
    unescape (escapeChar c ++ cs) = reread c ++ unescape cs := by
  -- The digits beyond the fourth stand for themselves.
  have hplain : ∀ d ∈ hexFixed (unreadDigits c) c.toNat, d ≠ '\\' := by
    rintro d hd rfl
    exact absurd (isHexDigit_of_mem_hexFixed hd) (by decide)
  unfold escapeChar
  split
  · rename_i hprint
    rcases ne_numeralLetter_of_isIdentStart_eq_false hident with ⟨hx, hX, hu, hU⟩
    rw [reread_of_lt (toNat_lt_of_isPrintable hprint), List.cons_append, unescape.eq_def]
    simp [hx, hX, hu, hU]
  · rename_i hprint
    split
    · rename_i hascii
      have hsmall : c.toNat < 16 ^ 2 := by omega
      have hpad : hexPadded 2 c.toNat = hexFixed 2 c.toNat := if_pos hsmall
      have hread := readNat_hexFixed (by decide) hsmall
      have hdigits : ∃ a b, hexFixed 2 c.toNat = [a, b] := ⟨_, _, rfl⟩
      rcases hdigits with ⟨a, b, hab⟩
      rw [reread_of_lt (by omega), hpad]
      rw [hab] at hread ⊢
      rw [List.cons_append, unescape.eq_def]
      simp [hread, Char.ofNat_toNat]
    · rcases hexPadded_of_not_isPrintable (by simpa using hprint) with ⟨hpad, hsmall, hvalid⟩
      rw [hpad, hexFixed_add, List.cons_append, List.cons_append, List.append_assoc,
        unescape_point hsmall hvalid, unescape_append hplain]
      rfl

/-! ## Names -/

theorem ne_backslash_of_isIdentChar {c : Char} (h : isIdentChar c) : c ≠ '\\' := by
  rintro rfl
  exact absurd h (by decide)

theorem unescape_escapeTail (cs : List Char) : unescape (escapeTail cs) = cs.flatMap reread := by
  induction cs with
  | nil => rfl
  | cons c cs ih =>
      rw [escapeTail, List.flatMap_cons, List.flatMap_cons, ← ih]
      split
      · rename_i hident
        rw [reread_of_lt (toNat_lt_of_isIdentChar hident)]
        exact unescape_cons (ne_backslash_of_isIdentChar hident) _
      · rename_i hident
        have hstart : isIdentStart c = false := by
          by_contra hstart
          exact hident (isIdentChar_of_isIdentStart (by simpa using hstart))
        exact unescape_escapeChar hstart _

/-- The identifier for a name stands for what its characters are read as. -/
theorem unescape_escape_eq (cs : List Char) : unescape (escape cs) = cs.flatMap reread := by
  cases cs with
  | nil => rfl
  | cons c cs =>
      rw [escape, List.flatMap_cons, ← unescape_escapeTail cs]
      split
      · rename_i hident
        rw [reread_of_lt (toNat_lt_of_isIdentStart hident)]
        exact unescape_cons (ne_backslash_of_isIdentChar (isIdentChar_of_isIdentStart hident)) _
      · rename_i hident
        exact unescape_escapeChar (by simpa using hident) _

theorem flatMap_reread {cs : List Char} (h : ∀ c ∈ cs, c.toNat < 0xF0000) :
    cs.flatMap reread = cs := by
  induction cs with
  | nil => rfl
  | cons c cs ih =>
      have hparts := List.forall_mem_cons.1 h
      rw [List.flatMap_cons, reread_of_lt hparts.1, ih hparts.2, List.singleton_append]

/-- The name behind an identifier is the one that the identifier was made for. -/
theorem unescape_escape {cs : List Char} (h : ∀ c ∈ cs, c.toNat < 0xF0000) :
    unescape (escape cs) = cs := by
  rw [unescape_escape_eq, flatMap_reread h]

/-- Each digit that is not read again makes a name longer. -/
theorem length_flatMap_reread (cs : List Char) :
    (cs.flatMap reread).length = cs.length + (cs.map unreadDigits).sum := by
  induction cs with
  | nil => rfl
  | cons c cs ih =>
      simp only [List.flatMap_cons, List.length_append, length_reread, ih, List.length_cons,
        List.map_cons, List.sum_cons]
      omega

theorem flatMap_reread_eq_iff {cs : List Char} :
    cs.flatMap reread = cs ↔ ∀ c ∈ cs, c.toNat < 0xF0000 := by
  refine ⟨fun h c hc => ?_, flatMap_reread⟩
  have hlength := length_flatMap_reread cs
  rw [h] at hlength
  have hsum : (cs.map unreadDigits).sum = 0 := by omega
  have hzero := List.sum_eq_zero_iff_forall_eq_nat.1 hsum (unreadDigits c) (List.mem_map_of_mem hc)
  exact unreadDigits_eq_zero_iff.1 hzero

/-- What is written for a name is one identifier as a whole.  It stands for what the characters of
the name are read as, and so for the name just if they all are below the last two planes. -/
theorem unescapeIdent_escapeIdent {s : String} (h : s ≠ "") :
    splitIdent (escapeIdent s).toList = ((escapeIdent s).toList, []) ∧
      unescapeIdent (escapeIdent s) = String.ofList (s.toList.flatMap reread) ∧
      (unescapeIdent (escapeIdent s) = s ↔ ∀ c ∈ s.toList, c.toNat < 0xF0000) := by
  have hname : unescapeIdent (escapeIdent s) = String.ofList (s.toList.flatMap reread) := by
    simp [unescapeIdent, escapeIdent, unescape_escape_eq]
  refine ⟨?_, hname, ?_⟩
  · have hne : s.toList ≠ [] := by simpa using h
    have hends : EndsIdent [] := by simp [EndsIdent]
    have hwhole := splitIdent_escape hne hends
    simpa [escapeIdent] using hwhole
  · rw [hname, ← flatMap_reread_eq_iff, ← String.toList_inj, String.toList_ofList]

/-- A digit at the start, a backslash, a control character, and characters of two planes. -/
theorem unescapeIdent_escapeIdent_mixed :
    "1\\\x01😀\u202c" ≠ "" ∧
      splitIdent (escapeIdent "1\\\x01😀\u202c").toList = ((escapeIdent "1\\\x01😀\u202c").toList, []) ∧
      unescapeIdent (escapeIdent "1\\\x01😀\u202c") =
        String.ofList ("1\\\x01😀\u202c".toList.flatMap reread) ∧
      (unescapeIdent (escapeIdent "1\\\x01😀\u202c") = "1\\\x01😀\u202c" ↔
        ∀ c ∈ "1\\\x01😀\u202c".toList, c.toNat < 0xF0000) :=
  ⟨by decide, unescapeIdent_escapeIdent (by decide)⟩

/-- The first character of the last two planes is read as another one and a digit. -/
theorem not_unescapeIdent_escapeIdent :
    ¬ ∀ s : String, s ≠ "" → unescapeIdent (escapeIdent s) = s ∧
      splitIdent (escapeIdent s).toList = ((escapeIdent s).toList, []) := by
  intro h
  have hname := (h (String.singleton (Char.ofNat 0xF0000)) (by decide)).1
  exact absurd hname (by decide +kernel)

end Text
end SeriesQuery
