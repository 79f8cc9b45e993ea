import SeriesQuery.Proofs.Escapes

/-!
# Quoting

A text that is written as a string literal comes back from it: the literal has the text as its value,
and a scanner takes the whole of the literal, whatever follows it.

What stands between the quotes is read by a decoder of escapes.  All that quoting needs of it is that
it reads the escapes of `ReadsEscapes` and keeps other characters; `unescapeBody` is such a decoder.

* `unquoteWith` — the value of a literal with any decoder of escapes;
* `unquote_quote`, `unquoteWith_quote` — the value of what is written;
* `splitQuoted_unquote_quote` — the value and the extent of what is written.
-/

namespace SeriesQuery
namespace Text

/-! ## Decoders of escapes -/

/-- How many hexadecimal digits stand behind the mark of an escape by number. -/
def numberWidth : Char → Option Nat
  | 'x' => some 2
  | 'u' => some 4
  | 'U' => some 8
  | _ => none

/-- The decoder reads the escapes that may stand between double quotes, and keeps all characters
that are neither quotes nor backslashes. -/
structure ReadsEscapes (decode : List Char → Except EscapeFault (List Char)) : Prop where
  nil : decode [] = .ok []
  plain {c : Char} (hquote : c ≠ '"') (hbackslash : c ≠ '\\') (cs : List Char) :
    decode (c :: cs) = (c :: ·) <$> decode cs
  kept {c : Char} (h : c = '"' ∨ c = '\\') (cs : List Char) :
    decode ('\\' :: c :: cs) = (c :: ·) <$> decode cs
  letter {c d : Char} (h : controlLetter d = some c) (cs : List Char) :
    decode ('\\' :: d :: cs) = (c :: ·) <$> decode cs
  number {c mark : Char} {digits : List Char} (hwidth : numberWidth mark = some digits.length)
    (h : readNat 16 digits = some c.toNat) (cs : List Char) :
    decode ('\\' :: mark :: (digits ++ cs)) = (c :: ·) <$> decode cs

/-- The value of a string literal, where `decode` reads what stands between two quotes. -/
def unquoteWith (decode : Char → List Char → Except EscapeFault (List Char)) (s : String) :
    Except QuoteError String :=
  match s.toList with
  | [] => .error (.notQuoted s)
  | q :: rest =>
      if !isQuote q then .error (.notQuoted s)
      else if rest.getLast? != some q then .error (.trailing s)
      else if q == '\x60' then .ok (String.ofList (unescapeRaw rest.dropLast))
      else
        match decode q rest.dropLast with
        | .ok value => .ok (String.ofList value)
        | .error fault => .error (.badBody s fault)

theorem unquoteWith_unescapeBody : unquoteWith unescapeBody = unquote :=
  rfl

/-! ## Numerals of escapes -/

/-- A numeral may have a plus sign, which is no digit. -/
theorem readUnsigned_of_readNat {n : Nat} {cs : List Char} (h : readNat 16 cs = some n) :
    readUnsigned 16 cs = some n := by
  unfold readUnsigned
  split
  · rename_i ds
    have hplus : digitIn 16 '+' = none := by decide
    simp [readNat, readDigits, hplus] at h
  · exact h

theorem byteEscape_of_readNat {c : Char} {a b : Char} (h : readNat 16 [a, b] = some c.toNat) :
    byteEscape 16 [a, b] = .ok c := by
  have hsmall : c.toNat < 256 := readNat_lt h
  simp [byteEscape, readUnsigned_of_readNat h, hsmall, Char.ofNat_toNat]

theorem pointEscape_of_readNat {c : Char} {digits : List Char}
    (h : readNat 16 digits = some c.toNat) : pointEscape digits = .ok c := by
  have hvalid : c.toNat.isValidChar := c.valid
  simp [pointEscape, readUnsigned_of_readNat h, charOfNat?, hvalid, Char.ofNat_toNat]

theorem numberWidth_cases {mark : Char} {width : Nat} (h : numberWidth mark = some width) :
    mark = 'x' ∧ width = 2 ∨ mark = 'u' ∧ width = 4 ∨ mark = 'U' ∧ width = 8 := by
  unfold numberWidth at h
  split at h <;> cases h <;> simp

/-- Letters for control characters start no other escape. -/
theorem not_special_of_controlLetter {c d : Char} (h : controlLetter d = some c) :
    (d == '\\' || isQuote d) = false ∧ isDigit d = false ∧ d ≠ 'x' ∧ d ≠ 'u' ∧ d ≠ 'U' := by
  have hletters : d ∈ ['a', 'b', 'f', 'n', 'r', 't', 'v'] := by
    by_contra hnone
    simp only [List.mem_cons, List.not_mem_nil, or_false, not_or] at hnone
    simp [controlLetter, hnone] at h
  simp only [List.mem_cons, List.not_mem_nil, or_false] at hletters
  rcases hletters with rfl | rfl | rfl | rfl | rfl | rfl | rfl <;> decide

theorem readsEscapes_unescapeBody : ReadsEscapes (unescapeBody '"') where
  nil := rfl
  plain hquote hbackslash cs := by
    rw [unescapeBody.eq_def]
    simp [hquote, hbackslash]
  kept h cs := by
    rw [unescapeBody.eq_def]
    rcases h with rfl | rfl <;> simp [isQuote]
  letter h cs := by
    rw [unescapeBody.eq_def]
    have hother := not_special_of_controlLetter h
    simp [hother, h]
  number {c mark digits} hwidth h cs := by
    rw [unescapeBody.eq_def]
    rcases numberWidth_cases hwidth with ⟨rfl, hlength⟩ | ⟨rfl, hlength⟩ | ⟨rfl, hlength⟩
    · rcases digits with _ | ⟨_, _ | ⟨_, _ | _⟩⟩ <;> simp at hlength
      simp [isQuote, isDigit, byteEscape_of_readNat h, bind, Except.bind]
    · rcases digits with _ | ⟨_, _ | ⟨_, _ | ⟨_, _ | ⟨_, _ | _⟩⟩⟩⟩ <;> simp at hlength
      simp [isQuote, isDigit, pointEscape_of_readNat h, bind, Except.bind]
    · rcases digits with
        _ | ⟨_, _ | ⟨_, _ | ⟨_, _ | ⟨_, _ | ⟨_, _ | ⟨_, _ | ⟨_, _ | ⟨_, _ | _⟩⟩⟩⟩⟩⟩⟩⟩ <;> simp at hlength
      simp [isQuote, isDigit, pointEscape_of_readNat h, bind, Except.bind]

/-! ## Values of what is written -/

section Decoders

variable {decode : List Char → Except EscapeFault (List Char)} (hdecode : ReadsEscapes decode)

/-- What is written stands for the character, whatever follows it. -/
def Means (decode : List Char → Except EscapeFault (List Char)) (c : Char) (xs : List Char) : Prop :=
  ∀ cs, decode (xs ++ cs) = (c :: ·) <$> decode cs

include hdecode

/-- A character by its number, where its hexadecimal digits fit the escape. -/
theorem means_number {c mark : Char} {width : Nat} (hwidth : numberWidth mark = some width)
    (h : c.toNat < 16 ^ width) : Means decode c ('\\' :: mark :: hexPadded width c.toNat) := by
  have hpositive : 0 < width := by
    rcases numberWidth_cases hwidth with ⟨-, rfl⟩ | ⟨-, rfl⟩ | ⟨-, rfl⟩ <;> decide
  have hfixed : hexPadded width c.toNat = hexFixed width c.toNat := if_pos h
  have hlength := length_hexFixed width c.toNat
  rw [hfixed]
  exact hdecode.number (hwidth.trans (congrArg some hlength.symm)) (readNat_hexFixed hpositive h)

theorem means_quoteChar (c : Char) : Means decode c (quoteChar c) := by
  have hkept : ∀ {d : Char}, d = '"' ∨ d = '\\' → (c == d) → Means decode c ['\\', d] := by
    intro d hd heq
    rw [eq_of_beq heq]
    exact hdecode.kept hd
  have hletter : ∀ {d e : Char}, controlLetter e = some d → (c == d) →
      Means decode c ['\\', e] := by
    intro d e hcontrol heq
    rw [eq_of_beq heq]
    exact hdecode.letter hcontrol
  unfold quoteChar
  refine iteInduction (motive := Means decode c) (hkept (.inl rfl)) fun hquote => ?_
  refine iteInduction (motive := Means decode c) (hkept (.inr rfl)) fun hbackslash => ?_
  -- Seven control characters have letters of their own.
  iterate 7 refine iteInduction (motive := Means decode c) (hletter (by decide)) fun _ => ?_
  have hplain : Means decode c [c] := hdecode.plain (by simpa using hquote) (by simpa using hbackslash)
  refine iteInduction (motive := Means decode c) (fun _ => hplain) fun _ => ?_
  refine iteInduction (motive := Means decode c) (fun hascii => ?_) fun _ => ?_
  · exact means_number hdecode rfl (by omega)
  refine iteInduction (motive := Means decode c) (fun hsmall => ?_) fun _ => ?_
  · exact means_number hdecode rfl hsmall
  · have hvalid : c.toNat.isValidChar := c.valid
    unfold Nat.isValidChar at hvalid
    exact means_number hdecode rfl (by omega)

theorem decode_flatMap_quoteChar (cs : List Char) : decode (cs.flatMap quoteChar) = .ok cs := by
  induction cs with
  | nil => exact hdecode.nil
  | cons c cs ih =>
      rw [List.flatMap_cons, means_quoteChar hdecode c, ih]
      rfl

end Decoders

theorem unquoteWith_quote {decode : Char → List Char → Except EscapeFault (List Char)}
    (hdecode : ReadsEscapes (decode '"')) (s : String) : unquoteWith decode (quote s) = .ok s := by
  have htext : (quote s).toList = '"' :: (s.toList.flatMap quoteChar ++ ['"']) := by simp [quote]
  have hquote : isQuote '"' := by decide
  rw [unquoteWith, htext]
  simp [hquote, decode_flatMap_quoteChar hdecode]

/-- A literal has the value that it was written for. -/
theorem unquote_quote (s : String) : unquote (quote s) = .ok s := by
  rw [← unquoteWith_unescapeBody]
  exact unquoteWith_quote readsEscapes_unescapeBody s

/-- What is written for a text has the text as its value, also where another decoder reads the
escapes, and is taken as a whole in front of any other text. -/
theorem splitQuoted_unquote_quote {decode : Char → List Char → Except EscapeFault (List Char)}
    (hdecode : ReadsEscapes (decode '"')) (s : String) :
    unquote (quote s) = .ok s ∧ unquoteWith decode (quote s) = .ok s ∧
      ∀ rest : String, splitQuoted (quote s ++ rest).toList = .ok ((quote s).toList, rest.toList) := by
  refine ⟨unquote_quote s, unquoteWith_quote hdecode s, fun rest => ?_⟩
  rw [String.toList_append]
  exact splitQuoted_quote s rest.toList

/-- Backslashes and quotes at the end, and characters of all widths. -/
theorem splitQuoted_unquote_quote_backslashes :
    ReadsEscapes (unescapeBody '"') ∧
      unquote (quote "\x01\u00ad\u202e\\\\\"") = .ok "\x01\u00ad\u202e\\\\\"" ∧
      unquoteWith unescapeBody (quote "\x01\u00ad\u202e\\\\\"") = .ok "\x01\u00ad\u202e\\\\\"" ∧
      ∀ rest : String, splitQuoted (quote "\x01\u00ad\u202e\\\\\"" ++ rest).toList =
        .ok ((quote "\x01\u00ad\u202e\\\\\"").toList, rest.toList) :=
  ⟨readsEscapes_unescapeBody,
    splitQuoted_unquote_quote readsEscapes_unescapeBody "\x01\u00ad\u202e\\\\\""⟩

end Text
end SeriesQuery
