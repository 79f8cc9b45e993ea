import SeriesQuery.Proofs.Spelling

/-!
# Texts with the same tokens

`Alike follow s t` says that two texts have the same tokens wherever they stand in front of one of
the characters that may follow them.  Nothing is said of which tokens these are, so it can also be
said of a text that is like itself: it has the same tokens before whatever follows it.  That holds of
all texts of identifiers, digits, points and signs (`alike_plain`), be they numbers or not.
-/

namespace SeriesQuery

open Text

/-- The texts have the same tokens, each with what follows it, if what follows has the same tokens
and starts with a character that may follow. -/
def Alike (follow : Char → Bool) (s t : String) : Prop :=
  ∀ rest rest' : List Char, (∀ c ∈ rest.head?, follow c) → (∀ c ∈ rest'.head?, follow c) →
    Lexeme.texts rest = Lexeme.texts rest' →
      Lexeme.texts (s.toList ++ rest) = Lexeme.texts (t.toList ++ rest')

/-- The text starts with a character of the kind. -/
def startsWith (p : Char → Bool) (s : String) : Bool :=
  s.toList.head?.any p

/-! ## Putting texts together -/

section

variable {p q : Char → Bool} {s s' t t' : String}

theorem Alike.texts (h : Alike p s t) : Lexeme.texts s.toList = Lexeme.texts t.toList := by
  simpa using h [] [] (by simp) (by simp) rfl

theorem Alike.mono (h : Alike p s t) (hpq : ∀ c, q c → p c) : Alike q s t :=
  fun rest rest' hrest hrest' => h rest rest' (fun c hc => hpq c (hrest c hc)) fun c hc =>
    hpq c (hrest' c hc)

/-- A text that is like another one is like itself. -/
theorem Alike.self (h : Alike p s t) : Alike p s s := by
  intro rest rest' hrest hrest' heq
  calc Lexeme.texts (s.toList ++ rest)
      = Lexeme.texts (t.toList ++ rest) := h rest rest hrest hrest rfl
    _ = Lexeme.texts (s.toList ++ rest') := (h rest' rest hrest' hrest heq.symm).symm

theorem Lexes.alike {ts : List String} (hs : Lexes p s.toList ts) (ht : Lexes p t.toList ts) :
    Alike p s t := by
  intro rest rest' hrest hrest' heq
  rw [hs rest hrest, ht rest' hrest', heq]

theorem alike_empty : Alike p "" "" :=
  fun _ _ _ _ heq => heq

/-- Blanks make no difference. -/
theorem alike_blanks (hs : ∀ c ∈ s.toList, isSpace c) (ht : ∀ c ∈ t.toList, isSpace c) :
    Alike anyChar s t :=
  (lexes_blanks hs).alike (lexes_blanks ht)

theorem forall_mem_head_append (h : startsWith p t) (rest : List Char) :
    ∀ c ∈ (t.toList ++ rest).head?, p c := by
  intro c hc
  cases hcs : t.toList with
  | nil => simp [startsWith, hcs] at h
  | cons d ds =>
      have hd : d = c := by simpa [hcs] using hc
      simpa [startsWith, hcs, hd] using h

/-- Texts may be followed by texts that start with a character that may follow. -/
theorem Alike.append (hs : Alike p s s') (ht : Alike q t t') (hstart : startsWith p t)
    (hstart' : startsWith p t') : Alike q (s ++ t) (s' ++ t') := by
  intro rest rest' hrest hrest' heq
  simp only [String.toList_append, List.append_assoc]
  exact hs _ _ (forall_mem_head_append hstart rest) (forall_mem_head_append hstart' rest')
    (ht rest rest' hrest hrest' heq)

theorem Alike.append_any (hs : Alike anyChar s s') (ht : Alike q t t') :
    Alike q (s ++ t) (s' ++ t') := by
  intro rest rest' hrest hrest' heq
  simp only [String.toList_append, List.append_assoc]
  exact hs _ _ (fun _ _ => rfl) (fun _ _ => rfl) (ht rest rest' hrest hrest' heq)

/-- Blanks before a text make no difference. -/
theorem Alike.indented {blanks : String} (h : Alike q t t')
    (hblanks : ∀ c ∈ blanks.toList, isSpace c) : Alike q t (blanks ++ t') := by
  have hempty := (alike_blanks (s := "") (by simp) hblanks).append_any h
  rwa [String.empty_append] at hempty

end

/-! ## Identifiers, digits and signs -/

/-- A character of identifiers or numbers, or a plus or minus. -/
def isPlainChar (c : Char) : Bool :=
  isIdentChar c || c == '+' || c == '-'

/-- The text is made of identifiers, digits, points and signs. -/
def IsPlain (cs : List Char) : Prop :=
  ∀ c ∈ cs, isPlainChar c

@[simp] theorem isPlain_nil : IsPlain [] :=
  fun _ h => absurd h List.not_mem_nil

@[simp] theorem isPlain_cons {c : Char} {cs : List Char} :
    IsPlain (c :: cs) ↔ isPlainChar c ∧ IsPlain cs :=
  List.forall_mem_cons

@[simp] theorem isPlain_append {cs ds : List Char} :
    IsPlain (cs ++ ds) ↔ IsPlain cs ∧ IsPlain ds :=
  List.forall_mem_append

theorem atGap_of_afterTerm {rest : List Char} (h : ∀ c ∈ rest.head?, afterTerm c) : AtGap rest := by
  intro c hc
  simpa [afterNumber] using afterNumber_of_afterTerm c (h c hc)

theorem endsIdent_of_afterTerm {rest : List Char} (h : ∀ c ∈ rest.head?, afterTerm c) :
    EndsIdent rest := by
  intro c hc
  simpa [afterIdent] using afterIdent_of_afterTerm c (h c hc)

/-- An identifier without escapes ends where one ends that is followed by nothing. -/
theorem splitIdentFrom_append {cs rest : List Char} (hcs : '\\' ∉ cs) (hrest : EndsIdent rest) :
    splitIdentFrom true 0 (cs ++ rest) =
      ((splitIdentFrom true 0 cs).1, (splitIdentFrom true 0 cs).2 ++ rest) := by
  induction cs with
  | nil => exact splitIdentFrom_of_endsIdent hrest
  | cons c cs ih =>
      rw [List.mem_cons, not_or] at hcs
      have htail := ih hcs.2
      by_cases hchar : isIdentChar c
      · simp [splitIdentFrom, hchar, htail]
      · have hslash : c ≠ '\\' := fun heq => hcs.1 heq.symm
        simp [splitIdentFrom, hchar, hslash]

theorem splitSign_plus (cs : List Char) : splitSign ('+' :: cs) = some (['+'], cs) := by
  simp [splitSign, operatorSigns, List.isPrefixOf]

theorem splitSign_minus (cs : List Char) : splitSign ('-' :: cs) = some (['-'], cs) := by
  simp [splitSign, operatorSigns, List.isPrefixOf]

theorem IsPlain.not_mem {cs : List Char} (h : IsPlain cs) : '\\' ∉ cs :=
  fun hmem => absurd (h _ hmem) (by decide)

/-- A plain text has its first token, or none, whatever follows. -/
theorem scanToken_plain_append {c : Char} {cs rest : List Char} (h : IsPlain (c :: cs))
    (hrest : ∀ d ∈ rest.head?, afterTerm d) :
    (scanToken (c :: cs ++ rest)).toOption =
      (scanToken (c :: cs)).toOption.map fun found => (found.1, found.2 ++ rest) := by
  have hslash := h.not_mem
  have hc : isPlainChar c := h c List.mem_cons_self
  by_cases hletter : isIdentStart c
  · have hstarts : ∀ ds, startsIdent (c :: ds) := fun ds => by simp [startsIdent, hletter]
    have hpunctuation := (blank_of_startsIdent (hstarts cs)).2.2
    have htail := splitIdentFrom_append (fun hmem => hslash (List.mem_cons_of_mem c hmem))
      (endsIdent_of_afterTerm hrest)
    simp [scanToken, hpunctuation, hstarts, splitIdent, splitIdentFrom, hletter, htail,
      Except.toOption]
  by_cases hnumeral : startsNumeral c
  · exact scanToken_numeral_append hnumeral (atGap_of_afterTerm hrest)
  · -- Neither a letter nor a digit nor a point: a sign.
    have hsign : c = '+' ∨ c = '-' := by
      simp only [startsNumeral, Bool.or_eq_true, not_or] at hnumeral
      simpa [isPlainChar, isIdentChar, hletter, hnumeral.1, hnumeral.2] using hc
    rcases hsign with rfl | rfl
    · simp [scanToken, isPunctuation, startsIdent, hletter, isQuote, splitSignOrNumber,
        splitSign_plus, Except.toOption]
    · simp [scanToken, isPunctuation, startsIdent, hletter, isQuote, splitSignOrNumber,
        splitSign_minus, Except.toOption]

theorem mem_of_isSpace {c : Char} (h : isSpace c) :
    c ∈ [' ', '\t', '\n', '\x0b', '\x0c', '\r'] := by
  simp only [isSpace, Bool.or_eq_true, beq_iff_eq, Bool.and_eq_true, decide_eq_true_eq] at h
  rcases h with rfl | ⟨hlow, hhigh⟩
  · decide
  · have hc := Char.ofNat_toNat c
    generalize c.toNat = n at hlow hhigh hc
    subst hc
    have hcases : n = 9 ∨ n = 10 ∨ n = 11 ∨ n = 12 ∨ n = 13 := by omega
    rcases hcases with rfl | rfl | rfl | rfl | rfl <;> decide

/-- No gap is skipped before a plain text. -/
theorem skipGap_plain {c : Char} (h : isPlainChar c) (cs : List Char) :
    skipGap (c :: cs) = c :: cs := by
  have hspace : isSpace c = false := by
    by_contra hspace
    have hblanks : ∀ d ∈ [' ', '\t', '\n', '\x0b', '\x0c', '\r'], isPlainChar d = false := by decide
    have hfalse := hblanks c (mem_of_isSpace (by simpa using hspace))
    rw [h] at hfalse
    cases hfalse
  have hcomment : c ≠ '#' := by
    rintro rfl
    exact absurd h (by decide)
  simp [skipGap, skipGapFrom, hspace, hcomment]

/-- Tokens go on behind the first one, if there is one. -/
theorem texts_of_scanToken {cs : List Char} (h : skipGap cs ≠ []) :
    Lexeme.texts cs = match (scanToken (skipGap cs)).toOption with
      | none => ([], false)
      | some (t, left) => (String.ofList t :: (Lexeme.texts left).1, (Lexeme.texts left).2) := by
  cases hfound : scanToken (skipGap cs) with
  | error cause =>
      have hscan : scan cs = .failed cause (skipGap cs) := by
        unfold scan
        split
        · rename_i hgap
          exact absurd hgap h
        · rw [hfound]
      exact Lexeme.texts_of_failed hscan
  | ok found =>
      have hscan : scan cs = .token (String.ofList found.1) found.2 :=
        scan_eq_token_iff.2 (by rw [hfound, String.toList_ofList])
      exact Lexeme.texts_of_token hscan

/-- The tokens of a plain text, and whether they go on to the end, are the same before whatever has
the same tokens. -/
theorem texts_plain_append {cs : List Char} (h : IsPlain cs) {rest rest' : List Char}
    (hrest : ∀ c ∈ rest.head?, afterTerm c) (hrest' : ∀ c ∈ rest'.head?, afterTerm c)
    (heq : Lexeme.texts rest = Lexeme.texts rest') :
    Lexeme.texts (cs ++ rest) = Lexeme.texts (cs ++ rest') := by
  induction hlength : cs.length using Nat.strongRecOn generalizing cs with
  | ind n ih =>
      subst hlength
      cases cs with
      | nil => exact heq
      | cons c cs =>
          have hgap : ∀ r, skipGap (c :: cs ++ r) = c :: cs ++ r := fun r =>
            skipGap_plain (h c List.mem_cons_self) (cs ++ r)
          have hne : ∀ r, skipGap (c :: cs ++ r) ≠ [] := by
            intro r hnil
            rw [hgap] at hnil
            cases hnil
          rw [texts_of_scanToken (hne rest), texts_of_scanToken (hne rest'), hgap, hgap,
            scanToken_plain_append h hrest, scanToken_plain_append h hrest']
          cases hfound : scanToken (c :: cs) with
          | error cause => rfl
          | ok found =>
              -- What the first token leaves is plain, and shorter.
              have hconcat := scanToken_concat hfound
              have hshorter : found.2.length < (c :: cs).length := by
                have hlength := congrArg List.length hconcat
                have hpos := List.length_pos_iff.2 (scanToken_ne_nil hfound)
                rw [List.length_append] at hlength
                omega
              have hplain : IsPlain found.2 := by
                rw [← hconcat] at h
                exact (isPlain_append.1 h).2
              have hleft := ih found.2.length hshorter hplain rfl
              simp [Except.toOption, hleft]

/-- A plain text is like itself. -/
theorem alike_plain {s : String} (h : IsPlain s.toList) : Alike afterTerm s s :=
  fun _ _ hrest hrest' heq => texts_plain_append h hrest hrest' heq

/-! ## Names, quotes and words -/

theorem Lexes.alike_self {p : Char → Bool} {s : String} {ts : List String}
    (h : Lexes p s.toList ts) : Alike p s s :=
  h.alike h

/-- The name may be empty, and has no token then. -/
theorem alike_name (name : String) : Alike afterIdent (escapeIdent name) (escapeIdent name) := by
  by_cases h : name = ""
  · subst h
    exact alike_empty
  · exact (lexes_escapeIdent h).alike_self

theorem alike_quote (s : String) : Alike anyChar (quote s) (quote s) :=
  (lexes_quote s).alike_self

theorem alike_word {word : String} (h : isPlainWord word) : Alike afterTerm word word :=
  (lexes_plainWord h).alike_self

/-! ## Separators -/

/-- The texts have the same tokens, and neither touches what stands before or behind it. -/
structure Apart (s t : String) : Prop where
  alike : Alike anyChar s t
  left : startsWith afterTerm s
  right : startsWith afterTerm t

/-- Blanks and brackets have the brackets as tokens. -/
theorem lexes_marks {cs : List Char} (h : ∀ c ∈ cs, afterTerm c) :
    Lexes anyChar cs ((cs.filter isPunctuation).map String.singleton) := by
  induction cs with
  | nil => exact lexes_nil
  | cons c cs ih =>
      have hparts := List.forall_mem_cons.1 h
      have hrest := ih hparts.2
      by_cases hmark : isPunctuation c
      · have hone := (lexes_punctuation hmark).append_any hrest
        simpa [hmark] using hone
      · have hspace : isSpace c := by
          have hc := hparts.1
          simp only [afterTerm, hmark, Bool.or_false, Bool.or_eq_true, beq_iff_eq] at hc
          rcases hc with rfl | rfl <;> decide
        have hblank : Lexes anyChar [c] [] := lexes_blanks (by simpa using hspace)
        simpa [hmark] using hblank.append_any hrest

/-- The text is made of blanks and brackets, and is not empty. -/
def isSeparator (s : String) : Bool :=
  s.toList.all afterTerm && !s.toList.isEmpty

theorem startsWith_of_isSeparator {s : String} (h : isSeparator s) : startsWith afterTerm s := by
  unfold isSeparator at h
  unfold startsWith
  cases hcs : s.toList with
  | nil => simp [hcs] at h
  | cons c cs =>
      simp only [hcs, List.all_cons, Bool.and_eq_true] at h
      simpa using h.1.1

/-- Separators are told by their brackets. -/
theorem apart_of_isSeparator {s t : String} (hs : isSeparator s) (ht : isSeparator t)
    (h : s.toList.filter isPunctuation = t.toList.filter isPunctuation) : Apart s t where
  alike := by
    have hmarks : ∀ {u : String}, isSeparator u → ∀ c ∈ u.toList, afterTerm c := by
      intro u hu
      simp only [isSeparator, Bool.and_eq_true, List.all_eq_true] at hu
      exact hu.1
    have hleft := lexes_marks (hmarks hs)
    rw [h] at hleft
    exact hleft.alike (lexes_marks (hmarks ht))
  left := startsWith_of_isSeparator hs
  right := startsWith_of_isSeparator ht

theorem apart_self {s : String} (h : isSeparator s) : Apart s s :=
  apart_of_isSeparator h h rfl

theorem startsWith_append {p : Char → Bool} {s : String} (h : startsWith p s) (t : String) :
    startsWith p (s ++ t) := by
  unfold startsWith at h ⊢
  cases hcs : s.toList with
  | nil => simp [hcs] at h
  | cons c cs => simpa [hcs] using h

section

variable {follow : Char → Bool} {s s' t t' u u' : String}

/-- What stands before a separator may be anything but a sign. -/
theorem Alike.apart (hs : Alike afterTerm s s') (ht : Apart t t') : Alike anyChar (s ++ t) (s' ++ t') :=
  hs.append ht.alike ht.left ht.right

theorem Apart.append (hs : Apart s s') (ht : Alike anyChar t t') : Apart (s ++ t) (s' ++ t') where
  alike := hs.alike.append_any ht
  left := startsWith_append hs.left t
  right := startsWith_append hs.right t'

theorem Alike.anywhere (h : Alike anyChar s s') : Alike follow s s' :=
  h.mono fun _ _ => rfl

/-- Two texts with a separator between them. -/
theorem Alike.separated (hs : Alike afterTerm s s') (ht : Apart t t') (hu : Alike follow u u') :
    Alike follow (s ++ t ++ u) (s' ++ t' ++ u') :=
  (hs.apart ht).append_any hu

/-- A word with separators on both sides. -/
theorem Apart.word {word : String} (hword : isPlainWord word) (hs : Apart s s') (ht : Apart t t') :
    Apart (s ++ word ++ t) (s' ++ word ++ t') := by
  rw [String.append_assoc, String.append_assoc]
  exact hs.append ((alike_word hword).apart ht)

end

/-- The texts of a list with separators between them. -/
theorem alike_intercalate {α : Type} {text text' : α → String} {between between' : String}
    (hbetween : Apart between between') {xs : List α}
    (h : ∀ x ∈ xs, Alike afterTerm (text x) (text' x)) :
    Alike afterTerm (String.intercalate between (xs.map text))
      (String.intercalate between' (xs.map text')) := by
  induction xs with
  | nil => exact alike_empty
  | cons x xs ih =>
      have hparts := List.forall_mem_cons.1 h
      cases xs with
      | nil => simpa using hparts.1
      | cons y ys =>
          have hrest := hparts.1.separated hbetween (ih hparts.2)
          simpa [String.intercalate_cons_cons] using hrest

/-- A list in brackets. -/
theorem apart_list {α : Type} {text text' : α → String}
    {opening opening' between between' closing closing' : String} (hopening : Apart opening opening')
    (hbetween : Apart between between') (hclosing : Apart closing closing') {xs : List α}
    (h : ∀ x ∈ xs, Alike afterTerm (text x) (text' x)) :
    Apart (opening ++ String.intercalate between (xs.map text) ++ closing)
      (opening' ++ String.intercalate between' (xs.map text') ++ closing') := by
  have hitems := (alike_intercalate hbetween h).apart hclosing
  have hlist := hopening.append hitems
  rwa [← String.append_assoc, ← String.append_assoc] at hlist

end SeriesQuery
