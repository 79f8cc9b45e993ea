import SeriesQuery.Proofs.EscapedNames
import SeriesQuery.Proofs.Spelling
import SeriesQuery.Syntax.Parts

/-!
# Readers on known tokens

`Reads E fits r s a left` says what a reader does where all tokens are known: from the tokens `s` it
gives `a` and leaves the tokens `left`, if the budget for depth allows; `fits` says whether it does,
and if not, the reader fails with an error from `E`.  `Takes` is the same without the question of
depth.

There is a rule for each way to put readers together.
-/

namespace SeriesQuery

open Text

/-! ## Steps -/

/-- The reader takes the tokens up to `left` and gives `a`, if it fits the budget for depth; else it
fails with an error from `E`. -/
def Reads {α : Type} (E : ParseError → Prop) (fits : Prop) (r : Reader α) (s : List String) (a : α)
    (left : List String) : Prop :=
  ∀ ahead,
    (fits → ∃ ahead', r ⟨s, none, ahead⟩ = .ok (a, ⟨left, none, ahead'⟩)) ∧
      (¬fits → ∃ cause, r ⟨s, none, ahead⟩ = .error cause ∧ E cause)

/-- The reader takes the tokens up to `left` and gives `a`. -/
abbrev Takes {α : Type} (r : Reader α) (s : List String) (a : α) (left : List String) : Prop :=
  Reads (fun _ => False) True r s a left

/-- The current token, empty at the end. -/
def current (s : List String) : String :=
  s.head?.getD ""

@[simp] theorem current_cons (t : String) (s : List String) : current (t :: s) = t := rfl

@[simp] theorem current_nil : current [] = "" := rfl

section Rules

variable {α β : Type} {E : ParseError → Prop} {p q : Prop} {r : Reader α} {k : α → Reader β}
  {s m l : List String} {a : α} {b : β}

theorem Reads.congr (h : Reads E p r s a l) (hpq : p ↔ q) : Reads E q r s a l :=
  fun ahead => ⟨fun hq => (h ahead).1 (hpq.2 hq), fun hq => (h ahead).2 fun hp => hq (hpq.1 hp)⟩

theorem Takes.reads (h : Takes r s a l) (hp : p) : Reads E p r s a l :=
  fun ahead => ⟨fun _ => (h ahead).1 trivial, fun hnot => absurd hp hnot⟩

theorem takes_of_eq (h : ∀ ahead, ∃ ahead', r ⟨s, none, ahead⟩ = .ok (a, ⟨l, none, ahead'⟩)) :
    Takes r s a l :=
  fun ahead => ⟨fun _ => h ahead, fun hfalse => absurd trivial hfalse⟩

theorem reads_throw {cause : ParseError} (h : E cause) :
    Reads E False (throw cause : Reader α) s a l :=
  fun _ => ⟨fun hfalse => hfalse.elim, fun _ => ⟨cause, rfl, h⟩⟩

theorem Takes.eq (h : Takes r s a l) (ahead : Nat) :
    ∃ ahead', r ⟨s, none, ahead⟩ = .ok (a, ⟨l, none, ahead'⟩) :=
  (h ahead).1 trivial

theorem takes_pure : Takes (pure a : Reader α) s a s :=
  takes_of_eq fun ahead => ⟨ahead, rfl⟩

theorem reads_bind (hr : Reads E p r s a m) (hk : Reads E q (k a) m b l) :
    Reads E (p ∧ q) (r >>= k) s b l := by
  intro ahead
  have hbind : ∀ x : Except ParseError (α × Feed), r ⟨s, none, ahead⟩ = x →
      (r >>= k) ⟨s, none, ahead⟩ = x >>= fun found => k found.1 found.2 := by
    rintro x rfl
    rfl
  by_cases hp : p
  · rcases (hr ahead).1 hp with ⟨ahead', heq⟩
    rw [hbind _ heq]
    refine ⟨fun hpq => (hk ahead').1 hpq.2, fun hpq => (hk ahead').2 fun hq => hpq ⟨hp, hq⟩⟩
  · rcases (hr ahead).2 hp with ⟨cause, heq, hcause⟩
    rw [hbind _ heq]
    exact ⟨fun hpq => absurd hpq.1 hp, fun _ => ⟨cause, rfl, hcause⟩⟩

/-- The rule for a first step that has no depth. -/
theorem Takes.bind (hr : Takes r s a m) (hk : Reads E q (k a) m b l) : Reads E q (r >>= k) s b l :=
  (reads_bind (hr.reads trivial) hk).congr (by simp)

/-- The rule for a second step that has no depth. -/
theorem Reads.bind (hr : Reads E p r s a m) (hk : Takes (k a) m b l) : Reads E p (r >>= k) s b l :=
  (reads_bind hr (hk.reads trivial)).congr (by simp)

theorem Reads.map {g : α → β} (hr : Reads E p r s a l) : Reads E p (g <$> r) s (g a) l :=
  hr.bind (k := fun a => pure (g a)) takes_pure

theorem Takes.ifTrue {c : Reader Bool} {x y : Reader β} (hc : Takes c s true m)
    (hx : Reads E q x m b l) : Reads E q (c >>= fun found => if found then x else y) s b l :=
  hc.bind hx

theorem Takes.ifFalse {c : Reader Bool} {x y : Reader β} (hc : Takes c s false m)
    (hy : Reads E q y m b l) : Reads E q (c >>= fun found => if found then x else y) s b l :=
  hc.bind hy

end Rules

/-! ## Lists of tokens -/

theorem current_append {ts : List String} (h : ts ≠ []) (l : List String) :
    current (ts ++ l) = current ts := by
  cases ts with
  | nil => exact absurd rfl h
  | cons t ts => rfl

theorem separated_cons_cons (separator : String) (ts us : List String) (rest : List (List String)) :
    separated separator (ts :: us :: rest) = ts ++ separator :: separated separator (us :: rest) :=
  rfl

theorem length_le_separated (separator : String) {items : List (List String)}
    (h : ∀ ts ∈ items, ts ≠ []) : items.length ≤ (separated separator items).length := by
  induction items with
  | nil => exact Nat.le_refl 0
  | cons ts rest ih =>
      have hparts := List.forall_mem_cons.1 h
      have hpos := List.length_pos_iff.2 hparts.1
      have hrest := ih hparts.2
      cases rest with
      | nil => simpa [separated, Nat.one_le_iff_ne_zero, Nat.pos_iff_ne_zero] using hpos
      | cons us rest =>
          rw [separated_cons_cons]
          simp only [List.length_append, List.length_cons] at hrest ⊢
          omega

theorem separated_append (separator : String) (ts us : List String) (rest : List (List String)) :
    separated separator ((ts ++ us) :: rest) = ts ++ separated separator (us :: rest) := by
  cases rest with
  | nil => rfl
  | cons vs rest => simp [separated]

theorem sum_length_le_separated (separator : String) (items : List (List String)) :
    (items.map List.length).sum ≤ (separated separator items).length := by
  induction items with
  | nil => exact Nat.le_refl 0
  | cons ts rest ih =>
      cases rest with
      | nil => simp [separated]
      | cons us rest =>
          rw [separated_cons_cons]
          simp only [List.map_cons, List.sum_cons, List.length_append, List.length_cons] at ih ⊢
          omega

namespace Reader

/-! ## Tokens -/

variable {s l : List String}

theorem takes_token : Takes token s (current s) s :=
  takes_of_eq fun ahead => ⟨ahead, rfl⟩

theorem takes_bump {t : String} : Takes bump (t :: l) () l :=
  takes_of_eq fun ahead => ⟨ahead - 1, by cases l <;> rfl⟩

theorem takes_lookAt (n : Nat) : Takes (lookAt n) s (s[n]?.getD "") s := by
  refine takes_of_eq fun ahead => ⟨max ahead n, ?_⟩
  simp only [lookAt, Feed.lookAt]
  cases s[n]? <;> rfl

/-- The rule for a reader that is given the number of tokens. -/
theorem reads_count {β : Type} {E : ParseError → Prop} {q : Prop} {k : Nat → Reader β} {b : β}
    (h : Reads E q (k s.length) s b l) :
    Reads E q (get >>= fun feed => k feed.tokens.length) s b l :=
  fun ahead => h ahead

theorem takes_replace {t : String} (text : String) : Takes (replace text) (t :: l) () (text :: l) :=
  takes_of_eq fun ahead => ⟨ahead, rfl⟩

theorem takes_atToken (text : String) : Takes (atToken text) s (current s == text) s :=
  takes_token.bind takes_pure

theorem takes_atWord (word : String) : Takes (atWord word) s (sameWord (current s) word) s :=
  takes_token.bind takes_pure

theorem takes_isToken {text : String} (h : current s = text) : Takes (atToken text) s true s := by
  have htoken := takes_atToken (s := s) text
  rwa [h, beq_self_eq_true] at htoken

theorem takes_notToken {text : String} (h : current s ≠ text) : Takes (atToken text) s false s := by
  have htoken := takes_atToken (s := s) text
  rwa [beq_eq_false_iff_ne.2 h] at htoken

theorem takes_isWord {t word : String} (h : sameWord t word) :
    Takes (atWord word) (t :: l) true (t :: l) := by
  have hword := takes_atWord (s := t :: l) word
  rwa [current_cons, h] at hword

theorem takes_notWord {word : String} (h : sameWord (current s) word = false) :
    Takes (atWord word) s false s := by
  have hword := takes_atWord (s := s) word
  rwa [h] at hword

theorem takes_expect (text : String) (what : Construct) :
    Takes (expect text what) (text :: l) () l :=
  (takes_isToken rfl).ifTrue takes_bump

theorem takes_ofExcept {ε α : Type} {wrap : ε → ParseError} {x : Except ε α} {a : α}
    (h : x = .ok a) : Takes (ofExcept wrap x) s a s := by
  refine takes_of_eq fun ahead => ⟨ahead, ?_⟩
  rw [h]
  rfl

/-! ## Names -/

end Reader

/-- The name can be told from its identifier: it is not empty, and its characters are escaped with
four digits at most. -/
structure IsLegible (name : String) : Prop where
  ne_empty : name ≠ ""
  plane : ∀ c ∈ name.toList, c.toNat < 0xF0000

theorem IsLegible.unescape {name : String} (h : IsLegible name) :
    unescapeIdent (escapeIdent name) = name := by
  simp only [unescapeIdent, escapeIdent, String.toList_ofList, unescape_escape h.plane,
    String.ofList_toList]

theorem startsIdent_escapeIdent {name : String} (h : name ≠ "") :
    startsIdent (escapeIdent name).toList := by
  have hne : name.toList ≠ [] := by simpa using h
  rcases startsIdent_escape hne with ⟨d, ds, hescape, hstarts⟩
  simpa [escapeIdent, hescape] using hstarts

/-- An identifier is none of the other tokens. -/
theorem escapeIdent_ne {name : String} (other : String) (h : name ≠ "")
    (hother : startsIdent other.toList = false) : escapeIdent name ≠ other := by
  intro heq
  have hstarts := startsIdent_escapeIdent h
  rw [heq, hother] at hstarts
  cases hstarts

namespace Reader

variable {s l : List String}

theorem takes_identifier {name : String} (h : IsLegible name) (what : Construct) :
    Takes (identifier what) (escapeIdent name :: l) name l := by
  refine takes_token.bind ?_
  have hstarts := startsIdent_escapeIdent h.ne_empty
  simp only [current_cons, hstarts, if_true]
  refine takes_bump.bind ?_
  rw [h.unescape]
  exact takes_pure

/-! ## Lists -/

section Items

variable {α β : Type} {item : Reader α} {tokens : β → List String} {value : β → α}
  {E : ParseError → Prop} {fits : β → Prop}

/-- The item is read where a comma or the end of the list comes behind it. -/
def ReadsItem (E : ParseError → Prop) (fits : Prop) (item : Reader α) (ts : List String) (a : α) :
    Prop :=
  ts ≠ [] ∧ current ts ≠ ")" ∧
    ∀ l, current l = "," ∨ current l = ")" → Reads E fits item (ts ++ l) a l

/-- The item is read where a comma or the end of the list comes behind it, whatever the budget. -/
abbrev TakesItem (item : Reader α) (ts : List String) (a : α) : Prop :=
  ReadsItem (fun _ => False) True item ts a

/-- The last item, with no comma behind it. -/
theorem reads_lastItem (what : Construct) (fuel : Nat) {p : Prop} {s : List String} {a : α}
    (hs : current s ≠ ")") (h : Reads E p item s a (")" :: l)) :
    Reads E p (items what item (fuel + 1)) s [a] (")" :: l) := by
  have hcomma : current (")" :: l) ≠ "," := by
    rw [current_cons]
    decide
  refine (takes_notToken hs).ifFalse (h.bind ?_)
  exact (takes_notToken hcomma).ifFalse ((takes_isToken rfl).ifTrue takes_pure)

theorem reads_itemsInParens {what : Construct} {p : Prop} {s : List String} {as : List α}
    (h : Reads E p (items what item (s.length + 1)) s as (")" :: l)) :
    Reads E p (parenthesized what item) ("(" :: s) as l := by
  refine (takes_expect "(" what).bind ?_
  refine reads_count (k := fun n => items what item (n + 1) >>= fun found =>
    bump >>= fun _ => pure found) ?_
  exact h.bind (takes_bump.bind takes_pure)

theorem reads_items (what : Construct) {xs : List β}
    (h : ∀ x ∈ xs, ReadsItem E (fits x) item (tokens x) (value x)) {fuel : Nat}
    (hfuel : xs.length < fuel) (l : List String) :
    Reads E (∀ x ∈ xs, fits x) (items what item fuel) (separated "," (xs.map tokens) ++ ")" :: l)
      (xs.map value) (")" :: l) := by
  induction xs generalizing fuel with
  | nil =>
      rcases Nat.exists_eq_succ_of_ne_zero (by omega : fuel ≠ 0) with ⟨fuel, rfl⟩
      have hend : Takes (items what item (fuel + 1)) (")" :: l) [] (")" :: l) :=
        (takes_isToken rfl).ifTrue takes_pure
      exact hend.reads (by simp)
  | cons x xs ih =>
      rcases Nat.exists_eq_succ_of_ne_zero (by omega : fuel ≠ 0) with ⟨fuel, rfl⟩
      have hparts := List.forall_mem_cons.1 h
      rcases hparts.1 with ⟨hne, hparen, hread⟩
      have hstart : ∀ m, current (tokens x ++ m) ≠ ")" := by
        intro m
        rwa [current_append hne]
      cases xs with
      | nil =>
          exact (reads_lastItem what fuel (hstart _) (hread _ (.inr rfl))).congr (by simp)
      | cons y ys =>
          simp only [List.length_cons] at hfuel
          have hrest := @ih hparts.2 fuel (by simp only [List.length_cons]; omega)
          simp only [List.map_cons, separated_cons_cons, List.append_assoc, List.cons_append]
            at hrest ⊢
          refine (takes_notToken (hstart _)).ifFalse ?_
          refine (reads_bind (hread _ (.inl rfl)) (q := ∀ z ∈ y :: ys, fits z) ?_).congr
            List.forall_mem_cons.symm
          refine (takes_isToken rfl).ifTrue (takes_bump.bind ?_)
          exact hrest.bind takes_pure

theorem reads_parenthesized (what : Construct) {xs : List β}
    (h : ∀ x ∈ xs, ReadsItem E (fits x) item (tokens x) (value x)) (l : List String) :
    Reads E (∀ x ∈ xs, fits x) (parenthesized what item) (listTokens (xs.map tokens) ++ l)
      (xs.map value) l := by
  have hlength : xs.length ≤ (separated "," (xs.map tokens)).length := by
    have hfull : ∀ ts ∈ xs.map tokens, ts ≠ [] := by
      intro ts hts
      rcases List.mem_map.1 hts with ⟨x, hx, rfl⟩
      exact (h x hx).1
    have hle := length_le_separated "," hfull
    rwa [List.length_map] at hle
  simp only [listTokens, List.cons_append, List.append_assoc, List.nil_append]
  have hfuel : xs.length < (separated "," (xs.map tokens) ++ ")" :: l).length + 1 := by
    simp only [List.length_append]
    omega
  exact reads_itemsInParens (reads_items what h hfuel l)

end Items

end Reader

end SeriesQuery
