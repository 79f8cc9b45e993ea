import SeriesQuery.Proofs.Outcomes
import SeriesQuery.Proofs.ReadingOperands

/-!
# Reading within longer lists of tokens

`Embeds E ends fits r r' s` says that what `r` reads from the tokens `s`, which are all there are,
`r'` reads from them in front of one of the tokens `ends`.  The two readers may have different
budgets for depth, and `fits` says that the second one is not smaller.  There is a rule for each way
to put readers together, and a lemma for each part of the grammar that holds no expressions.
-/

namespace SeriesQuery

open Text

/-! ## Relations -/

/-- The reader fails on these tokens, if they are all there are. -/
def Refuses {α : Type} (r : Reader α) (s : List String) : Prop :=
  ∀ ahead, ∃ cause, r ⟨s, none, ahead⟩ = .error cause

/-- The reader takes the tokens of `s` up to `left` and gives `a`, at the end of all tokens and in
front of the `ends` alike. -/
def Steps {α : Type} (ends : List String) (r : Reader α) (s : List String) (a : α)
    (left : List String) : Prop :=
  ∀ l, l = [] ∨ current l ∈ ends → Takes r (s ++ l) a (left ++ l)

/-- What the first reader reads from all the tokens `s`, the second one reads in front of the `ends`,
if it fits the budget for depth. -/
def Embeds {α : Type} (E : ParseError → Prop) (ends : List String) (fits : Prop) (r r' : Reader α)
    (s : List String) : Prop :=
  ∀ (ahead : Nat) (a : α) (f : Feed), r ⟨s, none, ahead⟩ = .ok (a, f) → f.failure = none ∧
    ∀ l, l = [] ∨ current l ∈ ends → ∃ p : Prop, (fits → p) ∧ Reads E p r' (s ++ l) a (f.tokens ++ l)

/-- The tokens that may come behind a window or an offset, if no time and no other range does. -/
def rangeEnds : List String :=
  Expr.exprEnds ++ ["keep_metric_names"]

section Rules

variable {α β : Type} {E : ParseError → Prop} {ends : List String} {fits : Prop}
  {r r' : Reader α} {k k' : α → Reader β} {s m : List String} {a : α}

/-! ## Readers that fail -/

theorem refuses_throw (cause : ParseError) : Refuses (throw cause : Reader α) s :=
  fun _ => ⟨cause, rfl⟩

theorem refuses_unexpected (what : Construct) (wanted : String) :
    Refuses (Reader.unexpected what wanted : Reader α) s :=
  fun _ => ⟨_, rfl⟩

theorem refuses_misuse (cause : Misuse) : Refuses (Reader.misuse cause : Reader α) s :=
  fun _ => ⟨_, rfl⟩

theorem Refuses.bind (h : Refuses r s) : Refuses (r >>= k) s := by
  intro ahead
  rcases h ahead with ⟨cause, heq⟩
  refine ⟨cause, ?_⟩
  change (r ⟨s, none, ahead⟩ >>= fun found => k found.1 found.2) = _
  rw [heq]
  rfl

theorem Reads.refuses {p : Prop} (hr : Reads E p r s a m) (hk : Refuses (k a) m) :
    Refuses (r >>= k) s := by
  intro ahead
  change ∃ cause, (r ⟨s, none, ahead⟩ >>= fun found => k found.1 found.2) = .error cause
  by_cases hp : p
  · rcases (hr ahead).1 hp with ⟨ahead', heq⟩
    rcases hk ahead' with ⟨cause, herror⟩
    refine ⟨cause, ?_⟩
    rw [heq]
    exact herror
  · rcases (hr ahead).2 hp with ⟨cause, herror, -⟩
    refine ⟨cause, ?_⟩
    rw [herror]
    rfl

theorem Refuses.embeds (h : Refuses r s) : Embeds E ends fits r r' s := by
  intro ahead a f heq
  rcases h ahead with ⟨cause, herror⟩
  rw [herror] at heq
  cases heq

/-! ## Readers put together -/

theorem embeds_pure : Embeds E ends fits (pure a : Reader α) (pure a) s := by
  intro ahead a' f heq
  cases heq
  exact ⟨rfl, fun l _ => ⟨True, fun _ => trivial, takes_pure.reads trivial⟩⟩

/-- The result of two steps is made from that of the first one. -/
theorem Reader.exists_of_bind {feed : Feed} {found : β × Feed} (h : (r >>= k) feed = .ok found) :
    ∃ a m, r feed = .ok (a, m) ∧ k a m = .ok found := by
  change (r feed >>= fun first => k first.1 first.2) = _ at h
  cases hfirst : r feed with
  | error cause =>
      rw [hfirst] at h
      cases h
  | ok first =>
      rw [hfirst] at h
      exact ⟨first.1, first.2, rfl, h⟩

theorem Embeds.bind (hr : Embeds E ends fits r r' s)
    (hk : ∀ a m, (∃ ahead ahead', r ⟨s, none, ahead⟩ = .ok (a, ⟨m, none, ahead'⟩)) →
      Embeds E ends fits (k a) (k' a) m) :
    Embeds E ends fits (r >>= k) (r' >>= k') s := by
  intro ahead b f heq
  rcases Reader.exists_of_bind heq with ⟨a, ⟨m, failure, ahead'⟩, hfound, hrest⟩
  rcases hr _ _ _ hfound with ⟨hfailure, hreads⟩
  cases (hfailure : failure = none)
  rcases hk a m ⟨ahead, ahead', hfound⟩ _ _ _ hrest with ⟨hend, hmore⟩
  refine ⟨hend, fun l hl => ?_⟩
  rcases hreads l hl with ⟨p, hp, hfirst⟩
  rcases hmore l hl with ⟨q, hq, hsecond⟩
  exact ⟨p ∧ q, fun hfits => ⟨hp hfits, hq hfits⟩, reads_bind hfirst hsecond⟩

/-- The rule for a second step that is embedded wherever it starts. -/
theorem Embeds.bind_any (hr : Embeds E ends fits r r' s)
    (hk : ∀ a m, Embeds E ends fits (k a) (k' a) m) : Embeds E ends fits (r >>= k) (r' >>= k') s :=
  hr.bind fun a m _ => hk a m

theorem Embeds.map {g : α → β} (hr : Embeds E ends fits r r' s) :
    Embeds E ends fits (g <$> r) (g <$> r') s := by
  have hdone : ∀ a m, Embeds E ends fits (pure (g a) : Reader β) (pure (g a)) m :=
    fun _ _ => embeds_pure
  exact hr.bind_any hdone

/-- What is embedded in front of some tokens is in front of fewer. -/
theorem Embeds.mono {ends' : List String} (h : Embeds E ends fits r r' s) (hends : ends' ⊆ ends) :
    Embeds E ends' fits r r' s := by
  intro ahead a f heq
  rcases h _ _ _ heq with ⟨hfailure, hreads⟩
  exact ⟨hfailure, fun l hl => hreads l (hl.imp_right fun hmem => hends hmem)⟩

theorem Embeds.weaken {fits' : Prop} (h : Embeds E ends fits r r' s) (hfits : fits' → fits) :
    Embeds E ends fits' r r' s := by
  intro ahead a f heq
  rcases h _ _ _ heq with ⟨hfailure, hreads⟩
  refine ⟨hfailure, fun l hl => ?_⟩
  rcases hreads l hl with ⟨p, hp, hread⟩
  exact ⟨p, fun h' => hp (hfits h'), hread⟩

/-! ## Steps -/

theorem Steps.takes (h : Steps ends r s a m) : Takes r s a m := by
  simpa using h [] (.inl rfl)

/-- The rule for a first step that is known. -/
theorem Steps.bind (hr : Steps ends r s a m) (hk : Embeds E ends fits (k a) (k' a) m) :
    Embeds E ends fits (r >>= k) (r >>= k') s := by
  intro ahead b f heq
  rcases hr.takes.eq ahead with ⟨ahead', hfound⟩
  change (r ⟨s, none, ahead⟩ >>= fun found => k found.1 found.2) = _ at heq
  rw [hfound] at heq
  rcases hk _ _ _ heq with ⟨hfailure, hreads⟩
  refine ⟨hfailure, fun l hl => ?_⟩
  rcases hreads l hl with ⟨p, hp, hrest⟩
  exact ⟨p, hp, (hr l hl).bind hrest⟩

theorem Steps.embeds (h : Steps ends r s a m) : Embeds E ends fits r r s := by
  intro ahead b f heq
  rcases h.takes.eq ahead with ⟨ahead', hfound⟩
  rw [hfound] at heq
  cases heq
  exact ⟨rfl, fun l hl => ⟨True, fun _ => trivial, (h l hl).reads trivial⟩⟩

theorem steps_pure : Steps ends (pure a : Reader α) s a s :=
  fun _ _ => takes_pure

theorem steps_ofExcept {ε : Type} {wrap : ε → ParseError} {x : Except ε α} (h : x = .ok a) :
    Steps ends (Reader.ofExcept wrap x) s a s :=
  fun _ _ => Reader.takes_ofExcept h

theorem embeds_ofExcept {ε : Type} (wrap : ε → ParseError) (x : Except ε α) :
    Embeds E ends fits (Reader.ofExcept wrap x) (Reader.ofExcept wrap x) s := by
  cases x with
  | error cause => exact Refuses.embeds fun _ => ⟨_, rfl⟩
  | ok a => exact (steps_ofExcept rfl).embeds

variable {t : String}

theorem steps_bump : Steps ends Reader.bump (t :: s) () s :=
  fun _ _ => Reader.takes_bump

theorem steps_token : Steps ends Reader.token (t :: s) t (t :: s) :=
  fun _ _ => Reader.takes_token

theorem steps_replace (text : String) : Steps ends (Reader.replace text) (t :: s) () (text :: s) :=
  fun _ _ => Reader.takes_replace text

theorem current_mem {l : List String} (hl : l = [] ∨ current l ∈ ends) :
    current l ∈ "" :: ends := by
  rcases hl with rfl | hl
  · exact List.mem_cons_self
  · exact List.mem_cons_of_mem _ hl

/-- A test that the `ends` fail as the end of all tokens does. -/
theorem current_append_congr {γ : Type} {g : String → γ} (hg : ∀ t ∈ ends, g t = g "")
    {l : List String} (hl : l = [] ∨ current l ∈ ends) : g (current (s ++ l)) = g (current s) := by
  cases s with
  | cons t s => rfl
  | nil =>
      rcases hl with rfl | hl
      · rfl
      · exact hg _ hl

theorem steps_atToken {text : String} (h : s = [] → text ∉ "" :: ends) :
    Steps ends (Reader.atToken text) s (current s == text) s := by
  intro l hl
  have htoken := Reader.takes_atToken (s := s ++ l) text
  cases s with
  | cons t s => exact htoken
  | nil =>
      have hne : ∀ t ∈ "" :: ends, (t == text) = false := by
        intro t ht
        refine beq_eq_false_iff_ne.2 ?_
        rintro rfl
        exact h rfl ht
      rw [List.nil_append] at htoken ⊢
      rwa [hne _ (current_mem hl), ← hne "" List.mem_cons_self] at htoken

theorem steps_atWord {word : String} (h : ∀ t ∈ ends, sameWord t word = sameWord "" word) :
    Steps ends (Reader.atWord word) s (sameWord (current s) word) s := by
  intro l hl
  have htoken := Reader.takes_atWord (s := s ++ l) word
  rwa [current_append_congr (g := (sameWord · word)) h hl] at htoken

/-- The rule for a choice by a test. -/
theorem Steps.test {c : Reader Bool} {x x' y y' : Reader β} {found : Bool}
    (hc : Steps ends c s found m) (hx : found = true → Embeds E ends fits x x' m)
    (hy : found = false → Embeds E ends fits y y' m) :
    Embeds E ends fits (c >>= fun found => if found then x else y)
      (c >>= fun found => if found then x' else y') s := by
  cases found with
  | true => exact hc.bind (hx rfl)
  | false => exact hc.bind (hy rfl)

/-- The rule for a choice by whether the current token is this one. -/
theorem embeds_ifToken {text : String} {x x' y y' : Reader β} (h : s = [] → text ∉ "" :: ends)
    (hx : current s = text → Embeds E ends fits x x' s)
    (hy : current s ≠ text → Embeds E ends fits y y' s) :
    Embeds E ends fits (Reader.atToken text >>= fun found => if found then x else y)
      (Reader.atToken text >>= fun found => if found then x' else y') s :=
  (steps_atToken h).test (fun hfound => hx (by simpa using hfound)) fun hfound =>
    hy (by simpa using hfound)

/-- The rule for a reader that goes on in front of the `ends` as at the end. -/
theorem embeds_token_congr {k k' : String → Reader β} (h : ∀ t ∈ ends, k' t = k' "")
    (hk : Embeds E ends fits (k (current s)) (k' (current s)) s) :
    Embeds E ends fits (Reader.token >>= k) (Reader.token >>= k') s := by
  intro ahead b f heq
  have hfound : k (current s) ⟨s, none, ahead⟩ = .ok (b, f) := heq
  rcases hk _ _ _ hfound with ⟨hfailure, hreads⟩
  refine ⟨hfailure, fun l hl => ?_⟩
  rcases hreads l hl with ⟨p, hp, hread⟩
  refine ⟨p, hp, Reader.takes_token.bind ?_⟩
  rwa [current_append_congr h hl]

/-- The rule for readers that are given the number of tokens. -/
theorem embeds_count {c d : Nat → Reader β}
    (h : ∀ n n', n ≤ n' → Embeds E ends fits (c n) (d n') s) :
    Embeds E ends fits (get >>= fun feed => c feed.tokens.length)
      (get >>= fun feed => d feed.tokens.length) s := by
  intro ahead b f heq
  have hfound : c s.length ⟨s, none, ahead⟩ = .ok (b, f) := heq
  refine ⟨(h _ _ (Nat.le_refl _) _ _ _ hfound).1, fun l hl => ?_⟩
  have hlength : s.length ≤ (s ++ l).length := by simp
  rcases (h _ _ hlength _ _ _ hfound).2 l hl with ⟨p, hp, hread⟩
  exact ⟨p, hp, Reader.reads_count hread⟩

end Rules

/-! ## Tokens that are wanted -/

/-- The rule for a reader that goes on by the current token, and fails where there is none. -/
theorem embeds_token {β : Type} {E : ParseError → Prop} {ends : List String} {fits : Prop}
    {s : List String} {k k' : String → Reader β} (hnil : s = [] → Refuses (k "") [])
    (hcons : ∀ t m, s = t :: m → Embeds E ends fits (k t) (k' t) (t :: m)) :
    Embeds E ends fits (Reader.token >>= k) (Reader.token >>= k') s := by
  cases s with
  | nil => exact (Reader.takes_token.refuses (hnil rfl)).embeds
  | cons t s => exact steps_token.bind (hcons t s rfl)

namespace Reader

section Wanted

variable {E : ParseError → Prop} {ends : List String} {fits : Prop} {s : List String}

theorem embeds_expect (text : String) (what : Construct) (h : text ∉ "" :: ends) :
    Embeds E ends fits (expect text what) (expect text what) s := by
  refine embeds_ifToken (fun _ => h) (fun htoken => ?_) fun _ =>
    (refuses_unexpected _ _).embeds
  cases s with
  | nil => exact absurd List.mem_cons_self (htoken ▸ h)
  | cons t s => exact steps_bump.embeds

theorem refuses_expect {text : String} (h : text ≠ "") (what : Construct) :
    Refuses (expect text what) [] := by
  have hnot : Takes (atToken text) [] false [] := takes_notToken (by simpa using h.symm)
  exact hnot.refuses (refuses_unexpected _ _)

theorem embeds_identifier (what : Construct) :
    Embeds E ends fits (identifier what) (identifier what) s := by
  refine embeds_token (fun _ => refuses_unexpected _ _) fun t m _ => ?_
  split
  · exact steps_bump.bind embeds_pure
  · exact (refuses_unexpected _ _).embeds

theorem refuses_identifier (what : Construct) : Refuses (identifier what) [] :=
  takes_token.refuses (refuses_unexpected _ _)

end Wanted

variable {E : ParseError → Prop} {fits : Prop} {s : List String}

/-! ## Lists -/

/-- The items of a list are read up to the closing parenthesis. -/
theorem gives_items_close {α : Type} (what : Construct) (item : Reader α) (fuel : Nat) (feed : Feed) :
    Gives (fun found => found.2.token = ")") (items what item fuel feed) := by
  have hclose : ∀ {feed : Feed} {c : Reader (List α)} {found : List α},
      Gives (fun found => found.2.token = ")") (c feed) →
      Gives (fun found => found.2.token = ")")
        ((atToken ")" >>= fun atEnd => if atEnd then pure found else c) feed) := by
    intro feed c found hc
    have hlook : Gives (fun found => found = (feed.token == ")", feed)) (atToken ")" feed) :=
      gives_ok rfl
    refine gives_seq hlook fun _ htoken => ?_
    cases htoken
    by_cases hend : feed.token = ")"
    · simp only [hend, beq_self_eq_true]
      exact gives_ok hend
    · simp only [beq_eq_false_iff_ne.2 hend]
      exact hc
  induction fuel generalizing feed with
  | zero => exact gives_error _
  | succ fuel ih =>
      refine hclose (gives_seq (gives_true _) fun found _ => ?_)
      refine gives_seq (gives_true _) fun atComma _ => ?_
      split
      · refine gives_seq (gives_true _) fun next _ => ?_
        exact gives_seq (ih next.2) fun rest hrest => gives_ok hrest
      · exact hclose (gives_error _)

section Items

variable {α : Type} {item item' : Reader α} (hitem : ∀ s, Embeds E Expr.exprEnds fits item item' s)
  (hnil : Refuses item [])
include hitem hnil

theorem embeds_items (what : Construct) {fuel fuel' : Nat} (h : fuel ≤ fuel') :
    Embeds E Expr.exprEnds fits (items what item fuel) (items what item' fuel') s := by
  induction fuel generalizing fuel' s with
  | zero => exact (refuses_unexpected _ _).embeds
  | succ fuel ih =>
      rcases Nat.exists_eq_succ_of_ne_zero (by omega : fuel' ≠ 0) with ⟨fuel', rfl⟩
      cases s with
      | nil =>
          have hnot : Takes (atToken ")") [] false [] := takes_notToken (by decide)
          exact (hnot.refuses hnil.bind).embeds
      | cons t s =>
          refine embeds_ifToken (by simp) (fun _ => embeds_pure) fun _ => ?_
          refine (hitem _).bind_any fun a m => ?_
          cases m with
          | nil =>
              -- Behind the last item a parenthesis is wanted.
              have hcomma : Takes (atToken ",") [] false [] := takes_notToken (by decide)
              have hparen : Takes (atToken ")") [] false [] := takes_notToken (by decide)
              exact (hcomma.refuses (hparen.refuses (refuses_unexpected _ _))).embeds
          | cons t m =>
              refine embeds_ifToken (by simp) (fun _ => ?_) fun _ => ?_
              · exact steps_bump.bind ((ih (by omega)).bind_any fun _ _ => embeds_pure)
              · exact embeds_ifToken (by simp) (fun _ => embeds_pure) fun _ =>
                  (refuses_unexpected _ _).embeds

theorem embeds_parenthesized (what : Construct) :
    Embeds E Expr.exprEnds fits (parenthesized what item) (parenthesized what item') s := by
  refine (embeds_expect "(" what (by decide)).bind_any fun _ m => ?_
  refine embeds_count (c := fun n => items what item (n + 1) >>= fun found => bump >>= fun _ =>
    pure found) (d := fun n => items what item' (n + 1) >>= fun found => bump >>= fun _ =>
    pure found) fun n n' hn => ?_
  refine (embeds_items hitem hnil what (by omega)).bind fun found left hfound => ?_
  rcases hfound with ⟨ahead, ahead', heq⟩
  have hclose : current left = ")" := gives_items_close what item _ _ _ heq
  cases left with
  | nil => exact absurd hclose (by decide)
  | cons t left => exact steps_bump.bind embeds_pure

end Items

theorem embeds_label (allowStar : Bool) :
    Embeds E Expr.exprEnds fits (label allowStar) (label allowStar) s := by
  cases allowStar with
  | false => exact embeds_identifier _
  | true =>
      refine embeds_ifToken (fun _ => by decide) (fun hstar => ?_) fun _ => embeds_identifier _
      cases s with
      | nil => exact absurd hstar (by decide)
      | cons t s => exact steps_bump.bind embeds_pure

theorem refuses_label (allowStar : Bool) : Refuses (label allowStar) [] := by
  cases allowStar with
  | false => exact refuses_identifier _
  | true =>
      have hnot : Takes (atToken "*") [] false [] := takes_notToken (by decide)
      exact hnot.refuses (refuses_identifier _)

theorem embeds_labels (allowStar : Bool) :
    Embeds E Expr.exprEnds fits (labels allowStar) (labels allowStar) s := by
  refine (embeds_parenthesized (fun _ => embeds_label _) (refuses_label _) _).bind_any fun found m => ?_
  split
  · exact (refuses_throw _).embeds
  · exact embeds_pure

/-! ## Strings -/

theorem refuses_segment (x : StringExpr) : Refuses (segment x) [] :=
  takes_token.refuses (refuses_unexpected _ _)

/-- A part of a string is found from the current token alone. -/
theorem segment_cases (ends : List String) (x : StringExpr) (t : String) (s : List String) :
    Refuses (segment x) (t :: s) ∨ ∃ y, Steps ends (segment x) (t :: s) y (t :: s) := by
  have hstep : ∀ {k : String → Reader StringExpr} {y : StringExpr},
      Steps ends (k t) (t :: s) y (t :: s) → Steps ends (token >>= k) (t :: s) y (t :: s) :=
    fun hk l hl => takes_token.bind (hk l hl)
  unfold segment
  by_cases hquoted : startsQuoted t.toList
  · cases hvalue : unquote t with
    | error cause =>
        left
        refine takes_token.refuses ?_
        simp only [current_cons, hquoted, if_true, hvalue]
        exact fun _ => ⟨_, rfl⟩
    | ok value =>
        refine .inr ⟨x.pushLiteral value, hstep ?_⟩
        simp only [hquoted, if_true, hvalue]
        exact fun _ _ => (takes_ofExcept rfl).bind takes_pure
  · by_cases hident : startsIdent t.toList
    · refine .inr ⟨x.pushIdent (unescapeIdent t), hstep ?_⟩
      simp only [hquoted, hident, if_true]
      exact steps_pure
    · left
      refine takes_token.refuses ?_
      simp only [current_cons, hquoted, hident]
      exact refuses_unexpected _ _

theorem steps_continuesString : Steps Expr.exprEnds continuesString s (continues s) s := by
  intro l hl
  have hends : ∀ t ∈ "" :: Expr.exprEnds, t ≠ "+" ∧ startsQuoted t.toList = false ∧
      startsIdent t.toList = false ∧ (t == "(") = false ∧ (t == "\x7b") = false := by decide
  have hempty := hends "" (by decide)
  have hl := hends _ (current_mem hl)
  have hread := takes_continuesString (s := s ++ l)
  -- A string looks two tokens ahead, so the cases are by how many tokens there are.
  have hsame : continues (s ++ l) = continues s := by
    match s with
    | [] => rw [List.nil_append, continues_of_ne hl.1]; rfl
    | [t] =>
        by_cases hplus : t = "+"
        · subst hplus
          cases l with
          | nil => rfl
          | cons next more =>
              rw [current_cons] at hl
              simp [continues, hl]
        · rw [continues_of_ne (by simpa using hplus), continues_of_ne (by simpa using hplus)]
    | [t, next] =>
        by_cases hplus : t = "+"
        · subst hplus
          simp [continues, hl, hempty]
        · rw [continues_of_ne (by simpa using hplus), continues_of_ne (by simpa using hplus)]
    | t :: next :: more :: rest =>
        by_cases hplus : t = "+"
        · subst hplus
          simp [continues]
        · rw [continues_of_ne (by simpa using hplus), continues_of_ne (by simpa using hplus)]
  rwa [hsame] at hread

theorem embeds_stringFrom (x : StringExpr) {fuel fuel' : Nat} (h : fuel ≤ fuel') :
    Embeds E Expr.exprEnds fits (stringFrom x fuel) (stringFrom x fuel') s := by
  induction fuel generalizing fuel' s x with
  | zero => exact (refuses_unexpected _ _).embeds
  | succ fuel ih =>
      rcases Nat.exists_eq_succ_of_ne_zero (by omega : fuel' ≠ 0) with ⟨fuel', rfl⟩
      cases s with
      | nil => exact (refuses_segment x).bind.embeds
      | cons t s =>
          rcases segment_cases Expr.exprEnds x t s with hrefuses | ⟨y, hstep⟩
          · exact hrefuses.bind.embeds
          · refine hstep.bind (steps_bump.bind ?_)
            refine steps_continuesString.test (fun hmore => ?_) fun _ => embeds_pure
            cases s with
            | nil => cases hmore
            | cons t s => exact steps_bump.bind (ih y (by omega))

theorem embeds_stringExpr : Embeds E Expr.exprEnds fits stringExpr stringExpr s :=
  embeds_count (c := fun n => stringFrom .empty (n + 1)) (d := fun n => stringFrom .empty (n + 1))
    fun _ _ hn => embeds_stringFrom _ (by omega)

/-! ## Selectors -/

theorem embeds_labelFilter : Embeds E Expr.exprEnds fits labelFilter labelFilter s := by
  refine (embeds_identifier _).bind_any fun label m => embeds_token (fun _ => ?_) fun t m _ => ?_
  · exact refuses_unexpected _ _
  · cases FilterOp.ofSymbol? t with
    | some op =>
        exact steps_bump.bind (embeds_stringExpr.bind_any fun value m => embeds_ofExcept _ _)
    | none =>
        dsimp only
        split
        · exact embeds_pure
        · exact (refuses_unexpected _ _).embeds

theorem embeds_filterGroups {fuel fuel' : Nat} (h : fuel ≤ fuel') :
    Embeds E Expr.exprEnds fits (filterGroups fuel) (filterGroups fuel') s := by
  induction fuel generalizing fuel' s with
  | zero => exact (refuses_unexpected _ _).embeds
  | succ fuel ih =>
      rcases Nat.exists_eq_succ_of_ne_zero (by omega : fuel' ≠ 0) with ⟨fuel', rfl⟩
      refine embeds_labelFilter.bind_any fun f m => ?_
      cases m with
      | nil =>
          -- Behind the last filter a brace is wanted.
          have hcomma : Takes (atToken ",") [] false [] := takes_notToken (by decide)
          have hbrace : Takes (atToken "\x7d") [] false [] := takes_notToken (by decide)
          have hor : Takes (atWord "or") [] false [] := takes_notWord (by decide)
          exact (hcomma.refuses (hbrace.refuses (hor.refuses (refuses_unexpected _ _)))).embeds
      | cons t m =>
          refine embeds_ifToken (by simp) (fun _ => steps_bump.bind ?_) fun _ => ?_
          · refine embeds_ifToken (fun _ => by decide) (fun hbrace => ?_) fun _ => ?_
            · cases m with
              | nil => exact absurd hbrace (by decide)
              | cons t m => exact steps_bump.bind embeds_pure
            · exact (ih (by omega)).bind_any fun _ _ => embeds_pure
          · refine embeds_ifToken (by simp) (fun _ => steps_bump.bind embeds_pure) fun _ => ?_
            refine (steps_atWord (by decide)).test (fun _ => steps_bump.bind ?_) fun _ => ?_
            · refine embeds_ifToken (fun _ => by decide) (fun _ => (refuses_misuse _).embeds)
                fun _ => ?_
              exact (ih (by omega)).bind_any fun _ _ => embeds_pure
            · exact (refuses_unexpected _ _).embeds

theorem embeds_bracedFilters : Embeds E Expr.exprEnds fits bracedFilters bracedFilters s := by
  refine (embeds_expect "\x7b" _ (by decide)).bind_any fun _ m => ?_
  refine embeds_ifToken (fun _ => by decide) (fun hbrace => ?_) fun _ => ?_
  · cases m with
    | nil => exact absurd hbrace (by decide)
    | cons t m => exact steps_bump.bind embeds_pure
  · exact embeds_count (c := fun n => filterGroups (n + 1)) (d := fun n => filterGroups (n + 1))
      fun _ _ hn => embeds_filterGroups (by omega)

theorem embeds_ofSelectorExpr {ends : List String} (x : SelectorExpr) :
    Embeds E ends fits (ofSelectorExpr x) (ofSelectorExpr x) s := by
  unfold ofSelectorExpr
  split
  · exact (embeds_ofExcept _ _).bind_any fun _ _ => embeds_pure
  · exact embeds_pure

theorem embeds_metric : Embeds E Expr.exprEnds fits metric metric s := by
  have hends : ∀ t ∈ Expr.exprEnds, startsIdent t.toList = startsIdent "".toList := by decide
  refine embeds_token_congr (fun t ht => by simp only [hends t ht]) ?_
  split
  · refine (embeds_identifier _).bind_any fun name m => ?_
    refine embeds_ifToken (fun _ => by decide) (fun _ => ?_) fun _ => embeds_ofSelectorExpr _
    exact embeds_bracedFilters.bind_any fun groups _ => embeds_ofSelectorExpr _
  · exact embeds_bracedFilters.bind_any fun groups _ => embeds_ofSelectorExpr _

/-! ## Aggregates -/

theorem embeds_grouping : Embeds E Expr.exprEnds fits grouping grouping s := by
  refine (steps_atWord (by decide)).bind ?_
  cases s with
  | nil =>
      have hbump : Takes bump [] () [] := takes_of_eq fun ahead => ⟨ahead - 1, rfl⟩
      have hlabels : Refuses (labels false) [] := (refuses_expect (by decide) _).bind.bind
      exact (hbump.refuses hlabels.bind).embeds
  | cons t s => exact steps_bump.bind ((embeds_labels false).bind_any fun _ _ => embeds_pure)

theorem embeds_limit : Embeds E Expr.exprEnds fits limit limit s := by
  cases s with
  | nil =>
      have hbump : Takes bump [] () [] := takes_of_eq fun ahead => ⟨ahead - 1, rfl⟩
      exact (hbump.refuses (takes_token.refuses (refuses_misuse _))).embeds
  | cons t s =>
      refine steps_bump.bind (embeds_token (fun _ => refuses_misuse _) fun t m _ => ?_)
      cases (readUnsigned 10 t.toList).filter (· < Nat.pow 2 64) with
      | some n => exact steps_bump.bind embeds_pure
      | none => exact (refuses_misuse _).embeds

/-! ## Binary operators -/

theorem embeds_boolModifier (op : Operator) :
    Embeds E Expr.exprEnds fits (boolModifier op) (boolModifier op) s := by
  refine (steps_atWord (by decide)).test (fun hword => ?_) fun _ => embeds_pure
  split
  · cases s with
    | nil => exact absurd hword (by decide)
    | cons t s => exact steps_bump.bind embeds_pure
  · exact (refuses_misuse _).embeds

theorem embeds_joinLead : Embeds E Expr.exprEnds fits joinLead joinLead s := by
  refine (steps_atWord (by decide)).test (fun hword => ?_) fun _ => embeds_pure
  cases s with
  | nil => exact absurd hword (by decide)
  | cons t s => exact steps_bump.bind (embeds_stringExpr.bind_any fun _ _ => embeds_pure)

theorem embeds_join (op : Operator) : Embeds E Expr.exprEnds fits (join op) (join op) s := by
  have hends : ∀ t ∈ Expr.exprEnds, JoinSide.ofWord? t = JoinSide.ofWord? "" := by decide
  refine embeds_token_congr (fun t ht => by simp only [hends t ht]) ?_
  cases hside : JoinSide.ofWord? (current s) with
  | none => exact embeds_pure
  | some side =>
      dsimp only
      split
      · exact (refuses_misuse _).embeds
      · cases s with
        | nil =>
            have hnone : JoinSide.ofWord? "" = none := by decide
            rw [current_nil, hnone] at hside
            cases hside
        | cons t s =>
            refine steps_bump.bind (embeds_ifToken (fun _ => by decide) (fun _ => ?_) fun _ => ?_)
            · refine (embeds_labels true).bind_any fun names m => ?_
              exact embeds_joinLead.bind_any fun _ _ => embeds_pure
            · exact steps_pure.bind (embeds_joinLead.bind_any fun _ _ => embeds_pure)

theorem embeds_modifiers (op : Operator) :
    Embeds E Expr.exprEnds fits (modifiers op) (modifiers op) s := by
  have hends : ∀ t ∈ Expr.exprEnds, MatchingKind.ofWord? t = MatchingKind.ofWord? "" := by decide
  refine (embeds_boolModifier op).bind_any fun asBool m => ?_
  refine embeds_token_congr (fun t ht => by simp only [hends t ht]) ?_
  cases hkind : MatchingKind.ofWord? (current m) with
  | none => exact embeds_pure
  | some kind =>
      cases m with
      | nil =>
          have hnone : MatchingKind.ofWord? "" = none := by decide
          rw [current_nil, hnone] at hkind
          cases hkind
      | cons t m =>
          refine steps_bump.bind ((embeds_labels false).bind_any fun names m => ?_)
          exact (embeds_join op).bind_any fun _ _ => embeds_pure

/-! ## Ranges -/

theorem embeds_duration {ends : List String} : Embeds E ends fits duration duration s := by
  refine embeds_token (fun _ => refuses_unexpected _ _) fun t m _ => ?_
  split
  · unfold durationName
    dsimp only
    split
    · exact (steps_replace _).bind embeds_pure
    · exact steps_bump.bind embeds_pure
  · split
    · exact steps_bump.bind embeds_pure
    · split
      · cases bareSeconds t with
        | error cause =>
            have hfails : Refuses (ofExcept ParseError.duration (.error cause : Except _ Duration))
                (t :: m) := fun _ => ⟨_, rfl⟩
            exact hfails.bind.embeds
        | ok d => exact (steps_ofExcept rfl).bind (steps_bump.bind embeds_pure)
      · exact (refuses_unexpected _ _).embeds

theorem embeds_step : Embeds E rangeEnds fits step step s := by
  refine embeds_token_congr (fun t ht => ?_) ?_
  · simp only [rangeEnds, Expr.exprEnds, List.cons_append, List.nil_append, List.mem_cons,
      List.not_mem_nil, or_false] at ht
    rcases ht with rfl | rfl | rfl | rfl <;> rfl
  · split
    · rename_i rest htext
      cases s with
      | nil => cases htext
      | cons t m =>
          refine (steps_replace _).bind ?_
          cases rest with
          | nil =>
              refine steps_bump.bind (embeds_ifToken (fun _ => by decide) (fun _ => embeds_pure) ?_)
              exact fun _ => embeds_duration.bind_any fun _ _ => embeds_pure
          | cons c rest =>
              refine embeds_ifToken (fun _ => by decide) (fun _ => embeds_pure) ?_
              exact fun _ => embeds_duration.bind_any fun _ _ => embeds_pure
    · exact embeds_pure

theorem steps_atColon : Steps rangeEnds atColon s ((current s).toList.head? == some ':') s := by
  have hends : ∀ t ∈ rangeEnds, (t.toList.head? == some ':') = ("".toList.head? == some ':') := by
    decide
  intro l hl
  have hcolon := takes_atColon (s := s ++ l)
  rwa [current_append_congr (g := fun t => t.toList.head? == some ':') hends hl] at hcolon

theorem embeds_window : Embeds E rangeEnds fits window window s := by
  refine embeds_ifToken (fun _ => by decide) (fun hopen => ?_) fun _ => embeds_pure
  cases s with
  | nil => exact absurd hopen (by decide)
  | cons t s =>
      refine steps_bump.bind (steps_atColon.test (fun _ => steps_pure.bind ?_)
        fun _ => embeds_duration.map.bind_any fun width m => ?_)
      -- Whether there is a width or not, the step and the closing bracket come next.
      all_goals
        refine embeds_step.bind_any fun found m => ?_
        refine embeds_ifToken (fun _ => by decide) (fun hclose => ?_) fun _ =>
          (refuses_unexpected _ _).embeds
        cases m with
        | nil => exact absurd hclose (by decide)
        | cons t m => exact steps_bump.bind embeds_pure

theorem embeds_offset : Embeds E rangeEnds fits offset offset s := by
  refine (steps_atWord (by decide)).test (fun hword => ?_) fun _ => embeds_pure
  cases s with
  | nil => exact absurd hword (by decide)
  | cons t s =>
      refine steps_bump.bind (embeds_ifToken (fun _ => by decide) (fun hminus => ?_) fun _ => ?_)
      · cases s with
        | nil => exact absurd hminus (by decide)
        | cons t s =>
            refine steps_bump.bind (embeds_duration.bind_any fun d m => ?_)
            split
            · exact (refuses_throw _).embeds
            · exact embeds_pure
      · exact embeds_duration.bind_any fun _ _ => embeds_pure

theorem steps_atKeepNames : Steps Expr.exprEnds atKeepNames s
    (sameWord (current s) "keep_metric_names") s :=
  steps_atWord (by decide)

end Reader

end SeriesQuery
