import SeriesQuery.Proofs.LegibleTokens
import SeriesQuery.Proofs.ReadingParts

/-!
# Readers on legible tokens

Readers go on from legible tokens to legible ones.  `Keeps` says so of a reader, and is found from
the parts of the reader; `Collects` says so of a reader together with a property of what it gives.
`Passes` is for readers that go past a token that need not be legible, a part of another one.
-/

namespace SeriesQuery

open Text

/-! ## Rules -/

section Readers

variable {α β : Type} {P : α → Prop} {Q : β → Prop}

/-- From legible tokens the reader goes on to legible ones, and gives a value with the property. -/
def Collects (P : α → Prop) (r : Reader α) : Prop :=
  ∀ feed : Feed, feed.Legible → Gives (fun found => P found.1 ∧ found.2.Legible) (r feed)

/-- From legible tokens the reader goes on to legible ones. -/
class Keeps (r : Reader α) : Prop where
  collects : Collects (fun _ => True) r

theorem collects_pure {a : α} (h : P a) : Collects P (pure a : Reader α) :=
  fun _ hfeed => gives_ok ⟨h, hfeed⟩

theorem collects_throw (cause : ParseError) : Collects P (throw cause : Reader α) :=
  fun _ _ => gives_error cause

theorem Collects.bind {r : Reader α} {k : α → Reader β} (hr : Collects P r)
    (hk : ∀ a, P a → Collects Q (k a)) : Collects Q (r >>= k) :=
  fun feed hfeed => (hr feed hfeed).bind fun found h => hk found.1 h.1 found.2 h.2

theorem Collects.keeps {r : Reader α} (h : Collects P r) : Keeps r :=
  ⟨fun feed hfeed => (h feed hfeed).imp fun _ hfound => ⟨trivial, hfound.2⟩⟩

theorem collects_bind_any {r : Reader α} [Keeps r] {k : α → Reader β}
    (hk : ∀ a, Collects Q (k a)) : Collects Q (r >>= k) :=
  Keeps.collects.bind fun a _ => hk a

theorem Collects.map {r : Reader α} {g : α → β} (hr : Collects P r) (hg : ∀ a, P a → Q (g a)) :
    Collects Q (g <$> r) :=
  hr.bind fun a ha => collects_pure (hg a ha)

instance (a : α) : Keeps (pure a : Reader α) :=
  ⟨collects_pure trivial⟩

instance (cause : ParseError) : Keeps (throw cause : Reader α) :=
  ⟨collects_throw cause⟩

instance (r : Reader α) (k : α → Reader β) [Keeps r] [∀ a, Keeps (k a)] : Keeps (r >>= k) :=
  ⟨collects_bind_any fun _ => Keeps.collects⟩

instance (r : Reader α) (g : α → β) [Keeps r] : Keeps (g <$> r) :=
  inferInstanceAs (Keeps (r >>= fun a => pure (g a)))

instance (p : Prop) [Decidable p] (r s : Reader α) [hr : Keeps r] [hs : Keeps s] :
    Keeps (if p then r else s) := by
  split
  · exact hr
  · exact hs

instance : Keeps (get : Reader Feed) :=
  ⟨fun _ hfeed => gives_ok ⟨trivial, hfeed⟩⟩

/-! ## Single steps -/

theorem Feed.Legible.token {f : Feed} (h : f.Legible) : IsLegibleToken f.token := by
  unfold Feed.token
  cases htokens : f.tokens with
  | nil => exact isLegibleToken_empty
  | cons t ts => exact h t (by simp [htokens])

/-- The tokens behind the current one are legible. -/
def Feed.LegibleBehind (f : Feed) : Prop :=
  ∀ t ∈ f.tokens.tail, IsLegibleToken t

theorem Feed.Legible.behind {f : Feed} (h : f.Legible) : f.LegibleBehind :=
  fun t ht => h t (List.mem_of_mem_tail ht)

theorem Feed.LegibleBehind.next {f : Feed} (h : f.LegibleBehind) : Gives Feed.Legible f.next := by
  unfold Feed.next
  split
  · exact gives_error _
  · exact gives_ok h

namespace Reader

theorem collects_token : Collects IsLegibleToken token :=
  fun _ hfeed => gives_ok ⟨hfeed.token, hfeed⟩

instance : Keeps token := by
  unfold token
  infer_instance

theorem legible_bump {f : Feed} (h : f.LegibleBehind) :
    Gives (fun found => found.2.Legible) (bump f) := by
  have hstep : bump f = (fun next => ((), next)) <$> f.next := by
    change (f.next >>= fun next => .ok (next, f)) >>= (fun r => .ok ((), r.1)) = _
    cases f.next <;> rfl
  rw [hstep]
  exact h.next.map fun next hnext => hnext

instance : Keeps bump :=
  ⟨fun _ hfeed => (legible_bump hfeed.behind).imp fun _ hfound => ⟨trivial, hfound⟩⟩

instance (n : Nat) : Keeps (lookAt n) := by
  refine ⟨fun feed hfeed => ?_⟩
  unfold lookAt Feed.lookAt
  split
  · exact gives_ok ⟨trivial, hfeed⟩
  · exact gives_error _
  · exact gives_ok ⟨trivial, hfeed⟩

/-- A legible text may stand in place of the current token. -/
theorem keeps_replace {text : String} (h : IsLegibleToken text) : Keeps (replace text) :=
  ⟨fun _ hfeed => gives_ok ⟨trivial, List.forall_mem_cons.2 ⟨h, hfeed.behind⟩⟩⟩

instance (text : String) : Keeps (atToken text) := by
  unfold atToken
  infer_instance

instance (word : String) : Keeps (atWord word) := by
  unfold atWord
  infer_instance

theorem collects_ofExcept {ε : Type} {wrap : ε → ParseError} {x : Except ε α} (h : Gives P x) :
    Collects P (ofExcept wrap x) := by
  cases x with
  | error cause => exact fun _ _ => gives_error _
  | ok a => exact fun _ hfeed => gives_ok ⟨h a rfl, hfeed⟩

instance {ε : Type} (wrap : ε → ParseError) (x : Except ε α) : Keeps (ofExcept wrap x) :=
  ⟨collects_ofExcept (gives_true x)⟩

theorem collects_unexpected (what : Construct) (wanted : String) :
    Collects P (unexpected what wanted : Reader α) :=
  collects_bind_any fun _ => collects_throw _

theorem collects_misuse (cause : Misuse) : Collects P (misuse cause : Reader α) :=
  collects_bind_any fun _ => collects_throw _

instance (what : Construct) (wanted : String) : Keeps (unexpected what wanted : Reader α) :=
  ⟨collects_unexpected what wanted⟩

instance (cause : Misuse) : Keeps (misuse cause : Reader α) :=
  ⟨collects_misuse cause⟩

instance (text : String) (what : Construct) : Keeps (expect text what) := by
  unfold expect
  infer_instance

/-- Names are read from identifiers. -/
theorem collects_identifier (what : Construct) : Collects IsLegible (identifier what) := by
  refine collects_token.bind fun text htext => ?_
  split
  · exact collects_bind_any fun _ => collects_pure (isLegible_unescapeIdent htext ‹_›)
  · exact collects_unexpected _ _

instance (what : Construct) : Keeps (identifier what) :=
  (collects_identifier what).keeps

/-! ## Lists -/

theorem collects_items {what : Construct} {item : Reader α} (h : Collects P item) (fuel : Nat) :
    Collects (fun found => ∀ a ∈ found, P a) (items what item fuel) := by
  induction fuel with
  | zero => exact collects_unexpected _ _
  | succ fuel ih =>
      refine collects_bind_any fun atEnd => ?_
      split
      · exact collects_pure (by simp)
      · refine h.bind fun a ha => collects_bind_any fun atComma => ?_
        split
        · refine collects_bind_any fun _ => ih.bind fun rest hrest => ?_
          exact collects_pure (List.forall_mem_cons.2 ⟨ha, hrest⟩)
        · refine collects_bind_any fun atEnd => ?_
          split
          · exact collects_pure (by simpa using ha)
          · exact collects_unexpected _ _

theorem collects_parenthesized {what : Construct} {item : Reader α} (h : Collects P item) :
    Collects (fun found => ∀ a ∈ found, P a) (parenthesized what item) := by
  refine collects_bind_any fun _ => collects_bind_any fun feed => ?_
  refine (collects_items h _).bind fun found hfound => collects_bind_any fun _ => ?_
  exact collects_pure hfound

instance (what : Construct) (item : Reader α) [hitem : Keeps item] :
    Keeps (parenthesized what item) :=
  (collects_parenthesized hitem.collects).keeps

instance (allowStar : Bool) : Keeps (label allowStar) := by
  unfold label
  infer_instance

instance (allowStar : Bool) : Keeps (labels allowStar) := by
  unfold labels
  infer_instance

end Reader
end Readers

/-! ## Parts without filters -/

namespace Reader

instance : Keeps continuesString := by
  unfold continuesString
  infer_instance

instance (s : StringExpr) : Keeps (segment s) := by
  unfold segment
  infer_instance

instance (s : StringExpr) (fuel : Nat) : Keeps (stringFrom s fuel) := by
  induction fuel generalizing s with
  | zero =>
      unfold stringFrom
      infer_instance
  | succ fuel ih =>
      unfold stringFrom
      infer_instance

instance : Keeps stringExpr := by
  unfold stringExpr
  infer_instance

instance : Keeps atGrouping := by
  unfold atGrouping
  infer_instance

instance : Keeps grouping := by
  unfold grouping
  infer_instance

/-- Limits have 64 bits. -/
theorem collects_limit : Collects (· < 2 ^ 64) limit := by
  refine collects_bind_any fun _ => collects_bind_any fun text => ?_
  split
  · rename_i n hn
    have hlimit : n < 2 ^ 64 := by simpa using (Option.filter_eq_some_iff.1 hn).2
    exact collects_bind_any fun _ => collects_pure hlimit
  · exact collects_misuse _

instance : Keeps limit :=
  collects_limit.keeps

instance : Keeps atKeepNames := by
  unfold atKeepNames
  infer_instance

instance (op : Operator) : Keeps (boolModifier op) := by
  unfold boolModifier
  infer_instance

instance : Keeps joinLead := by
  unfold joinLead
  infer_instance

instance (op : Operator) : Keeps (join op) := by
  refine ⟨collects_bind_any fun text => ?_⟩
  split <;> exact Keeps.collects

instance (op : Operator) : Keeps (modifiers op) := by
  refine ⟨collects_bind_any fun asBool => collects_bind_any fun text => ?_⟩
  split <;> exact Keeps.collects

/-! ## Durations -/

theorem isLegibleToken_ofList {cs ds : List Char} (h : ∀ c ∈ cs, c.toNat < 0xF0000)
    (hsub : ∀ d ∈ ds, d ∈ cs) (hhead : ∀ d ∈ ds.head?, startsNumeral d = false) :
    IsLegibleToken (String.ofList ds) := by
  constructor
  · intro _ c hc
    rw [String.toList_ofList] at hc
    exact h c (hsub c hc)
  · intro c hc hstart
    rw [String.toList_ofList] at hc
    rw [hhead c hc] at hstart
    cases hstart

/-- What follows the name in its token is a part of an identifier. -/
theorem keeps_durationName {text : String} (h : IsLegibleToken text)
    (hstart : startsIdent text.toList) : Keeps (durationName text) := by
  have hcolon : ∀ c ∈ (text.toList.dropWhile (· != ':')).head?, startsNumeral c = false := by
    intro c hc
    have hnot := List.head?_dropWhile_not (· != ':') text.toList
    rw [Option.mem_def.1 hc] at hnot
    have hsame : c = ':' := by simpa using hnot
    rw [hsame]
    decide
  have hreplace := keeps_replace (isLegibleToken_ofList (h.ident hstart)
    (fun c hc => (List.dropWhile_suffix (· != ':')).subset hc) hcolon)
  unfold durationName
  dsimp only
  split <;> infer_instance

instance : Keeps duration := by
  refine (collects_token.bind (Q := fun _ => True) fun text htext => ?_).keeps
  split
  · exact (keeps_durationName htext ‹_›).collects
  · exact Keeps.collects

/-- The reader goes past the token, whatever that is, to legible ones. -/
def Passes {α : Type} (text : String) (r : Reader α) : Prop :=
  ∀ feed : Feed, feed.token = text → feed.LegibleBehind → Gives (fun found => found.2.Legible) (r feed)

section

variable {α β : Type} {text : String}

theorem Passes.bind {r : Reader α} (h : Passes text r) (k : α → Reader β) [∀ a, Keeps (k a)] :
    Passes text (r >>= k) :=
  fun feed htext hbehind => (h feed htext hbehind).bind fun found hfound =>
    (Keeps.collects found.2 hfound).imp fun _ hlast => hlast.2

theorem passes_bump : Passes text bump :=
  fun _ _ hbehind => legible_bump hbehind

theorem passes_unexpected (what : Construct) (wanted : String) :
    Passes text (unexpected what wanted : Reader α) :=
  fun _ _ _ => gives_error _

/-- A text that starts no name is passed as a duration. -/
theorem passes_duration (h : startsIdent text.toList = false) : Passes text duration := by
  intro feed htext hbehind
  have hread : duration feed = (if startsIdent feed.token.toList then durationName feed.token
      else if isPositiveDuration feed.token then do
        bump
        return ⟨feed.token, false⟩
      else if startsNumber feed.token.toList then do
        let d ← ofExcept .duration (bareSeconds feed.token)
        bump
        return d
      else unexpected .duration "duration") feed := rfl
  rw [hread, htext, h]
  simp only [Bool.false_eq_true, if_false]
  split
  · exact passes_bump.bind _ feed htext hbehind
  · split
    · cases hseconds : bareSeconds text with
      | error cause => exact gives_error _
      | ok d => exact passes_bump.bind (fun _ => pure d) feed htext hbehind
    · exact passes_unexpected _ _ feed htext hbehind

/-- A part of the current token may take its place, where it is passed next. -/
theorem keeps_replace_passes {r : Reader α} (h : Passes text r) : Keeps (replace text >>= fun _ => r) :=
  ⟨fun feed hfeed => (h (feed.replace text) rfl hfeed.behind).imp fun _ hfound => ⟨trivial, hfound⟩⟩

end

/-- What follows the colon in its token is a part of an identifier, or is passed as a duration. -/
instance : Keeps step := by
  refine (collects_token.bind (Q := fun _ => True) fun text htext => ?_).keeps
  split
  · rename_i rest hcolon
    have hstart : startsIdent text.toList := by
      rw [hcolon]
      rfl
    by_cases hnumeral : ∀ c ∈ rest.head?, startsNumeral c = false
    · have hlegible : IsLegibleToken (String.ofList rest) :=
        isLegibleToken_ofList (htext.ident hstart)
          (fun c hc => hcolon ▸ List.mem_cons_of_mem _ hc) hnumeral
      have hreplace := keeps_replace hlegible
      exact Keeps.collects
    · cases rest with
      | nil => exact absurd (by simp) hnumeral
      | cons c rest =>
          have hnumber : startsNumeral c := by simpa using hnumeral
          have hident : startsIdent (String.ofList (c :: rest)).toList = false := by
            rw [String.toList_ofList]
            exact startsIdent_of_startsNumeral hnumber rest
          refine (keeps_replace_passes fun feed htoken hbehind => ?_).collects
          have hbracket : (feed.token == "]") = false := by
            rw [htoken, beq_eq_false_iff_ne, Ne, ← String.toList_inj, String.toList_ofList]
            rintro ⟨⟩
            cases hnumber
          have hread : (do
              if (c :: rest).isEmpty then bump
              if ← atToken "]" then return (none, (c :: rest).isEmpty)
              else return (some (← duration), false) : Reader (Option Duration × Bool)) feed =
              (if feed.token == "]" then pure (none, false)
                else duration >>= fun d => pure (some d, false) : Reader _) feed := rfl
          rw [hread, hbracket]
          exact (passes_duration hident).bind _ feed htoken hbehind
  · exact Keeps.collects

instance : Keeps atColon := by
  unfold atColon
  infer_instance

instance : Keeps window := by
  refine ⟨collects_bind_any fun atBracket => ?_⟩
  split
  · refine collects_bind_any fun _ => collects_bind_any fun width => ?_
    dsimp only
    split <;> exact Keeps.collects
  · exact Keeps.collects

instance : Keeps offset := by
  refine ⟨collects_bind_any fun atOffset => ?_⟩
  split
  · exact collects_bind_any fun _ => Keeps.collects
  · exact Keeps.collects

end Reader

end SeriesQuery
