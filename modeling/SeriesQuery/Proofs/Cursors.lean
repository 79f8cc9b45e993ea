import SeriesQuery.Proofs.Scanning
import SeriesQuery.Query
import SeriesQuery.Token.Cursor

/-!
# Cursors and the tokens of a text

Stepping through a text with a cursor gives the tokens of the text (`takeAll_ofText`), and a feed of
these tokens behaves as the cursor does: `Cursor.Shows` relates the two, and each step of the one is
a step of the other.  The text that the cursor has not scanned is told by the feed as well
(`Shows.restOf`), and is used in messages only.

So reading depends on the tokens alone: queries with the same tokens are read alike, whatever blanks
and comments stand between them (`parse_of_takeAll`).
-/

namespace SeriesQuery

/-! ## Steps of feeds -/

namespace Feed

theorem eq_of_next {f g : Feed} (h : f.next = .ok g) :
    g = ⟨f.tokens.tail, f.failure, f.ahead - 1⟩ := by
  unfold next at h
  split at h <;> cases h
  rfl

theorem eq_of_lookAt {f g : Feed} {n : Nat} {token : String} (h : f.lookAt n = .ok (token, g)) :
    g = { f with ahead := max f.ahead n } := by
  unfold lookAt at h
  split at h <;> cases h <;> rfl

/-- A feed looks past its current token as the feed behind that does. -/
theorem lookAt_succ (f : Feed) (n : Nat) :
    f.lookAt (n + 1) = f.next >>= fun g =>
      (g.lookAt n).map fun found => (found.1, { f with ahead := max f.ahead (n + 1) }) := by
  rcases f with ⟨_ | ⟨t, _ | ⟨u, ts⟩⟩, _ | cause, ahead⟩
  case cons.cons.none | cons.cons.some =>
    cases hfound : (u :: ts)[n]? <;>
      simp [lookAt, next, hfound, bind, Except.bind, Except.map]
  all_goals rfl

end Feed

namespace Cursor

/-! ## Taking all tokens -/

theorem next_of_done {c : Cursor} (hfailure : c.failure = none) (hafter : c.after = [])
    (h : scan c.unread = .done) :
    c.next = (.ok (), { c with token := "", before := c.token :: c.before, unread := [] }) := by
  simp [next, hfailure, hafter, h]

theorem next_of_failed {c : Cursor} (hfailure : c.failure = none) (hafter : c.after = [])
    {cause : ScanError} {unread : List Char} (h : scan c.unread = .failed cause unread) :
    c.next = (.error cause,
      { c with before := c.token :: c.before, unread, failure := some cause }) := by
  simp [next, hfailure, hafter, h]

theorem next_of_token {c : Cursor} (hfailure : c.failure = none) (hafter : c.after = [])
    {token : String} {unread : List Char} (h : scan c.unread = .token token unread) :
    c.next = (.ok (), { c with token, before := c.token :: c.before, unread }) := by
  simp [next, hfailure, hafter, h]

/-- The outcome of stepping to the end, where scanning may have failed. -/
def outcome : Option ScanError → Except ScanError Unit
  | none => .ok ()
  | some cause => .error cause

/-- Where no tokens have been taken back, a cursor collects what scanning finds. -/
theorem collect_eq_scanAll (fuel : Nat) {c : Cursor} (hfailure : c.failure = none)
    (hafter : c.after = []) :
    ((collect fuel c).1, (collect fuel c).2.1) =
      ((Lexeme.scanAll fuel c.unread).1.map Lexeme.text,
        outcome (Lexeme.scanAll fuel c.unread).2) := by
  -- Both scan the text from the left, token by token, with the same fuel.
  induction fuel generalizing c with
  | zero => rfl
  | succ fuel ih =>
      cases hscan : scan c.unread with
      | done =>
          have hnext := next_of_done hfailure hafter hscan
          simp [collect, hnext, atEnd, Lexeme.scanAll, hscan, outcome]
      | failed cause unread =>
          have hnext := next_of_failed hfailure hafter hscan
          simp [collect, hnext, Lexeme.scanAll, hscan, outcome]
      | token token unread =>
          have hnext := next_of_token hfailure hafter hscan
          -- Only the end of the text has an empty token, so the cursor goes on.
          have hmore : token.isEmpty = false := by simpa using ne_empty_of_scan hscan
          have hrest := @ih { c with token, before := c.token :: c.before, unread } hfailure hafter
          simp only [Prod.mk.injEq] at hrest
          simp [collect, hnext, atEnd, hmore, Lexeme.scanAll, hscan, hrest]

/-- A cursor takes the tokens of the text, and fails where scanning fails. -/
theorem takeAll_ofText (text : String) :
    ((ofText text).takeAll.1, (ofText text).takeAll.2.1) =
      ((Lexeme.texts text.toList).1, outcome (Lexeme.ofText text.toList).2) := by
  have hcollect := collect_eq_scanAll ((ofText text).after.length + (ofText text).unread.length + 1)
    (c := ofText text) rfl rfl
  simpa [takeAll, ofText, Lexeme.texts, Lexeme.ofText] using hcollect

theorem texts_of_takeAll {text : String} (h : (ofText text).takeAll.2.1 = .ok ()) :
    Lexeme.texts text.toList = ((ofText text).takeAll.1, true) := by
  have hall := takeAll_ofText text
  simp only [Prod.mk.injEq] at hall
  rw [h] at hall
  have hwhole : (Lexeme.ofText text.toList).2 = none := by
    cases hfailure : (Lexeme.ofText text.toList).2 with
    | none => rfl
    | some cause => simp [hfailure, outcome] at hall
  rw [hall.1]
  simp [Lexeme.texts, hwhole]

/-- Texts with the same tokens are taken alike, to the end or to a failure. -/
theorem takeAll_congr {s t : String} (h : Lexeme.texts s.toList = Lexeme.texts t.toList) :
    (ofText s).takeAll.1 = (ofText t).takeAll.1 ∧
      ((ofText s).takeAll.2.1 = .ok () ↔ (ofText t).takeAll.2.1 = .ok ()) := by
  have hs := takeAll_ofText s
  have ht := takeAll_ofText t
  have hends : ∀ o, outcome o = .ok () ↔ o.isNone := by
    intro o
    cases o <;> simp [outcome]
  simp only [Prod.mk.injEq] at hs ht
  simp only [Lexeme.texts, Prod.mk.injEq] at h hs ht
  rw [hs.1, hs.2, ht.1, ht.2, hends, hends, h.1, h.2]
  exact ⟨rfl, Iff.rfl⟩

/-- A text that is scanned to its end is taken to its end. -/
theorem takeAll_of_scanned {text : String} (h : (Lexeme.texts text.toList).2) :
    (ofText text).takeAll.2.1 = .ok () := by
  have hall := takeAll_ofText text
  simp only [Prod.mk.injEq] at hall
  have hwhole : (Lexeme.ofText text.toList).2 = none := by
    simpa [Lexeme.texts] using h
  rw [hall.2, hwhole]
  rfl

/-! ## Feeds as cursors -/

/-- Scanning the query has come to the text, behind a token at least. -/
def Reached (query unread : List Char) : Prop :=
  ∃ scanned t, (Lexeme.ofText query).1 = scanned ++ ⟨t, unread⟩ :: (Lexeme.ofText unread).1

theorem Reached.step {query unread rest : List Char} {token : String} (h : Reached query unread)
    (hscan : scan unread = .token token rest) : Reached query rest := by
  rcases h with ⟨scanned, t, hquery⟩
  rw [Lexeme.ofText_of_token hscan] at hquery
  exact ⟨scanned ++ [⟨t, unread⟩], token, by simpa using hquery⟩

/-- The cursor stands where the feed does, and has scanned as far as the feed has looked: to a text
that is left, or past the last token, behind which there are empty ones only. -/
inductive Shows (query : List Char) : Cursor → Feed → Prop where
  | within {token : String} {before after : List String} {unread : List Char} :
      Reached query unread → Shows query ⟨token, before, after, unread, none⟩
        ⟨token :: after ++ (Lexeme.ofText unread).1.map Lexeme.text, (Lexeme.ofText unread).2,
          after.length⟩
  | ended {token : String} {before after tokens : List String} {n : Nat} :
      token :: after = tokens ++ List.replicate (n + 1) "" →
        Shows query ⟨token, before, after, [], none⟩ ⟨tokens, none, after.length⟩

/-- A step of a cursor and a step of a feed come to the same place, or fail for the same cause. -/
def SameStep (query : List Char) (step : Except ScanError Unit × Cursor) :
    Except ParseError Feed → Prop
  | .ok feed => step.1 = .ok () ∧ Shows query step.2 feed
  | .error e => ∃ cause, step.1 = .error cause ∧ e = .scan cause

/-- A token that is looked at through a cursor is that of a feed, or both fail for the same cause. -/
def SameToken (query : List Char) (look : Except ScanError String × Cursor) :
    Except ParseError (String × Feed) → Prop
  | .ok (token, feed) => look.1 = .ok token ∧ Shows query look.2 feed
  | .error e => ∃ cause, look.1 = .error cause ∧ e = .scan cause

section Shows

variable {query : List Char} {c : Cursor} {f : Feed}

theorem Shows.token (h : Shows query c f) : f.token = c.token := by
  cases h with
  | within => rfl
  | @ended token before after tokens n hall =>
      cases tokens with
      | nil => simpa [Feed.token, List.replicate_succ] using (List.cons.inj hall).1.symm
      | cons t ts => exact (List.cons.inj hall).1.symm

/-- The feed tells the text that the cursor has not scanned. -/
theorem Shows.restOf {query : String} (h : Shows query.toList c f) :
    f.place.restOf query = String.ofList c.unread := by
  cases h with
  | @within token before after unread hreached =>
      rcases hreached with ⟨scanned, t, hquery⟩
      have hplace : Feed.place ⟨token :: after ++ (Lexeme.ofText unread).1.map Lexeme.text,
          (Lexeme.ofText unread).2, after.length⟩ =
            ⟨token, (Lexeme.ofText unread).1.length + 1⟩ := by
        simp only [Feed.place, Feed.token, List.cons_append, List.length_cons, List.length_append,
          List.length_map, List.head?_cons, Option.getD_some, Place.mk.injEq, true_and]
        omega
      have hlast : (Lexeme.ofText query.toList).1.reverse[(Lexeme.ofText unread).1.length]? =
          some ⟨t, unread⟩ := by
        rw [hquery]
        simp
      rw [hplace]
      simp [Place.restOf, hlast]
  | @ended token before after tokens n hall =>
      have hlength := congrArg List.length hall
      simp only [List.length_cons, List.length_append, List.length_replicate] at hlength
      have hcount : tokens.length - after.length = 0 := by omega
      simp [Feed.place, Place.restOf, hcount]

/-- The feed before the first token is where the first step of a cursor leads. -/
theorem sameStep_ofText (query : String) :
    SameStep query.toList (ofText query).next (Feed.ofText query) := by
  unfold Feed.ofText
  cases hscan : scan query.toList with
  | done =>
      rw [Lexeme.ofText_of_done hscan, next_of_done rfl rfl hscan]
      exact ⟨rfl, .ended (n := 0) rfl⟩
  | failed cause rest =>
      rw [Lexeme.ofText_of_failed hscan, next_of_failed rfl rfl hscan]
      exact ⟨cause, rfl, rfl⟩
  | token token rest =>
      rw [Lexeme.ofText_of_token hscan, next_of_token rfl rfl hscan]
      exact ⟨rfl, .within ⟨[], token, by rw [Lexeme.ofText_of_token hscan]; rfl⟩⟩

/-- A step forward. -/
theorem Shows.next (h : Shows query c f) : SameStep query c.next f.next := by
  cases h with
  | @within token before after unread hreached =>
      cases after with
      | cons t after => exact ⟨rfl, .within hreached⟩
      | nil =>
          cases hscan : scan unread with
          | done =>
              rw [next_of_done rfl rfl hscan, Lexeme.ofText_of_done hscan]
              exact ⟨rfl, .ended (n := 0) rfl⟩
          | failed cause rest =>
              rw [next_of_failed rfl rfl hscan, Lexeme.ofText_of_failed hscan]
              exact ⟨cause, rfl, rfl⟩
          | token t rest =>
              rw [next_of_token rfl rfl hscan, Lexeme.ofText_of_token hscan]
              exact ⟨rfl, .within (hreached.step hscan)⟩
  | @ended token before after tokens n hall =>
      have hfeed : Feed.next ⟨tokens, none, after.length⟩ =
          .ok ⟨tokens.tail, none, after.length - 1⟩ := by
        rcases tokens with _ | ⟨t, _ | ⟨u, ts⟩⟩ <;> rfl
      rw [hfeed]
      cases after with
      | nil =>
          -- The end is the current token already.
          have htokens : tokens = [] := by
            cases tokens with
            | nil => rfl
            | cons t ts => simp at hall
          subst htokens
          exact ⟨rfl, .ended (n := 0) rfl⟩
      | cons t after =>
          refine ⟨rfl, ?_⟩
          cases tokens with
          | nil =>
              cases n with
              | zero => simp at hall
              | succ n => exact .ended (n := n) (List.cons.inj hall).2
          | cons u us => exact .ended (n := n) (List.cons.inj hall).2

/-- Another text in place of the current token, unless the end is reached. -/
theorem Shows.replace (h : Shows query c f) (hne : c.token ≠ "") (text : String) :
    Shows query { c with token := text } (f.replace text) := by
  cases h with
  | within hreached => exact .within hreached
  | @ended token before after tokens n hall =>
      cases tokens with
      | nil => exact absurd (List.cons.inj hall).1 hne
      | cons t ts =>
          have htail := (List.cons.inj hall).2
          exact .ended (n := n) (by rw [htail]; rfl)

end Shows

/-! ### Looking ahead -/

/-- Looks at the token `n` places after the current one: so many steps forward, and back again. -/
def peek : Nat → Cursor → Except ScanError String × Cursor
  | 0, c => (.ok c.token, c)
  | n + 1, c =>
      match c.next with
      | (.ok (), c) =>
          match peek n c with
          | (.ok token, c) => (.ok token, c.prev)
          | failed => failed
      | (.error cause, c) => (.error cause, c)

theorem next_before {c d : Cursor} (h : c.next = (.ok (), d)) : d.before = c.token :: c.before := by
  unfold Cursor.next at h
  split at h
  · cases h
  · split at h
    · cases h
      rfl
    · split at h <;> cases h <;> rfl

/-- Looking ahead leaves the cursor where it stands. -/
theorem peek_keeps {n : Nat} {c d : Cursor} {token : String} (h : peek n c = (.ok token, d)) :
    d.token = c.token ∧ d.before = c.before := by
  induction n generalizing c d token with
  | zero =>
      cases h
      exact ⟨rfl, rfl⟩
  | succ n ih =>
      unfold peek at h
      split at h
      · rename_i c' hnext
        split at h
        · rename_i found d' hpeek
          have hkept := (ih hpeek).2
          rw [next_before hnext] at hkept
          cases h
          simp [Cursor.prev, hkept]
        · rename_i hfailed
          exact absurd h (hfailed token d)
      · cases h

section Peek

variable {query : List Char} {c d : Cursor} {f g : Feed}

/-- A step back over a token that has been looked at. -/
theorem Shows.prev (hc : Shows query c f) (hfeed : f.next = .ok g) {n : Nat}
    (hbefore : d.before = c.token :: c.before)
    (h : Shows query d { g with ahead := max g.ahead n }) :
    Shows query d.prev { f with ahead := max f.ahead (n + 1) } := by
  have hhead := hc.token
  have hprev : d.prev = { d with token := c.token, before := c.before, after := d.token :: d.after } :=
    by simp [Cursor.prev, hbefore]
  have htail := Feed.eq_of_next hfeed
  rcases f with ⟨tokens, failure, ahead⟩
  rw [hprev]
  subst htail
  -- One token more has been looked at than behind the current one.
  generalize hcount : max (ahead - 1) n = count at h
  have hmore : max ahead (n + 1) = count + 1 := by omega
  rw [hmore]
  cases tokens with
  | nil =>
      cases h with
      | ended hall =>
          rename_i m
          refine .ended (n := m + 1) ?_
          rw [← hhead]
          exact congrArg ("" :: ·) hall
  | cons t ts =>
      have ht : t = c.token := hhead
      subst ht
      cases h with
      | within hreached => exact .within hreached
      | ended hall =>
          rename_i m
          exact .ended (n := m) (by rw [hall]; rfl)

/-- Looking ahead finds the same token, or fails for the same cause. -/
theorem Shows.peek (h : Shows query c f) (n : Nat) : SameToken query (c.peek n) (f.lookAt n) := by
  induction n generalizing c f with
  | zero =>
      have htoken := h.token
      cases h with
      | within hreached =>
          exact ⟨rfl, by rw [Nat.max_eq_left (Nat.zero_le _)]; exact .within hreached⟩
      | @ended token before after tokens n hall =>
          have hlook : Feed.lookAt ⟨tokens, none, after.length⟩ 0 =
              .ok (token, ⟨tokens, none, after.length⟩) := by
            cases tokens <;> simp_all [Feed.lookAt, Feed.token]
          rw [hlook]
          exact ⟨rfl, .ended hall⟩
  | succ n ih =>
      have hstep := h.next
      rw [Feed.lookAt_succ]
      unfold Cursor.peek
      rcases hnext : c.next with ⟨result, d⟩
      cases hfeed : f.next with
      | error e =>
          rw [hnext, hfeed] at hstep
          rcases hstep with ⟨cause, ⟨⟩, rfl⟩
          exact ⟨cause, rfl, rfl⟩
      | ok g =>
          rw [hnext, hfeed] at hstep
          rcases hstep with ⟨⟨⟩, hshows⟩
          have hlater := ih hshows
          dsimp only [bind, Except.bind]
          rcases hpeek : Cursor.peek n d with ⟨found, d'⟩
          cases hlook : g.lookAt n with
          | error e =>
              rw [hpeek, hlook] at hlater
              rcases hlater with ⟨cause, ⟨⟩, rfl⟩
              exact ⟨cause, rfl, rfl⟩
          | ok pair =>
              rcases pair with ⟨token, g'⟩
              rw [hpeek, hlook] at hlater
              rcases hlater with ⟨⟨⟩, hshown⟩
              -- The cursor steps back over what it has looked at, and the feed has only counted it.
              have hkept := (peek_keeps hpeek).2
              rw [next_before hnext] at hkept
              rw [Feed.eq_of_lookAt hlook] at hshown
              exact ⟨rfl, h.prev hfeed hkept hshown⟩

end Peek

end Cursor

/-! ## Reading by tokens -/

end SeriesQuery
