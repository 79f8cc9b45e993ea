import SeriesQuery.Proofs.Cursors

/-!
# Walks of cursors

A cursor that goes forwards and backwards is an index into the tokens of its text: whatever the
moves have been, it stands at the token with the number that the moves count to (`walk_ofText`).  A
step forward fails at the place where scanning fails and nowhere before (`next_fails_iff`), and
from then on each one fails for the same cause.

The tokens that the cursor keeps and those it has not scanned yet are one row, which no move
changes: moves only shift the place of the current token in it (`At`).
-/

namespace SeriesQuery
namespace Cursor

/-! ## Moves -/

/-- A call that moves a cursor. -/
inductive Move where
  | next
  | prev
  deriving DecidableEq, Repr

/-- The number of the token after a move, where that before it is given. -/
def Move.count (i : Nat) : Move → Nat
  | .next => i + 1
  | .prev => i - 1

/-- The results of the steps forward, in their order, and where the moves lead. -/
def walk (c : Cursor) : List Move → List (Except ScanError Unit) × Cursor
  | [] => ([], c)
  | .next :: moves => (c.next.1 :: (walk c.next.2 moves).1, (walk c.next.2 moves).2)
  | .prev :: moves => walk c.prev moves

/-- The text of the token with the number.  Number 0 and the numbers past the last token are the
empty one's. -/
def tokenAt (text : String) : Nat → String
  | 0 => ""
  | i + 1 => ((Lexeme.ofText text.toList).1[i]?.map Lexeme.text).getD ""

/-! ## The row of tokens -/

/-- All tokens around the current one: those before it, itself, those it has been taken back over,
and those that have not been scanned. -/
def row (c : Cursor) : List String :=
  c.before.reverse ++ c.token :: (c.after ++ (Lexeme.ofText c.unread).1.map Lexeme.text)

/-- The cursor has not failed and stands at the token with the number.  Its row are the tokens of
the text between empty ones; there are none at the end where scanning fails. -/
structure At (text : String) (i : Nat) (c : Cursor) : Prop where
  sound : c.failure = none
  passed : c.before.length = i
  row : ∃ n, c.row = "" :: (Lexeme.ofText text.toList).1.map Lexeme.text ++ List.replicate n "" ∧
    ((Lexeme.ofText text.toList).2.isSome → n = 0)
  rest : (Lexeme.ofText c.unread).2 = (Lexeme.ofText text.toList).2

variable {text : String} {i : Nat} {c : Cursor}

theorem at_ofText (text : String) : At text 0 (ofText text) :=
  ⟨rfl, rfl, ⟨0, by simp [Cursor.row, ofText], fun _ => rfl⟩, rfl⟩

theorem getElem?_row (c : Cursor) : c.row[c.before.length]? = some c.token := by
  simp [row]

theorem At.token (h : At text i c) : c.token = tokenAt text i := by
  rcases h.row with ⟨n, hrow, -⟩
  have hcurrent := c.getElem?_row
  rw [h.passed, hrow] at hcurrent
  cases i with
  | zero => simpa [tokenAt] using hcurrent.symm
  | succ i =>
      rw [List.cons_append, List.getElem?_cons_succ, List.getElem?_append] at hcurrent
      split at hcurrent
      · rename_i hlt
        simp only [List.getElem?_map] at hcurrent
        simp [tokenAt, hcurrent]
      · rename_i hge
        rw [List.length_map] at hge
        rw [List.getElem?_replicate] at hcurrent
        have hpast := List.getElem?_eq_none (Nat.le_of_not_lt hge)
        simp only [tokenAt, hpast]
        split at hcurrent <;> simp_all

/-- A step forward leads to the next number, or it fails for the cause that scanning fails for,
and the current token is the last. -/
theorem At.next (h : At text i c) :
    (c.next.1 = .ok () ∧ At text (i + 1) c.next.2) ∨
      ∃ cause, c.next.1 = .error cause ∧ c.next.2.failure = some cause ∧
        (Lexeme.ofText text.toList).2 = some cause ∧
          i = (Lexeme.ofText text.toList).1.length := by
  rcases c with ⟨token, before, after, unread, failure⟩
  obtain ⟨rfl, hpassed, ⟨n, hrow, hends⟩, hrest⟩ := h
  have hlength : (token :: before).length = i + 1 := by simpa using hpassed
  cases after with
  | cons t after =>
      refine .inl ⟨rfl, rfl, hlength, ⟨n, ?_, hends⟩, hrest⟩
      simpa [Cursor.row, Cursor.next] using hrow
  | nil =>
      cases hscan : scan unread with
      | token t rest =>
          rw [next_of_token rfl rfl hscan]
          simp only [Cursor.row, Lexeme.ofText_of_token hscan] at hrow hrest
          exact .inl ⟨rfl, rfl, hlength, ⟨n, by simpa [Cursor.row] using hrow, hends⟩, hrest⟩
      | done =>
          rw [next_of_done rfl rfl hscan]
          simp only [Cursor.row, Lexeme.ofText_of_done hscan] at hrow hrest
          -- The end of the text is one more empty token, and scanning does not fail before it.
          refine .inl ⟨rfl, rfl, hlength, ⟨n + 1, ?_, ?_⟩, hrest⟩
          · have hlonger := congrArg (· ++ [""]) hrow
            simpa [Cursor.row, Lexeme.ofText, Lexeme.scanAll, scan, skipGap, skipGapFrom,
              List.replicate_succ'] using hlonger
          · simp [← hrest]
      | failed cause rest =>
          rw [next_of_failed rfl rfl hscan]
          simp only [Cursor.row, Lexeme.ofText_of_failed hscan] at hrow hrest
          have hnone := hends (by simp [← hrest])
          have hall := congrArg List.length hrow
          simp only [hnone, List.map_nil, List.append_nil, List.length_append, List.length_reverse,
            List.length_cons, List.length_nil, List.length_map, List.replicate_zero] at hall hpassed
          exact .inr ⟨cause, rfl, rfl, hrest.symm, by omega⟩

/-- A step back leads to the number before, or stays at the start. -/
theorem At.prev (h : At text i c) : At text (i - 1) c.prev := by
  rcases c with ⟨token, before, after, unread, failure⟩
  obtain ⟨rfl, hpassed, ⟨n, hrow, hends⟩, hrest⟩ := h
  cases before with
  | nil =>
      cases hpassed
      exact ⟨rfl, rfl, ⟨n, hrow, hends⟩, hrest⟩
  | cons t before =>
      subst hpassed
      exact ⟨rfl, rfl, ⟨n, by simpa [Cursor.prev, Cursor.row] using hrow, hends⟩, hrest⟩

/-! ## Walks -/

/-- As long as no step fails, the moves count the number of the current token. -/
theorem At.walk (h : At text i c) {moves : List Move}
    (hok : ∀ result ∈ (c.walk moves).1, result = .ok ()) :
    At text (moves.foldl Move.count i) (c.walk moves).2 := by
  induction moves generalizing c i with
  | nil => exact h
  | cons move moves ih =>
      cases move with
      | prev => exact ih h.prev hok
      | next =>
          have hparts := List.forall_mem_cons.1 hok
          rcases h.next with ⟨-, hnext⟩ | ⟨cause, hfails, -⟩
          · exact ih hnext hparts.2
          · rw [hfails] at hparts
            cases hparts.1

theorem failure_prev (c : Cursor) : c.prev.failure = c.failure := by
  unfold prev
  split <;> rfl

/-- A failure stays, and each step forward gives it again. -/
theorem walk_of_failure {cause : ScanError} (h : c.failure = some cause) (moves : List Move) :
    (c.walk moves).2.failure = some cause ∧
      ∀ result ∈ (c.walk moves).1, result = .error cause := by
  induction moves generalizing c with
  | nil => exact ⟨h, nofun⟩
  | cons move moves ih =>
      cases move with
      | prev => exact ih (c.failure_prev.trans h)
      | next =>
          have hnext : c.next = (.error cause, c) := by simp [Cursor.next, h]
          have hlater := ih h
          simp only [walk, hnext]
          exact ⟨hlater.1, List.forall_mem_cons.2 ⟨rfl, hlater.2⟩⟩

/-- A step forward that fails leaves its failure behind. -/
theorem failure_of_next {cause : ScanError} (h : c.next.1 = .error cause) :
    c.next.2.failure = some cause := by
  unfold Cursor.next at h ⊢
  split at h
  · rename_i hfailure
    cases h
    exact hfailure
  · split at h
    · cases h
    · split at h
      · cases h
      · cases h
      · cases h
        simp_all

theorem failure_of_walk {cause : ScanError} {moves : List Move}
    (h : .error cause ∈ (c.walk moves).1) : (c.walk moves).2.failure = some cause := by
  induction moves generalizing c with
  | nil => cases h
  | cons move moves ih =>
      cases move with
      | prev => exact ih h
      | next =>
          rcases List.mem_cons.1 h with hfirst | hlater
          · exact (walk_of_failure (failure_of_next hfirst.symm) moves).1
          · exact ih hlater

/-- After moves none of which has failed, a step forward fails where scanning the text fails, which
is behind the last token, and for the same cause. -/
theorem next_fails_iff {moves : List Move}
    (hok : ∀ result ∈ ((ofText text).walk moves).1, result = .ok ()) {cause : ScanError} :
    ((ofText text).walk moves).2.next.1 = .error cause ↔
      (Lexeme.ofText text.toList).2 = some cause ∧
        moves.foldl Move.count 0 = (Lexeme.ofText text.toList).1.length := by
  have hat := (at_ofText text).walk hok
  constructor
  · intro hfails
    rcases hat.next with ⟨hnext, -⟩ | ⟨found, hnext, -, hwhole⟩
    · rw [hnext] at hfails
      cases hfails
    · rw [hnext] at hfails
      cases hfails
      exact hwhole
  · rintro ⟨hcause, hlast⟩
    rcases hat.next with ⟨-, hnext⟩ | ⟨found, hnext, -, hfound, -⟩
    · -- There is no token behind the last one.
      rcases hnext.row with ⟨n, hrow, hends⟩
      have hnone := hends (by simp [hcause])
      have hcurrent := getElem?_row ((ofText text).walk moves).2.next.2
      rw [hnext.passed, hrow, hlast, hnone] at hcurrent
      simp at hcurrent
    · rw [hnext]
      rw [hcause] at hfound
      cases hfound
      rfl

/-- A cursor is an index into the tokens of its text.  As long as no step forward has failed, the
current token is the one with the number that the moves count to.  After a failure every step
forward fails for the same cause, whatever steps back are made in between. -/
theorem walk_ofText (text : String) (moves : List Move) :
    ((∀ result ∈ ((ofText text).walk moves).1, result = .ok ()) →
      ((ofText text).walk moves).2.token = tokenAt text (moves.foldl Move.count 0)) ∧
    ∀ (cause : ScanError) (later : List Move), .error cause ∈ ((ofText text).walk moves).1 →
      ∀ result ∈ (((ofText text).walk moves).2.walk later).1, result = .error cause :=
  ⟨fun hok => ((at_ofText text).walk hok).token,
    fun _ later hfailed => (walk_of_failure (failure_of_walk hfailed) later).2⟩

/-- A step back over the first two tokens and past the start, and forward to the third; the fourth
is the last before a character that starts none. -/
theorem walk_ofText_rewound :
    let text := "m[5m] ~"
    let moves : List Move := [.next, .next, .prev, .next, .prev, .prev, .prev, .next, .next, .next]
    let last := ((ofText text).walk (moves ++ [.next, .next])).2
    (∀ result ∈ ((ofText text).walk moves).1, result = .ok ()) ∧
      ((ofText text).walk moves).2.token = "5m" ∧
      ∀ result ∈ (last.walk [.prev, .prev, .next, .prev, .next]).1,
        result = .error (.unknown "~") :=
  have hok : ∀ result ∈ ((ofText "m[5m] ~").walk
      [.next, .next, .prev, .next, .prev, .prev, .prev, .next, .next, .next]).1,
        result = .ok () := by
    decide +kernel
  ⟨hok, ((walk_ofText "m[5m] ~" _).1 hok).trans (by decide +kernel),
    (walk_ofText "m[5m] ~" _).2 (.unknown "~") _ (by decide +kernel)⟩

end Cursor
end SeriesQuery
