import SeriesQuery.Token.Basic

/-!
# Cursors

A cursor walks the tokens of a text by hand, forwards and backwards.  Tokens that it has been taken
back over are kept and not scanned again, and a failure stays: after it no further step forward
succeeds.
-/

namespace SeriesQuery

/-- A place among the tokens of a text.  The empty token is the current one before the first step
and at the end of the text. -/
structure Cursor where
  token : String
  /-- The tokens before the current one, the nearest first. -/
  before : List String
  /-- Tokens after the current one that have been scanned already, the nearest first. -/
  after : List String
  /-- The text that has not been scanned. -/
  unread : List Char
  failure : Option ScanError

namespace Cursor

/-- The cursor before the first token. -/
def ofText (text : String) : Cursor :=
  ⟨"", [], [], text.toList, none⟩

/-- The cursor stands on no token. -/
def atEnd (c : Cursor) : Bool :=
  c.token.isEmpty

/-- One step forward.  The cursor is given back also when the step fails. -/
def next (c : Cursor) : Except ScanError Unit × Cursor :=
  match c.failure with
  | some cause => (.error cause, c)
  | none =>
      let before := c.token :: c.before
      match c.after with
      | token :: after => (.ok (), { c with token, before, after })
      | [] =>
          match scan c.unread with
          | .token token unread => (.ok (), { c with token, before, unread })
          | .done => (.ok (), { c with token := "", before, unread := [] })
          | .failed cause unread => (.error cause, { c with before, unread, failure := some cause })

/-- One step back, unless the cursor stands before the first token. -/
def prev (c : Cursor) : Cursor :=
  match c.before with
  | [] => c
  | token :: before => { c with token, before, after := c.token :: c.after }

/-- Steps forward to the end or to a failure, collecting the tokens; at most `fuel` steps. -/
def collect : Nat → Cursor → List String × Except ScanError Unit × Cursor
  | 0, c => ([], .ok (), c)
  | fuel + 1, c =>
      match c.next with
      | (.error cause, c) => ([], .error cause, c)
      | (.ok (), c) =>
          if c.atEnd then ([], .ok (), c)
          else
            let (tokens, result, last) := collect fuel c
            (c.token :: tokens, result, last)

/-- Steps forward to the end or to a failure, collecting the tokens. -/
def takeAll (c : Cursor) : List String × Except ScanError Unit × Cursor :=
  collect (c.after.length + c.unread.length + 1) c

end Cursor

end SeriesQuery
