import SeriesQuery.Error

/-!
# Token feeds

The grammar is read from the list of tokens of a query.  A failure of scanning ends the list, and is
met only by a step that wants a token from there.  `Feed.ahead` counts how far tokens have been
looked at beyond the current one; it has no other use than to say in messages what is left.
-/

namespace SeriesQuery

open Text

/-- The tokens still to be read. -/
structure Feed where
  /-- The current token and those after it. -/
  tokens : List String
  /-- Why there are no further tokens, unless the query ends there. -/
  failure : Option ScanError
  /-- How many tokens after the current one have been looked at. -/
  ahead : Nat
  deriving DecidableEq, Repr

/-- A step of reading that gives a value or an error. -/
abbrev Reader (α : Type) := StateT Feed (Except ParseError) α

namespace Feed

/-- All tokens of the query; its first token must be there. -/
def ofText (query : String) : Except ParseError Feed :=
  let (lexemes, failure) := Lexeme.ofText query.toList
  match lexemes, failure with
  | [], some cause => .error (.scan cause)
  | lexemes, failure => .ok ⟨lexemes.map Lexeme.text, failure, 0⟩

/-- The current token, empty at the end. -/
def token (f : Feed) : String :=
  f.tokens.head?.getD ""

/-- The place of the current token. -/
def place (f : Feed) : Place :=
  ⟨f.token, f.tokens.length - f.ahead⟩

/-- The feed after the current token. -/
def next (f : Feed) : Except ParseError Feed :=
  match f.tokens, f.failure with
  | [_], some cause => .error (.scan cause)
  | tokens, failure => .ok ⟨tokens.tail, failure, f.ahead - 1⟩

/-- The token `n` places after the current one, which is then known. -/
def lookAt (f : Feed) (n : Nat) : Except ParseError (String × Feed) :=
  match f.tokens[n]?, f.failure with
  | some token, _ => .ok (token, { f with ahead := max f.ahead n })
  | none, some cause => .error (.scan cause)
  | none, none => .ok ("", { f with ahead := max f.ahead n })

/-- The feed with another text in place of the current token. -/
def replace (f : Feed) (token : String) : Feed :=
  { f with tokens := token :: f.tokens.tail }

end Feed

namespace Reader

/-! ## Single steps -/

/-- The current token, empty at the end. -/
def token : Reader String :=
  Feed.token <$> get

/-- Goes on to the next token. -/
def bump : Reader Unit := do
  set (← StateT.lift (← get).next)

/-- The token `n` places after the current one. -/
def lookAt (n : Nat) : Reader String :=
  fun feed => feed.lookAt n

/-- Puts a part of the current token in its place. -/
def replace (text : String) : Reader Unit :=
  modify fun feed => feed.replace text

/-- The current token is this one. -/
def atToken (text : String) : Reader Bool :=
  return (← token) == text

/-- The current token is this word, in any case. -/
def atWord (word : String) : Reader Bool :=
  return sameWord (← token) word

/-! ## Errors -/

/-- A result of another kind of error. -/
def ofExcept {ε α : Type} (wrap : ε → ParseError) (result : Except ε α) : Reader α :=
  StateT.lift (result.mapError wrap)

/-- The current token is not the one that is wanted. -/
def unexpected {α : Type} (what : Construct) (wanted : String) : Reader α := do
  throw (.unexpected what wanted (← get).place)

/-- Words before the current token must not stand there. -/
def misuse {α : Type} (cause : Misuse) : Reader α := do
  throw (.misuse cause (← get).place)

/-! ## Tokens that are wanted -/

/-- Goes past the token, which must be the current one. -/
def expect (text : String) (what : Construct) : Reader Unit := do
  if ← atToken text then bump else unexpected what (shown text)

/-- Goes past an identifier, and gives the name behind it. -/
def identifier (what : Construct) : Reader String := do
  let text ← token
  if startsIdent text.toList then
    bump
    return unescapeIdent text
  else unexpected what "identifier"

/-! ## Lists -/

/-- Items with commas between them, up to the closing parenthesis.  A comma may stand behind the
last item.  Each item takes a token at least, so `fuel` is the number of tokens. -/
def items {α : Type} (what : Construct) (item : Reader α) : Nat → Reader (List α)
  | 0 => unexpected what "\",\" or \")\""
  | fuel + 1 => do
      if ← atToken ")" then return []
      else
        let a ← item
        if ← atToken "," then
          bump
          return a :: (← items what item fuel)
        else if ← atToken ")" then return [a]
        else unexpected what "\",\" or \")\""

/-- Items in parentheses with commas between them. -/
def parenthesized {α : Type} (what : Construct) (item : Reader α) : Reader (List α) := do
  expect "(" what
  let found ← items what item ((← get).tokens.length + 1)
  bump
  return found

/-- A label of a list, or a star where one may stand. -/
def label (allowStar : Bool) : Reader String := do
  if allowStar && (← atToken "*") then
    bump
    return "*"
  else identifier .identList

/-- Labels in parentheses.  A star must stand alone. -/
def labels (allowStar : Bool) : Reader (List String) := do
  let found ← parenthesized .identList (label allowStar)
  if 1 < found.length && found.contains "*" then throw (.starAmong found)
  else return found

end Reader

end SeriesQuery
