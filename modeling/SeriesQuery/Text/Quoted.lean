import SeriesQuery.Text.Ident

/-!
# Quoted strings

A string literal stands between double quotes, single quotes or backticks, and a backslash keeps
the quote after it from closing the literal.

* `splitQuoted` — the literal at the start of a text;
* `unquote` — the value of a literal;
* `quote` — a literal in double quotes for a value.
-/

namespace SeriesQuery
namespace Text

/-! ## Errors -/

/-- Why the body of a literal has no value. -/
inductive EscapeFault where
  | illegalChar
  | unexpectedEnd
  | unrecognizedEscape
  | invalidUnicode
  deriving DecidableEq, Repr

namespace EscapeFault

/-- The word for the fault. -/
def name : EscapeFault → String
  | illegalChar => "IllegalChar"
  | unexpectedEnd => "UnexpectedEOF"
  | unrecognizedEscape => "UnrecognizedEscape"
  | invalidUnicode => "InvalidUnicode"

end EscapeFault

/-- Why a text is no string literal. -/
inductive QuoteError where
  /-- The text is a lone quote. -/
  | lone (text : String)
  /-- The opening quote is never closed. -/
  | unclosed (quote : Char) (text : String)
  /-- The text starts with no quote. -/
  | notQuoted (text : String)
  /-- The text does not end with the quote it starts with. -/
  | trailing (text : String)
  /-- The body cannot be read. -/
  | badBody (text : String) (fault : EscapeFault)
  deriving DecidableEq, Repr

namespace QuoteError

/-- What the error says. -/
def message : QuoteError → String
  | lone text => "cannot find end of string in " ++ text
  | unclosed quote text =>
      "cannot find closing quote " ++ quote.toString ++ " for the string " ++ text
  | notQuoted text => "expected string; got " ++ text
  | trailing text => "string literal contains unexpected trailing char; got " ++ text
  | badBody text fault => "cannot parse string literal " ++ text ++ ": " ++ fault.name

end QuoteError

/-! ## Scanning -/

/-- A character that opens a string literal. -/
def isQuote (c : Char) : Bool :=
  c == '"' || c == '\'' || c == '\x60'

/-- A string literal starts here. -/
def startsQuoted : List Char → Bool
  | c :: _ => isQuote c
  | [] => false

/-- The body up to and with the closing quote, and what follows it.  `escaped` tells that the next
character stands behind an unescaped backslash. -/
def splitBody (q : Char) (escaped : Bool) : List Char → Option (List Char × List Char)
  | [] => none
  | c :: rest =>
      if c == q && !escaped then some ([c], rest)
      else (splitBody q (c == '\\' && !escaped) rest).map fun (body, left) => (c :: body, left)

/-- The literal at the start of a text that opens with a quote, and what follows it. -/
def splitQuoted (cs : List Char) : Except QuoteError (List Char × List Char) :=
  match cs with
  | [] => .error (.lone "")
  | [q] => .error (.lone q.toString)
  | q :: rest =>
      match splitBody q false rest with
      | some (body, left) => .ok (q :: body, left)
      | none => .error (.unclosed q (String.ofList cs))

/-! ## Values -/

/-- The letters that stand for a control character behind a backslash. -/
def controlLetter (c : Char) : Option Char :=
  if c == 'a' then some '\x07'
  else if c == 'b' then some '\x08'
  else if c == 'f' then some '\x0c'
  else if c == 'n' then some '\n'
  else if c == 'r' then some '\r'
  else if c == 't' then some '\t'
  else if c == 'v' then some '\x0b'
  else none

/-- The character for a numeral of an escape that is limited to one byte. -/
def byteEscape (base : Nat) (cs : List Char) : Except EscapeFault Char :=
  match readUnsigned base cs with
  | some n => if n < 256 then .ok (Char.ofNat n) else .error .unrecognizedEscape
  | none => .error .unrecognizedEscape

/-- The character for a numeral of an escape by code point. -/
def pointEscape (cs : List Char) : Except EscapeFault Char :=
  match readUnsigned 16 cs with
  | some n =>
      match charOfNat? n with
      | some c => .ok c
      | none => .error .invalidUnicode
  | none => .error .unrecognizedEscape

/-- The value of the body of a literal between quotes `q`. -/
def unescapeBody (q : Char) : List Char → Except EscapeFault (List Char)
  | [] => .ok []
  | c :: rest =>
      if c == q then .error .illegalChar
      else if c != '\\' then (c :: ·) <$> unescapeBody q rest
      else
        match rest with
        | [] => .error .unexpectedEnd
        | d :: tail =>
            if d == '\\' || isQuote d then (d :: ·) <$> unescapeBody q tail
            else if isDigit d then
              match tail with
              | a :: b :: after => do
                  let ch ← byteEscape 8 [d, a, b]
                  (ch :: ·) <$> unescapeBody q after
              | _ => .error .unrecognizedEscape
            else if d == 'x' then
              match tail with
              | a :: b :: after => do
                  let ch ← byteEscape 16 [a, b]
                  (ch :: ·) <$> unescapeBody q after
              | _ => .error .unrecognizedEscape
            else if d == 'u' then
              match tail with
              | a :: b :: e :: f :: after => do
                  let ch ← pointEscape [a, b, e, f]
                  (ch :: ·) <$> unescapeBody q after
              | _ => .error .unrecognizedEscape
            else if d == 'U' then
              match tail with
              | a :: b :: e :: f :: g :: h :: i :: j :: after => do
                  let ch ← pointEscape [a, b, e, f, g, h, i, j]
                  (ch :: ·) <$> unescapeBody q after
              | _ => .error .unrecognizedEscape
            else
              match controlLetter d with
              | some ch => (ch :: ·) <$> unescapeBody q tail
              | none => .error .unrecognizedEscape

/-- The value of the body of a literal between backticks: only the backtick is escaped. -/
def unescapeRaw : List Char → List Char
  | [] => []
  | [c] => [c]
  | c :: d :: rest =>
      if c == '\\' && d == '\x60' then d :: unescapeRaw rest
      else c :: unescapeRaw (d :: rest)

/-- The value of a string literal. -/
def unquote (s : String) : Except QuoteError String :=
  match s.toList with
  | [] => .error (.notQuoted s)
  | q :: rest =>
      if !isQuote q then .error (.notQuoted s)
      else if rest.getLast? != some q then .error (.trailing s)
      else if q == '\x60' then .ok (String.ofList (unescapeRaw rest.dropLast))
      else
        match unescapeBody q rest.dropLast with
        | .ok value => .ok (String.ofList value)
        | .error fault => .error (.badBody s fault)

/-! ## Quoting -/

/-- One character as it stands between double quotes. -/
def quoteChar (c : Char) : List Char :=
  if c == '"' then ['\\', '"']
  else if c == '\\' then ['\\', '\\']
  else if c == '\x07' then ['\\', 'a']
  else if c == '\x08' then ['\\', 'b']
  else if c == '\x0c' then ['\\', 'f']
  else if c == '\n' then ['\\', 'n']
  else if c == '\r' then ['\\', 'r']
  else if c == '\t' then ['\\', 't']
  else if c == '\x0b' then ['\\', 'v']
  else if isPrintable c then [c]
  else if c.toNat < 0x80 then '\\' :: 'x' :: hexPadded 2 c.toNat
  else if c.toNat < 0x10000 then '\\' :: 'u' :: hexPadded 4 c.toNat
  else '\\' :: 'U' :: hexPadded 8 c.toNat

/-- The literal in double quotes for a value. -/
def quote (s : String) : String :=
  String.ofList ('"' :: s.toList.flatMap quoteChar ++ ['"'])

end Text
end SeriesQuery
