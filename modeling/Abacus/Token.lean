import Abacus.Span

/-!
# Tokens

A source text is cut into tokens one at a time and on demand.  Blanks between tokens are skipped,
and at each place the longest token is taken.  `Lexer.next?` gives the next token, the token of kind
`finish` once after the last character, and, where no token can start, one error; after either of
these it gives nothing.
-/

namespace Abacus

/-- The kinds of token. -/
inductive TokenKind where
  /-- The end of the input. -/
  | finish
  /-- A plus or minus, of one operand or of two. -/
  | sign
  /-- One of the other operators of two operands. -/
  | operator
  /-- An opening parenthesis. -/
  | leftParen
  /-- A closing parenthesis. -/
  | rightParen
  /-- The equals sign of an assignment. -/
  | equals
  /-- The comma between arguments. -/
  | comma
  /-- A run of ASCII letters. -/
  | ident
  /-- A numeric literal. -/
  | number
deriving DecidableEq

/-- The name of a kind of token in messages. -/
def TokenKind.text : TokenKind → String
  | .finish => "end of input"
  | .sign => "sign"
  | .operator => "operator"
  | .leftParen => "`(`"
  | .rightParen => "`)`"
  | .equals => "`=`"
  | .comma => "`,`"
  | .ident => "identifier"
  | .number => "number"

/-- A token with its characters and its place. -/
structure Token where
  /-- What the token is. -/
  kind : TokenKind
  /-- The characters of the token. -/
  text : String
  /-- Where it stands. -/
  span : Span
deriving DecidableEq

/-! ## Lexemes -/

/-- The characters that may stand between tokens. -/
def isSeparator (c : Char) : Bool :=
  c == ' ' || c == '\t' || c == '\n' || c == '\r' || c == '\x0c'

/-- The digits of a numeral with an optional fraction, or a fraction alone.  A point belongs to it
only if a digit follows. -/
def mantissa? (cs : List Char) : Option (List Char) :=
  let whole := cs.takeWhile Char.isDigit
  let fraction :=
    match cs.dropWhile Char.isDigit with
    | '.' :: rest => rest.takeWhile Char.isDigit
    | _ => []
  if !fraction.isEmpty then some (whole ++ '.' :: fraction)
  else if !whole.isEmpty then some whole
  else none

/-- The exponent at the start of a text: a letter, an optional sign and one or more digits.  It is
empty if there is none. -/
def exponentPart (cs : List Char) : List Char :=
  match cs with
  | letter :: rest =>
    if letter == 'e' || letter == 'E' then
      let sign := rest.head?.toList.filter fun c => c == '+' || c == '-'
      let digits := (rest.drop sign.length).takeWhile Char.isDigit
      if digits.isEmpty then [] else letter :: sign ++ digits
    else []
  | [] => []

/-- The longest numeral at the start of a text. -/
def numeral? (cs : List Char) : Option (List Char) :=
  (mantissa? cs).map fun mantissa => mantissa ++ exponentPart (cs.drop mantissa.length)

/-- The kind of a token that is a single character. -/
def symbolKind? (c : Char) : Option TokenKind :=
  match c with
  | '*' | '/' | '%' | '^' => some .operator
  | '+' | '-' => some .sign
  | '(' => some .leftParen
  | ')' => some .rightParen
  | '=' => some .equals
  | ',' => some .comma
  | _ => none

/-- The kind and the characters of the token at the start of a text. -/
def lexeme? (cs : List Char) : Option (TokenKind × List Char) :=
  match numeral? cs with
  | some numeral => some (.number, numeral)
  | none =>
    match cs.takeWhile Char.isAlpha with
    | [] => do
      let c ← cs.head?
      let kind ← symbolKind? c
      return (kind, [c])
    | letters => some (.ident, letters)

/-! ## The lexer -/

/-- A place in a source text with the text from there on. -/
structure Cursor where
  /-- The text that is left. -/
  rest : List Char
  /-- The bytes before it. -/
  offset : Nat
  /-- The line that it starts on. -/
  line : Nat
deriving DecidableEq

namespace Cursor

/-- The start of a source text. -/
def start (source : List Char) : Cursor := ⟨source, 0, 1⟩

/-- The place after the first `count` characters of what is left. -/
def advance (c : Cursor) (count : Nat) : Cursor :=
  let passed := c.rest.take count
  ⟨c.rest.drop count, c.offset + byteSize passed, c.line + newlines passed⟩

/-- The place of the next character that is no separator. -/
def skipSeparators (c : Cursor) : Cursor :=
  c.advance (c.rest.takeWhile isSeparator).length

/-- The span of the first `count` characters of what is left. -/
def spanOf (c : Cursor) (count : Nat) : Span :=
  ⟨c.offset, byteSize (c.rest.take count), c.line⟩

end Cursor

/-- A source text that is being cut into tokens. -/
structure Lexer where
  /-- Where the next token is looked for. -/
  cursor : Cursor
  /-- The end or an error has been given. -/
  finished : Bool
deriving DecidableEq

/-- The outcome of looking for a token: the token, or the span of the one character that cannot
start a token. -/
abbrev Lexed := Except Span Token

namespace Lexer

/-- A lexer at the start of a source text. -/
def ofSource (source : List Char) : Lexer := ⟨.start source, false⟩

/-- The next token or error, with the lexer after it. -/
def next? (lexer : Lexer) : Option (Lexed × Lexer) :=
  if lexer.finished then none
  else
    let cursor := lexer.cursor.skipSeparators
    if cursor.rest.isEmpty then some (.ok ⟨.finish, "", cursor.spanOf 0⟩, ⟨cursor, true⟩)
    else
      match lexeme? cursor.rest with
      | some (kind, text) =>
        some (.ok ⟨kind, String.ofList text, cursor.spanOf text.length⟩,
          ⟨cursor.advance text.length, false⟩)
      | none => some (.error (cursor.spanOf 1), ⟨cursor, true⟩)

/-- What the lexer gives in at most `count` steps. -/
def take (lexer : Lexer) : Nat → List Lexed
  | 0 => []
  | count + 1 =>
    match lexer.next? with
    | none => []
    | some (item, lexer) => item :: lexer.take count

end Lexer

/-- All tokens of a source text, up to the end or the first error.  Every token has at least one
character, so there are no more of them than characters, and one end or error. -/
def tokenize (source : List Char) : List Lexed :=
  (Lexer.ofSource source).take (source.length + 1)

end Abacus
