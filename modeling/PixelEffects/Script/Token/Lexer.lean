import PixelEffects.Script.Fault
import PixelEffects.Text.Utf8

/-!
# Reading Tokens

From the characters of a source to its tokens.

Between two tokens there may be blanks and comments, which are skipped. Each scanner below takes the
characters from where it starts and returns what is left, so the source is always the concatenation
of what was skipped, what was read, and the rest. Lines are counted wherever a line feed is passed:
between tokens, in long comments and in long texts. A quoted text cannot hold one.

The loop over the tokens is bounded by the length of the source. Every round takes at least one
character, so the bound is never what ends it.

## Main definitions

* `skipTrivia`: Past the blanks and comments in front of a token.
* `scanNumber`, `scanQuoted`, `scanLong`: The tokens that carry a value.
* `scanToken`: One token.
* `lex`: All tokens of a source, with the end of the source as the last.
-/

namespace PixelEffects

namespace Script

/-- The line after a character. -/
def lineAfter (c : Char) (line : Nat) : Nat :=
  if c == '\n' then line + 1 else line

/-- The blanks that may stand between tokens. -/
def isSpace (c : Char) : Bool :=
  c == ' ' || c == '\t' || c == '\n' || c == '\x0c' || c == '\r'

/-- What kind of trivia is being skipped. -/
inductive Trivia
  | blanks | comment | longComment
deriving Repr, DecidableEq

/-- Skip to the next token: the line there, and the characters from there on. -/
def skipTrivia : Trivia → Nat → List Char → Except SyntaxError (Nat × List Char)
  | .longComment, line, [] => .error ⟨line, .unfinishedComment⟩
  | .longComment, line, ']' :: ']' :: cs => skipTrivia .blanks line cs
  | .longComment, line, c :: cs => skipTrivia .longComment (lineAfter c line) cs
  | .comment, line, '\n' :: cs => skipTrivia .blanks (line + 1) cs
  | .comment, line, _ :: cs => skipTrivia .comment line cs
  | .blanks, line, '-' :: '-' :: '[' :: '[' :: cs => skipTrivia .longComment line cs
  | .blanks, line, '-' :: '-' :: cs => skipTrivia .comment line cs
  | .blanks, line, c :: cs =>
    if isSpace c then skipTrivia .blanks (lineAfter c line) cs else .ok (line, c :: cs)
  | _, line, [] => .ok (line, [])

/-- Characters that can begin a name. -/
def isNameStart (c : Char) : Bool :=
  c.isAlpha || c == '_'

/-- Characters that can continue a name. -/
def isNamePart (c : Char) : Bool :=
  c.isAlphanum || c == '_'

/-- Hexadecimal digits. -/
def isHexDigit (c : Char) : Bool :=
  c.isDigit || ('a' ≤ c && c ≤ 'f') || ('A' ≤ c && c ≤ 'F')

/-- The value of a hexadecimal digit. -/
def hexValue (c : Char) : Nat :=
  if c.isDigit then c.toNat - '0'.toNat
  else if 'a' ≤ c && c ≤ 'f' then c.toNat - 'a'.toNat + 10
  else c.toNat - 'A'.toNat + 10

/-- A hexadecimal number after its mark `0x`. There must be a digit, and the value must fit into 64
    bits. -/
def scanHex (spelledMark : List Char) (cs : List Char) : Except SyntaxCause (Float × List Char) :=
  let digits := cs.takeWhile isHexDigit
  let significant := Numeral.significant digits
  if digits.isEmpty || significant.length > 16 then
    .error (.malformedNumber (String.ofList (spelledMark ++ digits)))
  else
    let value := significant.foldl (fun n c => 16 * n + hexValue c) 0
    .ok (Float.ofNat value, cs.dropWhile isHexDigit)

/-- The point of a number and the digits behind it. Two points are an operator and not taken. -/
def spanPoint : List Char → List Char × List Char
  | '.' :: '.' :: cs => ([], '.' :: '.' :: cs)
  | '.' :: cs =>
    let (digits, rest) := Numeral.spanDigits cs
    ('.' :: digits, rest)
  | cs => ([], cs)

/-- The sign of an exponent, as it is written. -/
def spanWrittenSign : List Char → List Char × List Char
  | '+' :: cs => (['+'], cs)
  | '-' :: cs => (['-'], cs)
  | cs => ([], cs)

/-- The exponent of a number, if there is one; then it must have a digit. -/
def scanExponent : List Char → Except SyntaxCause (List Char × List Char)
  | [] => .ok ([], [])
  | c :: cs =>
    if c == 'e' || c == 'E' then
      let (sign, rest) := spanWrittenSign cs
      match Numeral.spanDigits rest with
      | ([], _) => .error .malformedExponent
      | (digits, rest) => .ok (c :: sign ++ digits, rest)
    else .ok ([], c :: cs)

/-- A decimal number. -/
def scanDecimal (cs : List Char) : Except SyntaxCause (Float × List Char) :=
  let (whole, rest) := Numeral.spanDigits cs
  let (fraction, rest) := spanPoint rest
  match scanExponent rest with
  | .error e => .error e
  | .ok (exponent, rest) =>
    let text := whole ++ fraction ++ exponent
    match Numeral.readMagnitude? text with
    | none => .error (.malformedNumber (String.ofList text))
    | some value => .ok (value, rest)

/-- A number. -/
def scanNumber : List Char → Except SyntaxCause (Float × List Char)
  | '0' :: 'x' :: cs => scanHex ['0', 'x'] cs
  | '0' :: 'X' :: cs => scanHex ['0', 'X'] cs
  | cs => scanDecimal cs

/-- The character that a letter after a backslash stands for. -/
def unescape? : Char → Option Char
  | 'n' => some '\n'
  | 't' => some '\t'
  | 'r' => some '\r'
  | '0' => some '\x00'
  | '\\' => some '\\'
  | '"' => some '"'
  | '\'' => some '\''
  | _ => none

/-- A quoted text up to its closing quote, after the characters already read, which are in
    reverse. -/
def scanQuoted (quote : Char) : List Char → List Char → Except SyntaxCause (String × List Char)
  | _, [] => .error .unfinishedText
  | _, '\n' :: _ => .error .unfinishedText
  | _, ['\\'] => .error .unfinishedText
  | done, '\\' :: letter :: cs =>
    match unescape? letter with
    | some c => scanQuoted quote (c :: done) cs
    | none => .error (.invalidEscape (Char.ofNat (Utf8.leadByte letter)))
  | done, c :: cs =>
    if c == quote then .ok (String.ofList done.reverse, cs) else scanQuoted quote (c :: done) cs

/-- A long text up to its closing brackets: the text, the line there and the rest. -/
def scanLong : List Char → Nat → List Char → Except SyntaxError (String × Nat × List Char)
  | _, line, [] => .error ⟨line, .unfinishedLongText⟩
  | done, line, ']' :: ']' :: cs => .ok (String.ofList done.reverse, line, cs)
  | done, line, c :: cs => scanLong (c :: done) (lineAfter c line) cs

/-- A long text after its opening brackets. A line feed that follows them directly is not part of
    it. -/
def scanLongBody (line : Nat) : List Char → Except SyntaxError (String × Nat × List Char)
  | '\n' :: cs => scanLong [] (line + 1) cs
  | cs => scanLong [] line cs

/-- An operator or bracket. The longer one of two that fit is taken. -/
def scanMark : List Char → Option (Mark × List Char)
  | '=' :: '=' :: cs => some (.eqEq, cs)
  | '~' :: '=' :: cs => some (.ne, cs)
  | '<' :: '=' :: cs => some (.le, cs)
  | '>' :: '=' :: cs => some (.ge, cs)
  | '/' :: '/' :: cs => some (.slashSlash, cs)
  | '.' :: '.' :: cs => some (.dotDot, cs)
  | '+' :: cs => some (.plus, cs)
  | '-' :: cs => some (.minus, cs)
  | '*' :: cs => some (.star, cs)
  | '/' :: cs => some (.slash, cs)
  | '%' :: cs => some (.percent, cs)
  | '^' :: cs => some (.caret, cs)
  | '#' :: cs => some (.hash, cs)
  | '<' :: cs => some (.lt, cs)
  | '>' :: cs => some (.gt, cs)
  | '=' :: cs => some (.assign, cs)
  | '(' :: cs => some (.lParen, cs)
  | ')' :: cs => some (.rParen, cs)
  | '\x7b' :: cs => some (.lBrace, cs)
  | '\x7d' :: cs => some (.rBrace, cs)
  | '[' :: cs => some (.lBracket, cs)
  | ']' :: cs => some (.rBracket, cs)
  | ';' :: cs => some (.semi, cs)
  | ':' :: cs => some (.colon, cs)
  | ',' :: cs => some (.comma, cs)
  | '.' :: cs => some (.dot, cs)
  | _ => none

/-- Whether a number starts here: a digit, or a point with a digit behind it. -/
def startsNumber : List Char → Bool
  | '.' :: d :: _ => d.isDigit
  | c :: _ => c.isDigit
  | [] => false

/-- A token that was read, with the line behind it and the rest of the source. -/
structure Scanned where
  token : Token
  line : Nat
  rest : List Char

/-- One token that starts at the front of the characters. -/
def scanToken (line : Nat) : List Char → Except SyntaxError Scanned
  | [] => .ok ⟨.endOfSource, line, []⟩
  | c :: cs =>
    if startsNumber (c :: cs) then
      match scanNumber (c :: cs) with
      | .ok (value, rest) => .ok ⟨.number value, line, rest⟩
      | .error cause => .error ⟨line, cause⟩
    else if isNameStart c then
      let word := String.ofList ((c :: cs).takeWhile isNamePart)
      let token := match Mark.keyword? word with
        | some m => .mark m
        | none => .name word
      .ok ⟨token, line, (c :: cs).dropWhile isNamePart⟩
    else if c == '"' || c == '\'' then
      match scanQuoted c [] cs with
      | .ok (value, rest) => .ok ⟨.text value, line, rest⟩
      | .error cause => .error ⟨line, cause⟩
    else
      match c, cs with
      | '[', '[' :: cs =>
        match scanLongBody line cs with
        | .ok (value, after, rest) => .ok ⟨.text value, after, rest⟩
        | .error e => .error e
      | _, _ =>
        match scanMark (c :: cs) with
        | some (m, rest) => .ok ⟨.mark m, line, rest⟩
        | none => .error ⟨line, .unexpectedCharacter c⟩

/-- The tokens of the characters, after those already read, which are in reverse. -/
def lexFrom : Nat → List Lexeme → Nat → List Char → Except SyntaxError (List Lexeme)
  | 0, done, _, _ => .ok done.reverse
  | n + 1, done, line, cs =>
    match skipTrivia .blanks line cs with
    | .error e => .error e
    | .ok (line, []) => .ok (⟨.endOfSource, line⟩ :: done).reverse
    | .ok (line, c :: cs) =>
      match scanToken line (c :: cs) with
      | .error e => .error e
      | .ok s => lexFrom n (⟨s.token, line⟩ :: done) s.line s.rest

/-- The tokens of a source, with the end of the source as the last. -/
def lex (source : String) : Except SyntaxError (List Lexeme) :=
  let cs := source.toList
  lexFrom (cs.length + 1) [] 1 cs

end Script

end PixelEffects
