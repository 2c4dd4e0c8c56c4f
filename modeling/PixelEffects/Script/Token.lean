import PixelEffects.Number.Numeral

/-!
# Tokens

The words of the script language.

Most tokens have exactly one spelling: the keywords and the punctuation. They are the constructors
of `Mark`, so that the grammar can ask for one by name and a fault can say which one was missing.
The rest carry what was written: names, numbers and texts. The end of the source is a token too,
always the last, which lets the grammar look at the next token without asking whether there is one.

A fault that is reported at a token describes it. Names and numbers are quoted as they are, texts
with their quotes, and a mark by its label.

## Main definitions

* `Mark`: The tokens with one spelling.
* `Mark.spelling`, `Mark.label`: How a mark is written, and what faults call it.
* `Token`: All tokens.
* `Lexeme`: A token and the line that it starts on.
-/

namespace PixelEffects

namespace Script

/-- The tokens with one spelling: keywords, operators and brackets. -/
inductive Mark
  | andWord | breakWord | doWord | elseWord | elseIfWord | endWord | falseWord | forWord
  | functionWord | ifWord | inWord | localWord | nilWord | notWord | orWord | repeatWord
  | returnWord | thenWord | trueWord | untilWord | whileWord
  | plus | minus | star | slash | slashSlash | percent | caret | hash
  | eqEq | ne | lt | le | gt | ge | assign
  | lParen | rParen | lBrace | rBrace | lBracket | rBracket
  | semi | colon | comma | dot | dotDot
deriving Repr, DecidableEq

namespace Mark

/-- How a mark is written in a script. -/
def spelling : Mark → String
  | andWord => "and"
  | breakWord => "break"
  | doWord => "do"
  | elseWord => "else"
  | elseIfWord => "elseif"
  | endWord => "end"
  | falseWord => "false"
  | forWord => "for"
  | functionWord => "function"
  | ifWord => "if"
  | inWord => "in"
  | localWord => "local"
  | nilWord => "nil"
  | notWord => "not"
  | orWord => "or"
  | repeatWord => "repeat"
  | returnWord => "return"
  | thenWord => "then"
  | trueWord => "true"
  | untilWord => "until"
  | whileWord => "while"
  | plus => "+"
  | minus => "-"
  | star => "*"
  | slash => "/"
  | slashSlash => "//"
  | percent => "%"
  | caret => "^"
  | hash => "#"
  | eqEq => "=="
  | ne => "~="
  | lt => "<"
  | le => "<="
  | gt => ">"
  | ge => ">="
  | assign => "="
  | lParen => "("
  | rParen => ")"
  | lBrace => "\x7b"
  | rBrace => "\x7d"
  | lBracket => "["
  | rBracket => "]"
  | semi => ";"
  | colon => ":"
  | comma => ","
  | dot => "."
  | dotDot => ".."

/-- What faults call a mark. -/
def label : Mark → String
  | andWord => "And"
  | breakWord => "Break"
  | doWord => "Do"
  | elseWord => "Else"
  | elseIfWord => "ElseIf"
  | endWord => "End"
  | falseWord => "False"
  | forWord => "For"
  | functionWord => "Function"
  | ifWord => "If"
  | inWord => "In"
  | localWord => "Local"
  | nilWord => "Nil"
  | notWord => "Not"
  | orWord => "Or"
  | repeatWord => "Repeat"
  | returnWord => "Return"
  | thenWord => "Then"
  | trueWord => "True"
  | untilWord => "Until"
  | whileWord => "While"
  | plus => "Plus"
  | minus => "Minus"
  | star => "Star"
  | slash => "Slash"
  | slashSlash => "SlashSlash"
  | percent => "Percent"
  | caret => "Caret"
  | hash => "Hash"
  | eqEq => "EqEq"
  | ne => "Ne"
  | lt => "Lt"
  | le => "Le"
  | gt => "Gt"
  | ge => "Ge"
  | assign => "Assign"
  | lParen => "LParen"
  | rParen => "RParen"
  | lBrace => "LBrace"
  | rBrace => "RBrace"
  | lBracket => "LBracket"
  | rBracket => "RBracket"
  | semi => "Semi"
  | colon => "Colon"
  | comma => "Comma"
  | dot => "Dot"
  | dotDot => "DotDot"

/-- The marks that are written as words. -/
def keywords : List Mark :=
  [andWord, breakWord, doWord, elseWord, elseIfWord, endWord, falseWord, forWord, functionWord,
   ifWord, inWord, localWord, nilWord, notWord, orWord, repeatWord, returnWord, thenWord, trueWord,
   untilWord, whileWord]

/-- The keyword that a word spells, if it is one. -/
def keyword? (word : String) : Option Mark :=
  keywords.find? fun m => m.spelling == word

end Mark

/-- A word of the script language. -/
inductive Token
  | name (word : String)
  | number (value : Float)
  | text (value : String)
  | mark (m : Mark)
  | endOfSource
deriving Repr, Inhabited

namespace Token

/-- How a fault describes the token that it found. -/
def describe : Token → String
  | name word => s!"'{word}'"
  | number value => s!"'{Numeral.positional value}'"
  | text value => s!"'\"{value}\"'"
  | mark m => m.label
  | endOfSource => "'<eof>'"

/-- Whether a token is a given mark. -/
def isMark (t : Token) (m : Mark) : Bool :=
  match t with
  | mark n => n == m
  | _ => false

end Token

/-- A token and the line that it starts on. -/
structure Lexeme where
  token : Token
  line : Nat
deriving Repr, Inhabited

end Script

end PixelEffects
