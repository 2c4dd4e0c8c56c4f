import PixelEffects.Text.Quoted.Table

/-!
# Quoted Texts

A text between double quotes, written so that a reader can tell what is in it.

A name that comes from the user is shown in this form where it is more likely to be a mistake than
not. A quote or a backslash gets a backslash in front, so the text ends where it seems to end. Line
feeds and the like have a letter each, and any other character that would not be seen is given by
its code point.

## Main definitions

* `Text.escape`: How one character is written.
* `Text.quoted`: How a text is written.
-/

namespace PixelEffects

namespace Text

/-- A code point in hexadecimal digits between braces. -/
def escapeCode (n : Nat) : List Char :=
  ['\\', 'u', '\x7b'] ++ Nat.toDigits 16 n ++ ['\x7d']

/-- How a character is written between double quotes. -/
def escape (c : Char) : List Char :=
  match c with
  | '\x00' => ['\\', '0']
  | '\t' => ['\\', 't']
  | '\n' => ['\\', 'n']
  | '\r' => ['\\', 'r']
  | '"' => ['\\', '"']
  | '\\' => ['\\', '\\']
  | c => if hiddenRanges.covers c.toNat then escapeCode c.toNat else [c]

/-- A text between double quotes. -/
def quoted (s : String) : String :=
  String.ofList ('"' :: s.toList.flatMap escape ++ ['"'])

end Text

end PixelEffects
