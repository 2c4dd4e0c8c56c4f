/-!
# Blanks, Words and Lines

How text files are cut up before anything is read from them.

A blank is a character with the Unicode property White_Space. A line ends at a line feed, which may
have a carriage return in front of it; a last line without a line feed still counts, and an empty
text has no lines. A word is a longest run of characters that are not blank.

The functions work on lists of characters, so that each is a short recursion with a law of its own.

## Main definitions

* `Text.isBlank`: The White_Space property.
* `Text.trim`: A text without the blanks at its ends.
* `Text.words`: The words of a text.
* `Text.lines`: The lines of a text.
* `Text.splitOnce`: A text cut at the first occurrence of a character.
-/

namespace PixelEffects

namespace Text

/-- The code points with the property White_Space, as closed ranges. -/
def blankRanges : List (Nat × Nat) :=
  [(0x09, 0x0D), (0x20, 0x20), (0x85, 0x85), (0xA0, 0xA0), (0x1680, 0x1680), (0x2000, 0x200A),
   (0x2028, 0x2029), (0x202F, 0x202F), (0x205F, 0x205F), (0x3000, 0x3000)]

/-- Whether a character is white space. -/
def isBlank (c : Char) : Bool :=
  blankRanges.any fun r => r.1 ≤ c.toNat && c.toNat ≤ r.2

/-- Drop the blanks at the front. -/
def trimStart (cs : List Char) : List Char :=
  cs.dropWhile isBlank

/-- Drop the blanks at the end. -/
def trimEnd (cs : List Char) : List Char :=
  (cs.reverse.dropWhile isBlank).reverse

/-- Drop the blanks at both ends. -/
def trim (cs : List Char) : List Char :=
  trimEnd (trimStart cs)

/-- The words of a text, given the word that is being read, last character first. -/
def wordsFrom : List Char → List Char → List (List Char)
  | [], [] => []
  | word, [] => [word.reverse]
  | word, c :: cs =>
    if isBlank c then
      match word with
      | [] => wordsFrom [] cs
      | _ :: _ => word.reverse :: wordsFrom [] cs
    else wordsFrom (c :: word) cs

/-- The words of a text: the longest runs without a blank. -/
def words (cs : List Char) : List (List Char) :=
  wordsFrom [] cs

/-- A line without the carriage return at its end, given last character first. -/
def finishLine : List Char → List Char
  | '\r' :: line => line.reverse
  | line => line.reverse

/-- The lines of a text, given the line that is being read, last character first. -/
def linesFrom : List Char → List Char → List (List Char)
  | [], [] => []
  | line, [] => [line.reverse]
  | line, c :: cs =>
    if c == '\n' then finishLine line :: linesFrom [] cs else linesFrom (c :: line) cs

/-- The lines of a text, without their ends. -/
def lines (cs : List Char) : List (List Char) :=
  linesFrom [] cs

/-- The parts before and after the first occurrence of a character. -/
def splitOnce (sep : Char) (cs : List Char) : Option (List Char × List Char) :=
  match cs.dropWhile (· != sep) with
  | [] => none
  | _ :: after => some (cs.takeWhile (· != sep), after)

/-- The parts between occurrences, given the part that is being read, last character first. -/
def splitFrom (sep : Char) : List Char → List Char → List (List Char)
  | part, [] => [part.reverse]
  | part, c :: cs =>
    if c == sep then part.reverse :: splitFrom sep [] cs else splitFrom sep (c :: part) cs

/-- The parts between all occurrences of a character; there is always at least one. -/
def splitAll (sep : Char) (cs : List Char) : List (List Char) :=
  splitFrom sep [] cs

/-- Whether `needle` occurs somewhere in a text. -/
def contains (needle : List Char) : List Char → Bool
  | [] => needle.isEmpty
  | c :: cs => needle.isPrefixOf (c :: cs) || contains needle cs

end Text

end PixelEffects
