import PixelEffects.Script.Library.Argument
import PixelEffects.Text.Case
import PixelEffects.Text.Utf8

/-!
# Functions on Texts

Repeating, cutting and formatting.

Positions in a text count bytes from one, and negative ones count from the end. A cut may fall
inside a character; what is left of it is repaired.

A format is a text with conversions in it. A conversion is a percent sign, an optional precision
and a letter, and each takes the next argument, except that a doubled percent sign takes none. The
precision matters for one letter only, but is read before all of them.

## Main definitions

* `Texts.repeated?`: A text several times over.
* `Texts.sub`: The part of a text between two positions.
* `Texts.Directive`, `Texts.directive?`: One element of a format.
* `Texts.format?`: A format with its arguments filled in.
* `Texts.shown`: What a format shows the places of.
-/

namespace PixelEffects

namespace Script

namespace Texts

/-- A text several times over, after what was built already. -/
def repeatOnto (s : String) : Nat → String → String
  | 0, built => built
  | n + 1, built => repeatOnto s n (built ++ s)

/-- A text several times over. -/
def repeated? (s : String) (n : Nat) : Except LibraryCause String :=
  if s.isEmpty then .ok ""
  else if s.utf8ByteSize * n > maxTextLength then .error .resultTooLarge
  else .ok (repeatOnto s n "")

/-- The first position of a cut, in a text of `length` bytes. -/
def firstPosition (length : Nat) (i : Float) : Int :=
  let i := Number.toInt64 i
  if i < 0 then max 1 (length + i + 1) else max 1 i

/-- The last position of a cut. -/
def lastPosition (length : Nat) (j : Float) : Int :=
  let j := Number.toInt64 j
  if j < 0 then max 0 (length + j + 1) else min j length

/-- The part of a text from one position to another, to the end when there is none. -/
def sub (s : String) (i : Float) (j : Option Float) : String :=
  let first := firstPosition s.utf8ByteSize i
  let last := match j with
    | some j => lastPosition s.utf8ByteSize j
    | none => s.utf8ByteSize
  if first > last then "" else Utf8.slice s (first - 1).toNat last.toNat

/-- The letters of conversions. -/
inductive Conversion
  | integer | hex | fixed | display
deriving Repr, DecidableEq

/-- The conversion that a letter names. -/
def Conversion.ofLetter? : Char → Option Conversion
  | 'd' | 'i' => some .integer
  | 'x' => some .hex
  | 'f' => some .fixed
  | 's' => some .display
  | _ => none

/-- One element of a format. -/
inductive Directive
  | literal (c : Char)
  | percent
  | convert (conversion : Conversion) (precision : Option Nat)
deriving Repr, DecidableEq

/-- The value of the digits of a precision. One that does not fit into 64 bits counts as zero. -/
def precisionValue (digits : List Char) : Nat :=
  let digits := Numeral.significant digits
  if digits.length > 20 then 0
  else
    let n := Numeral.digitsValue digits
    if n < Nat.pow 2 64 then n else 0

/-- The precision of a conversion, if there is one, and what follows. -/
def precision? : List Char → Except LibraryCause (Option Nat × List Char)
  | '.' :: cs =>
    let (digits, rest) := Numeral.spanDigits cs
    let n := precisionValue digits
    if n > 99 then .error .precisionTooLong else .ok (some n, rest)
  | cs => .ok (none, cs)

/-- The element of a format that starts with a percent sign, given what follows the sign. -/
def marked? (cs : List Char) : Except LibraryCause (Directive × List Char) := do
  match ← precision? cs with
  | (_, []) => .error (.conversion none)
  | (precision, c :: rest) =>
    if c == '%' then pure (.percent, rest)
    else
      match Conversion.ofLetter? c with
      | some conversion => pure (.convert conversion precision, rest)
      | none => .error (.conversion (some c))

/-- The element of a format that starts with a character, and what follows it. -/
def directive? (c : Char) (cs : List Char) : Except LibraryCause (Directive × List Char) :=
  if c == '%' then marked? cs else .ok (.literal c, cs)

/-- The hexadecimal digits of an integer of 64 bits. -/
def hexText (n : Int) : String :=
  String.ofList (Nat.toDigits 16 (n % 0x10000000000000000).toNat)

/-- A number to be converted. The format is the first argument, so positions are one off. -/
def numberAt? (args : List Value) (i : Nat) : Except LibraryCause Float :=
  Argument.number? .format args (i + 1)

/-- The text of one converted argument. The arguments include the format itself. -/
def converted? (address : Addressing) (args : List Value) (i : Nat) (conversion : Conversion)
    (precision : Option Nat) : Except LibraryCause String :=
  match conversion with
  | .integer => do pure (Numeral.ofInt (Number.toInt64 (← numberAt? args i)))
  | .hex => do pure (hexText (Number.toInt64 (← numberAt? args i)))
  | .fixed => do pure (Numeral.fixed (precision.getD 6) (← numberAt? args i))
  | .display => .ok ((Argument.value args (i + 1)).display address)

/-- A format filled in, after what was built already and with `i` arguments taken, in at most as
    many elements as `bound`. -/
def formatFrom? (address : Addressing) (args : List Value) :
    Nat → String → Nat → List Char → Except LibraryCause String
  | 0, built, _, _ => .ok built
  | _, built, _, [] => .ok built
  | bound + 1, built, i, c :: cs => do
    match ← directive? c cs with
    | (.literal c, rest) => formatFrom? address args bound (built.push c) i rest
    | (.percent, rest) => formatFrom? address args bound (built.push '%') i rest
    | (.convert conversion precision, rest) =>
      let built := built ++ (← converted? address args i conversion precision)
      if built.utf8ByteSize > maxTextLength then .error .textTooLong
      else formatFrom? address args bound built (i + 1) rest

/-- What a format shows the places of, from some of its elements on and with `i` arguments taken: the
    arguments that it displays, as far as it can be read. -/
def shownFrom (args : List Value) : Nat → Nat → List Char → List Resident
  | 0, _, _ => []
  | _, _, [] => []
  | bound + 1, i, c :: cs =>
    match directive? c cs with
    | .ok (.convert .display _, rest) =>
      (Argument.value args (i + 1)).resident?.toList ++ shownFrom args bound (i + 1) rest
    | .ok (.convert _ _, rest) => shownFrom args bound (i + 1) rest
    | .ok (_, rest) => shownFrom args bound i rest
    | .error _ => []

/-- What a format shows the places of among the arguments that follow it. -/
def shown (args : List Value) : List Resident :=
  match Argument.text? .format args 0 with
  | .ok format => shownFrom args format.toList.length 0 format.toList
  | .error _ => []

/-- A format filled in with the arguments that follow it. -/
def format? (address : Addressing) (args : List Value) : Except LibraryCause String := do
  let format ← Argument.text? .format args 0
  let cs := format.toList
  formatFrom? address args cs.length "" 0 cs

end Texts

end Script

end PixelEffects
