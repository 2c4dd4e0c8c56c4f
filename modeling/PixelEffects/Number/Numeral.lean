import PixelEffects.Number.Shortest

/-!
# Numerals

How numbers are written and read.

There are three ways to write one. `positional` is the plain one: the fewest digits that read back
to the same float, never with an exponent, so that a whole number has no point at all. `fixed`
rounds the exact value to a given number of places, and a half goes to the even neighbour.
`scriptText` is what scripts see: as `positional`, but negative zero is written as zero and NaN in
lower case.

Reading accepts an optional sign, then either digits with at most one point and an optional
exponent, or one of the names of the special values in any letter case. `read?` takes the text as
it is; blanks around it are the caller's business. The nearest float is found without ever making
a number of all the digits: those far behind the leading one cannot move it, and an exponent is
not read beyond where it could matter to a numeral of reasonable length.

## Main definitions

* `Numeral.positional`: The fewest digits, without an exponent.
* `Numeral.fixed`: A set number of places.
* `Numeral.scriptText`: A number as a script writes it.
* `Numeral.read?`: The float that a numeral names.
-/

namespace PixelEffects

namespace Numeral

/-- The decimal digits of a natural number. -/
def ofNat (n : Nat) : List Char :=
  Nat.toDigits 10 n

/-- The text of an integer. -/
def ofInt (n : Int) : String :=
  String.ofList (if n < 0 then '-' :: ofNat n.natAbs else ofNat n.natAbs)

/-- Set a point before the last `places` digits, with zeros in front when there are too few. -/
def withPoint (digits : List Char) (places : Nat) : List Char :=
  if places == 0 then digits
  else
    let padded := List.replicate (places + 1 - digits.length) '0' ++ digits
    let whole := padded.length - places
    padded.take whole ++ '.' :: padded.drop whole

/-- Lay out a decimal without an exponent. -/
def layout (d : Decimal) : List Char :=
  if d.exponent ≥ 0 then ofNat (d.digits * Nat.pow 10 d.exponent.toNat)
  else withPoint (ofNat d.digits) (-d.exponent).toNat

/-- Write a float whose magnitude is laid out by `body`. NaN carries no sign. -/
def withSign (body : Dyadic → List Char) (x : Float) : String :=
  match Dyadic.ofFloat? x with
  | none => if x.isNaN then "NaN" else if x < 0 then "-inf" else "inf"
  | some d => String.ofList (if d.negative then '-' :: body d else body d)

/-- The fewest digits that read back to the same float, never with an exponent. -/
def positional (x : Float) : String :=
  withSign (fun d => layout (Decimal.shortest d)) x

/-- A quotient rounded to the nearest natural; a half goes to the even neighbour. -/
def roundHalfEven (num den : Nat) : Nat :=
  let q := num / den
  let r := num % den
  if 2 * r < den then q
  else if 2 * r > den then q + 1
  else if q % 2 == 0 then q else q + 1

/-- The exact value rounded to a number of places. -/
def fixed (places : Nat) (x : Float) : String :=
  withSign (fun d =>
    let rounded := roundHalfEven (d.numerator * Nat.pow 10 places) (Nat.pow 2 d.scale)
    withPoint (ofNat rounded) places) x

/-- A number as a script writes it: negative zero is zero, and NaN is in lower case. -/
def scriptText (x : Float) : String :=
  if x.isNaN then "nan" else if x == 0 then "0" else positional x

/-- The value of a decimal digit. -/
def digitValue (c : Char) : Nat :=
  c.toNat - '0'.toNat

/-- The value of decimal digits, most significant first. -/
def digitsValue (digits : List Char) : Nat :=
  digits.foldl (fun n c => 10 * n + digitValue c) 0

/-- Digits without the zeros in front of them. -/
def significant (digits : List Char) : List Char :=
  digits.dropWhile (· == '0')

/-- Split off the decimal digits at the front. -/
def spanDigits (cs : List Char) : List Char × List Char :=
  (cs.takeWhile Char.isDigit, cs.dropWhile Char.isDigit)

/-- A sign at the front: whether it is a minus, and what follows. -/
def spanSign : List Char → Bool × List Char
  | '-' :: cs => (true, cs)
  | '+' :: cs => (false, cs)
  | cs => (false, cs)

/-- An exponent that has reached this takes no more digits. -/
def exponentLimit : Nat := 0x10000

/-- The value of the digits of an exponent, as far as they are taken. -/
def exponentValue (digits : List Char) : Nat :=
  digits.foldl (fun n c => if n < exponentLimit then 10 * n + digitValue c else n) 0

/-- The exponent part of a numeral: nothing, or a mark with digits after it, up to the end. -/
def readExponent? : List Char → Option Int
  | [] => some 0
  | c :: cs =>
    if c == 'e' || c == 'E' then
      let (negative, rest) := spanSign cs
      match spanDigits rest with
      | ([], _) => none
      | (digits, []) =>
        let n := exponentValue digits
        some (if negative then -(n : Int) else n)
      | (_, _ :: _) => none
    else none

/-- The part of a numeral after its whole digits: the digits behind the point, and what follows. -/
def spanFraction : List Char → List Char × List Char
  | '.' :: cs => spanDigits cs
  | cs => ([], cs)

/-- How many significant digits a numeral is decided by, apart from whether there is anything after
    them. A point halfway between two floats never has more than 768. -/
def digitLimit : Nat := 800

/-- Digits scaled by a power of ten. What follows the first `digitLimit` digits becomes a single
    one, or a zero if there are only zeros, which keeps the decimal on the same side of every point
    halfway between two floats. -/
def condense (digits : List Char) (exponent : Int) : Decimal :=
  let kept := digitsValue (digits.take digitLimit)
  match digits.drop digitLimit with
  | [] => ⟨kept, exponent⟩
  | c :: cs =>
    ⟨10 * kept + (if (c :: cs).all (· == '0') then 0 else 1), exponent + cs.length⟩

/-- The float nearest to digits scaled by a power of ten. Where the leading digit stands settles
    the numerals that are far too large or far too small. -/
def nearestFloat (digits : List Char) (exponent : Int) : Float :=
  let digits := significant digits
  let order := digits.length + exponent
  if digits.isEmpty || order < -400 then 0.0
  else if order > 400 then 1.0 / 0.0
  else
    let d := condense digits exponent
    Float.ofScientific d.digits (d.exponent < 0) d.exponent.natAbs

/-- A numeral without its sign. -/
def readMagnitude? (cs : List Char) : Option Float :=
  let name := cs.map Char.toLower
  if name == ['n', 'a', 'n'] then some (0.0 / 0.0)
  else if name == ['i', 'n', 'f'] || name == ['i', 'n', 'f', 'i', 'n', 'i', 't', 'y'] then
    some (1.0 / 0.0)
  else
    let (whole, rest) := spanDigits cs
    let (fraction, tail) := spanFraction rest
    if whole.isEmpty && fraction.isEmpty then none
    else
      match readExponent? tail with
      | none => none
      | some e => some (nearestFloat (whole ++ fraction) (e - fraction.length))

/-- The float that a numeral names, or `none` when the text is not one. -/
def read? (text : String) : Option Float :=
  let (negative, rest) := spanSign text.toList
  match readMagnitude? rest with
  | none => none
  | some x => some (if negative then -x else x)

end Numeral

end PixelEffects
