/-!
# Exact Values of Floats

A finite float is an integer scaled by a power of two, and every question that a script can ask
about one (is it whole, where does it truncate, which byte is it nearest to) is a question about
that exact number.

Working on the exact number is what makes the answers provable. The rounding operations on
`Float` are opaque, so nothing can be said about them; truncation and rounding are defined here in
integer arithmetic instead, from the bits of the float. The same goes for the remainder, which
`Float` does not have at all: a remainder of two floats is itself representable, so it is computed
exactly and converted back without a rounding step.

## Main definitions

* `Dyadic`: A sign, a significand and a power of two.
* `Dyadic.ofFloat?`: The exact value of a finite float.
* `Dyadic.truncate`: The integer part, toward zero.
* `Dyadic.nearest`: The nearest integer, halves away from zero.
* `Number.clampedTruncate`: The integer part of any float, held inside a range.
* `Number.remainder`: The remainder of a division that truncates.
-/

namespace PixelEffects

/-- A finite float as an exact number, `significand * 2 ^ exponent` with a sign. -/
structure Dyadic where
  negative : Bool
  significand : Nat
  exponent : Int
deriving Repr, DecidableEq

namespace Dyadic

/-- The exact value of a float, or `none` for an infinity or NaN. -/
def ofFloat? (x : Float) : Option Dyadic :=
  let bits := x.toBits
  let biased := ((bits >>> 52) &&& 0x7FF).toNat
  let fraction := (bits &&& 0xFFFFFFFFFFFFF).toNat
  let negative := bits >>> 63 == 1
  if biased == 0x7FF then none
  else if biased == 0 then some ⟨negative, fraction, -1074⟩
  else some ⟨negative, Nat.pow 2 52 + fraction, (biased : Int) - 1075⟩

/-- Put the sign of a number on a magnitude. -/
def signed (d : Dyadic) (magnitude : Nat) : Int :=
  if d.negative then -(magnitude : Int) else magnitude

/-- The magnitude as a fraction: its numerator over `2 ^ scale`. -/
def numerator (d : Dyadic) : Nat :=
  d.significand * Nat.pow 2 d.exponent.toNat

/-- How many binary places the magnitude has. -/
def scale (d : Dyadic) : Nat :=
  (-d.exponent).toNat

/-- The integer part, toward zero. -/
def truncate (d : Dyadic) : Int :=
  d.signed (d.numerator / Nat.pow 2 d.scale)

/-- The nearest integer; a half goes away from zero. -/
def nearest (d : Dyadic) : Int :=
  d.signed ((2 * d.numerator + Nat.pow 2 d.scale) / (2 * Nat.pow 2 d.scale))

end Dyadic

namespace Number

/-- The end of `lo .. hi` on the side of an infinity, and zero for NaN. -/
def clampSpecial (lo hi : Int) (x : Float) : Int :=
  if x.isNaN then 0 else if x < 0 then lo else hi

/-- The integer part of a float, held inside `lo .. hi`. An infinity goes to the end on its side,
    and NaN to zero. -/
def clampedTruncate (lo hi : Int) (x : Float) : Int :=
  match Dyadic.ofFloat? x with
  | none => clampSpecial lo hi x
  | some d => max lo (min hi d.truncate)

/-- The nearest integer to a float, halves away from zero, held inside `lo .. hi`. -/
def clampedNearest (lo hi : Int) (x : Float) : Int :=
  match Dyadic.ofFloat? x with
  | none => clampSpecial lo hi x
  | some d => max lo (min hi d.nearest)

/-- The integer part held inside 64 signed bits. -/
def toInt64 (x : Float) : Int :=
  clampedTruncate (-0x8000000000000000) 0x7fffffffffffffff x

/-- The integer part held inside 64 unsigned bits: a count or a position. -/
def toCount (x : Float) : Nat :=
  (clampedTruncate 0 0xffffffffffffffff x).toNat

/-- A magnitude scaled by a power of two, as a float with the given sign. It is exact for a
    magnitude below `2 ^ 53`. -/
def ofScaled (negative : Bool) (magnitude : Nat) (exponent : Int) : Float :=
  let x := (Float.ofNat magnitude).scaleB exponent
  if negative then -x else x

/-- The remainder of `a` divided by `b`, with the quotient truncated: it has the sign of `a` and a
    smaller magnitude than `b`. Both are brought to one exponent, where the remainder is one of
    naturals. -/
def remainder (a b : Float) : Float :=
  match Dyadic.ofFloat? a, Dyadic.ofFloat? b with
  | some da, some db =>
    if db.significand == 0 then 0.0 / 0.0
    else
      let e := min da.exponent db.exponent
      let m := da.significand * Nat.pow 2 (da.exponent - e).toNat
      let n := db.significand * Nat.pow 2 (db.exponent - e).toNat
      ofScaled da.negative (m % n) e
  | some _, none => if b.isNaN then b else a
  | none, _ => 0.0 / 0.0

end Number

end PixelEffects
