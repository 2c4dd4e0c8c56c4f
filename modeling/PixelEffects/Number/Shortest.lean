import PixelEffects.Number.Dyadic

/-!
# Shortest Decimals

The decimal with the fewest digits that still names one float.

Around every float lies the interval of reals that round to it: from halfway to the neighbour
below to halfway to the neighbour above, with the ends included when the significand is even. A
decimal names the float exactly when it lies in that interval. The search walks down the grids of
powers of ten, and on each one there are only two points worth testing, the two neighbours of the
value. The first grid with a hit has the fewest digits; of two hits the nearer one is taken, and an
exact tie goes up.

Everything is a comparison of naturals, with no division of floats, so the search says what it
means and stops within seventeen digits. Should it ever find nothing, the exact value is used, and
the result is correct either way.

## Main definitions

* `Decimal`: Digits scaled by a power of ten.
* `RoundingInterval`: The reals that round to one float, over a common denominator.
* `Decimal.shortest`: The fewest digits that name a float.
-/

namespace PixelEffects

/-- A decimal number, `digits * 10 ^ exponent`. -/
structure Decimal where
  digits : Nat
  exponent : Int
deriving Repr, DecidableEq

/-- The reals that round to one positive float, in quarters of the unit `2 ^ exponent`. -/
structure RoundingInterval where
  low : Nat
  value : Nat
  high : Nat
  exponent : Int
  closed : Bool
deriving Repr, DecidableEq

namespace RoundingInterval

/-- The interval of a float. Below a power of two the gap to the next float down is half as wide,
    unless the floats there are already at their smallest spacing. -/
def of (d : Dyadic) : RoundingInterval where
  low := if d.significand == Nat.pow 2 52 && d.exponent != -1074 then 4 * d.significand - 1
    else 4 * d.significand - 2
  value := 4 * d.significand
  high := 4 * d.significand + 2
  exponent := d.exponent - 2
  closed := d.significand % 2 == 0

/-- What one unit of the interval becomes on the grid of `10 ^ t`, as a fraction. -/
def unit (i : RoundingInterval) (t : Int) : Nat × Nat :=
  (Nat.pow 2 i.exponent.toNat * Nat.pow 10 (-t).toNat,
    Nat.pow 2 (-i.exponent).toNat * Nat.pow 10 t.toNat)

/-- Whether the decimal `n * 10 ^ t` rounds to the float. -/
def contains (i : RoundingInterval) (t : Int) (n : Nat) : Bool :=
  let (up, down) := i.unit t
  if i.closed then i.low * up ≤ n * down && n * down ≤ i.high * up
  else i.low * up < n * down && n * down < i.high * up

/-- The best point of one grid that rounds to the float: the nearer of the two around the value,
    the upper one on a tie. -/
def onGrid? (i : RoundingInterval) (t : Int) : Option Nat :=
  let (up, down) := i.unit t
  let n := i.value * up / down
  let preferUpper := (2 * n + 1) * down ≤ 2 * (i.value * up)
  match i.contains t n, i.contains t (n + 1) with
  | true, true => some (if preferUpper then n + 1 else n)
  | true, false => some n
  | false, true => some (n + 1)
  | false, false => none

/-- Walk down the grids from `10 ^ t`, as far as `n` of them. -/
def search (i : RoundingInterval) : Nat → Int → Option Decimal
  | 0, _ => none
  | n + 1, t =>
    match i.onGrid? t with
    | some digits => some ⟨digits, t⟩
    | none => i.search n (t - 1)

end RoundingInterval

namespace Decimal

/-- Move the zeros at the end of the digits into the exponent, at most `n` of them. -/
def trim : Nat → Decimal → Decimal
  | 0, d => d
  | n + 1, d =>
    if d.digits % 10 == 0 && d.digits != 0 then trim n ⟨d.digits / 10, d.exponent + 1⟩ else d

/-- The power of ten of the leading digit. The binary logarithm gives it to within one, and a
    comparison settles which. -/
def leadingExponent (d : Dyadic) : Int :=
  let guess := Int.fdiv ((d.significand.log2 + d.exponent) * 30103) 100000
  let atLeast (t : Int) : Bool :=
    d.significand * Nat.pow 2 d.exponent.toNat * Nat.pow 10 (-t).toNat ≥
      Nat.pow 2 (-d.exponent).toNat * Nat.pow 10 t.toNat
  if atLeast (guess + 1) then guess + 1 else if atLeast guess then guess else guess - 1

/-- The exact decimal value of a float. -/
def exact (d : Dyadic) : Decimal :=
  if d.exponent ≥ 0 then ⟨d.numerator, 0⟩ else ⟨d.significand * Nat.pow 5 d.scale, d.exponent⟩

/-- The decimal with the fewest digits that rounds to the float. -/
def shortest (d : Dyadic) : Decimal :=
  if d.significand == 0 then ⟨0, 0⟩
  else
    let found := (RoundingInterval.of d).search 18 (leadingExponent d)
    trim 20 (found.getD (exact d))

end Decimal

end PixelEffects
