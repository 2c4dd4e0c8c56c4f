/-!
# Ranges of Code Points

Properties of characters as tables.

A property is given by the code points that have it, as closed ranges in ascending order and apart
from one another. So the only range that can hold a code point is the last one that does not start
above it, and that one is found by halving. The halving is stated for any table with ascending
keys, because case mappings are looked up in the same way.

## Main definitions

* `Ranges.locate`: The place in a table where a key belongs.
* `Ranges.covers`: Whether a code point has a property.
-/

namespace PixelEffects

/-- Closed ranges of code points, in ascending order and apart. -/
abbrev Ranges := Array (Nat × Nat)

namespace Ranges

/-- The position of the last entry whose key is at most `n`, by halving `lo .. hi`. -/
def locate (key : Nat → Nat) (n : Nat) : Nat → Nat → Nat → Nat
  | 0, lo, _ => lo
  | fuel + 1, lo, hi =>
    if hi ≤ lo + 1 then lo
    else
      let mid := (lo + hi) / 2
      if key mid ≤ n then locate key n fuel mid hi else locate key n fuel lo mid

/-- Whether a code point lies in one of the ranges. -/
def covers (ranges : Ranges) (n : Nat) : Bool :=
  let i := locate (fun j => (ranges.getD j (0, 0)).1) n 16 0 ranges.size
  match ranges[i]? with
  | some (first, last) => first ≤ n && n ≤ last
  | none => false

end Ranges

end PixelEffects
