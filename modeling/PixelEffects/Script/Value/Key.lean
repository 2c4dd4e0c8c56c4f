import PixelEffects.Script.Value
import Std.Data.TreeMap

/-!
# Keys

What an entry of a table is found under.

A key is a boolean, a number or a text. Keys are ordered, booleans first, then numbers, then
texts, which is the order that a traversal visits them in. Numbers are ordered by value; the two
zeros are one key, and NaN is none.

The order of floats is not a lawful one, since NaN is beside every number and the two zeros
compare equal. `Key.rank` repairs that: it maps the bits of a float to a word, so that the words
of two floats compare as the floats do, and different bits stay different.

## Main definitions

* `Key`: The keys.
* `Key.rank`: Where a float stands among all floats.
* `Key.order`: The order of keys.
* `Key.ofValue?`: The key that a value is.

## Theorems

* `Key.toBits_injective`, `Key.rank_injective`: A float is determined by its rank.
* `Std.TransOrd Key`, `Std.LawfulEqOrd Key`: The order is total, and compares nothing else equal.
-/

namespace PixelEffects

namespace Script

/-- A key of a table. -/
inductive Key
  | bool (value : Bool)
  | number (value : Float)
  | text (value : String)
deriving Repr

namespace Key

/-- Where a float stands among all floats: below zero the bits count down. -/
def rank (x : Float) : UInt64 :=
  let bits := x.toBits
  if bits < 0x8000000000000000 then bits + 0x8000000000000000 else 0xFFFFFFFFFFFFFFFF - bits

theorem toBits_injective {x y : Float} (h : x.toBits = y.toBits) : x = y := by
  cases x with | ofModel mx => cases y with | ofModel my =>
  cases mx; cases my
  cases h
  rfl

theorem rank_toNat (x : Float) :
    (rank x).toNat = if x.toBits.toNat < 0x8000000000000000 then x.toBits.toNat + 0x8000000000000000
      else 0xFFFFFFFFFFFFFFFF - x.toBits.toNat := by
  have hlt := x.toBits.toNat_lt
  simp only [rank, UInt64.lt_iff_toNat_lt]
  split
  · next h =>
    have h' : x.toBits.toNat < 0x8000000000000000 := h
    rw [if_pos h', UInt64.toNat_add]
    exact Nat.mod_eq_of_lt (by simp; omega)
  · next h =>
    have h' : ¬ x.toBits.toNat < 0x8000000000000000 := h
    rw [if_neg h', UInt64.toNat_sub_of_le _ _ (UInt64.le_iff_toNat_le.mpr (by simp; omega))]
    rfl

theorem rank_injective {x y : Float} (h : rank x = rank y) : x = y := by
  apply toBits_injective
  have hx := rank_toNat x
  have hy := rank_toNat y
  rw [h] at hx
  rw [hx] at hy
  have hltx := x.toBits.toNat_lt
  have hlty := y.toBits.toNat_lt
  apply UInt64.toNat_inj.mp
  split at hy <;> split at hy <;> omega

/-- The order of keys: booleans, then numbers, then texts. -/
def order : Key → Key → Ordering
  | bool a, bool b => compare a b
  | bool _, number _ => .lt
  | bool _, text _ => .lt
  | number _, bool _ => .gt
  | number a, number b => compare (rank a) (rank b)
  | number _, text _ => .lt
  | text _, bool _ => .gt
  | text _, number _ => .gt
  | text a, text b => compare a b

instance : Ord Key := ⟨order⟩

theorem compare_eq_order (a b : Key) : compare a b = order a b :=
  rfl

instance : Std.OrientedOrd Key where
  eq_swap {a b} := by
    cases a <;> cases b <;> simp only [compare_eq_order, order] <;>
      first | exact Std.OrientedOrd.eq_swap | rfl

instance : Std.TransOrd Key where
  isLE_trans {a b c} hab hbc := by
    cases a <;> cases b <;> cases c <;> simp only [compare_eq_order, order] at * <;>
      first | exact Std.TransOrd.isLE_trans hab hbc | contradiction | rfl

instance : Std.LawfulEqOrd Key where
  compare_self {a} := by
    cases a <;> simp
  eq_of_compare {a b} h := by
    cases a <;> cases b <;> simp [compare_eq_order, order] at h
    · exact congrArg bool h
    · exact congrArg number (rank_injective h)
    · exact congrArg text h

/-- The key of a number. The two zeros are one key. -/
def ofNumber (x : Float) : Key :=
  number (if x == 0 then 0 else x)

/-- The key of a position. -/
def ofPosition (n : Nat) : Key :=
  ofNumber (Float.ofNat n)

/-- The key that a value is, or why it is none. -/
def ofValue? : Value → Except KeyCause Key
  | .bool b => .ok (bool b)
  | .number x => if x.isNaN then .error .isNaN else .ok (ofNumber x)
  | .text s => .ok (text s)
  | .nil => .error .isNil
  | .table id => .error (.unsupported (Value.table id).type)
  | .function id => .error (.unsupported (Value.function id).type)
  | .builtin b => .error (.unsupported (Value.builtin b).type)

/-- The value that a key is. -/
def toValue : Key → Value
  | bool b => .bool b
  | number x => .number x
  | text s => .text s

end Key

end Script

end PixelEffects
