import PixelEffects.Proofs.Number.Truncate

/-!
# The Nearest Integer

The nearest integer to a float, on the number that the float stands for.

The library rounds a float in integer arithmetic on its exact value. What that comes to is said here
without it, of the rational number that the float stands for: no integer is nearer, and of two that are
equally near the one further from zero is taken. That determines the integer. It is held inside a range
afterwards, so that an infinity, which is no rational number, goes to the end on its side.

## Main definitions

* `Number.rational?`: The rational number that a float stands for.
* `Number.RoundsTo`: The nearest integer to a rational number, halves away from zero.
* `Number.HeldTo`: The nearest integer to a float, held inside a range.

## Theorems

* `Number.RoundsTo.unique`, `Number.HeldTo.unique`: There is one such integer.
* `Number.clampedNearest_heldTo`: The library finds it.
-/

namespace PixelEffects

open Float.Model UnpackedFloat

namespace Number

/-! ## Rounding -/

/-- The rational number that a float stands for. Infinities and NaN stand for none. -/
def rational? (x : Float) : Option ℚ :=
  match x.toModel.unpack with
  | .finite .positive m e _ => some (m * 2 ^ e)
  | .finite .negative m e _ => some (-(m * 2 ^ e))
  | .zero _ => some 0
  | .infinity _ | .notANumber => none

/-- The nearest integer to a number. When two are equally near, it is the one further from zero. -/
structure RoundsTo (q : ℚ) (n : ℤ) : Prop where
  near : |q - n| ≤ 1 / 2
  tie : |q - n| = 1 / 2 → |q| < |(n : ℚ)|

namespace RoundsTo

variable {q : ℚ} {n n' : ℤ}

theorem neg (h : RoundsTo q n) : RoundsTo (-q) (-n) := by
  have hdist : |-q - ((-n : ℤ) : ℚ)| = |q - n| := by
    rw [Int.cast_neg, ← neg_sub', abs_neg]
  refine ⟨hdist ▸ h.near, fun htie => ?_⟩
  rw [Int.cast_neg, abs_neg, abs_neg]
  exact h.tie (hdist ▸ htie)

/-- Of two integers that are one apart, only one is further from zero than the middle. -/
theorem not_succ (h : RoundsTo q n) : ¬ RoundsTo q (n + 1) := by
  intro h'
  have hleft := abs_le.mp h.near
  have hright := abs_le.mp h'.near
  push_cast at hright
  have hmiddle : q = n + 1 / 2 := by linarith
  have hn : |q| < |(n : ℚ)| := h.tie (by rw [hmiddle, add_sub_cancel_left]; norm_num)
  have hn' : |q| < |((n + 1 : ℤ) : ℚ)| := h'.tie (by
    rw [hmiddle]
    push_cast
    norm_num)
  rcases le_or_gt 0 n with hsign | hsign
  · have hcast : (0 : ℚ) ≤ n := by exact_mod_cast hsign
    rw [abs_of_nonneg (by linarith), abs_of_nonneg hcast] at hn
    linarith
  · have hcast : ((n + 1 : ℤ) : ℚ) ≤ 0 := by exact_mod_cast hsign
    have hq : q ≤ 0 := by
      push_cast at hcast
      linarith
    rw [abs_of_nonpos hq, abs_of_nonpos hcast] at hn'
    push_cast at hn'
    linarith

theorem unique (h : RoundsTo q n) (h' : RoundsTo q n') : n = n' := by
  have hleft := abs_le.mp h.near
  have hright := abs_le.mp h'.near
  have hbelow : n < n' + 2 := by
    have : (n : ℚ) < ((n' + 2 : ℤ) : ℚ) := by
      push_cast
      linarith
    exact_mod_cast this
  have habove : n' < n + 2 := by
    have : (n' : ℚ) < ((n + 2 : ℤ) : ℚ) := by
      push_cast
      linarith
    exact_mod_cast this
  -- Both are within a half, so they are at most one apart.
  rcases (by omega : n = n' ∨ n' = n + 1 ∨ n = n' + 1) with heq | heq | heq
  · exact heq
  · exact absurd (heq ▸ h') h.not_succ
  · exact absurd (heq ▸ h) h'.not_succ

/-- The integer below a fraction with a half added is the nearest one. -/
theorem of_fraction (a : ℕ) {b : ℕ} (hb : 0 < b) :
    RoundsTo (a / b) (((2 * a + b) / (2 * b) : ℕ) : ℤ) := by
  have hpos : (0 : ℚ) < b := by exact_mod_cast hb
  have hsplit := Nat.div_add_mod (2 * a + b) (2 * b)
  have hrest := Nat.mod_lt (2 * a + b) (show 0 < 2 * b by omega)
  set n := (2 * a + b) / (2 * b)
  set r := (2 * a + b) % (2 * b)
  -- The rest says how far the fraction is from its nearest integer.
  have hdist : (a : ℚ) / b - ((n : ℤ) : ℚ) = (r - b) / (2 * b) := by
    have hcast : (2 : ℚ) * b * n + r = 2 * a + b := by exact_mod_cast hsplit
    rw [Int.cast_natCast]
    field_simp
    linarith
  have hlow : (0 : ℚ) ≤ r := Nat.cast_nonneg r
  have hhigh : (r : ℚ) < 2 * b := by exact_mod_cast hrest
  refine ⟨?_, fun htie => ?_⟩
  · rw [hdist, abs_le, le_div_iff₀ (by linarith), div_le_iff₀ (by linarith)]
    constructor <;> linarith
  · -- The rest is less than all, so a half is one that the fraction lacks.
    have hless : (a : ℚ) / b - ((n : ℤ) : ℚ) < 1 / 2 := by
      rw [hdist, div_lt_iff₀ (by linarith)]
      linarith
    have hlacks : (a : ℚ) / b - ((n : ℤ) : ℚ) = -(1 / 2) :=
      (eq_or_eq_neg_of_abs_eq htie).resolve_left hless.ne
    have hfraction : (0 : ℚ) ≤ a / b := by positivity
    rw [abs_of_nonneg hfraction, abs_of_nonneg (by linarith)]
    linarith

end RoundsTo

/-! ## Rounding in a range -/

/-- The nearest integer to a float, held inside `lo .. hi`. -/
inductive HeldTo (lo hi : ℤ) (x : Float) : ℤ → Prop
  | finite {q : ℚ} {n : ℤ} (hexact : rational? x = some q) (hn : RoundsTo q n) :
      HeldTo lo hi x (max lo (min hi n))
  | below (hx : x.toModel.unpack = .infinity .negative) : HeldTo lo hi x lo
  | above (hx : x.toModel.unpack = .infinity .positive) : HeldTo lo hi x hi

theorem rational?_infinity {x : Float} {s : Sign} (h : x.toModel.unpack = .infinity s) :
    rational? x = none := by
  rw [rational?, h]

theorem HeldTo.unique {lo hi : ℤ} {x : Float} {n n' : ℤ} (h : HeldTo lo hi x n)
    (h' : HeldTo lo hi x n') : n = n' := by
  cases h with
  | finite hexact hn =>
      cases h' with
      | finite hexact' hn' =>
          cases hexact.symm.trans hexact'
          rw [hn.unique hn']
      | below hx | above hx => cases hexact.symm.trans (rational?_infinity hx)
  | below hx =>
      cases h' with
      | finite hexact' _ => cases hexact'.symm.trans (rational?_infinity hx)
      | below _ => rfl
      | above hx' => cases hx.symm.trans hx'
  | above hx =>
      cases h' with
      | finite hexact' _ => cases hexact'.symm.trans (rational?_infinity hx)
      | below hx' => cases hx.symm.trans hx'
      | above _ => rfl

end Number

namespace Dyadic

/-- An exact value as a rational number. -/
def value (d : Dyadic) : ℚ :=
  if d.negative then -(d.significand * 2 ^ d.exponent) else d.significand * 2 ^ d.exponent

/-- The magnitude is the fraction that its numerator and its scale say. -/
theorem fraction_eq (d : Dyadic) :
    (d.numerator : ℚ) / ((Nat.pow 2 d.scale : ℕ) : ℚ) = d.significand * 2 ^ d.exponent := by
  have hexponent : d.exponent = d.exponent.toNat - d.scale := by
    unfold scale
    omega
  conv_rhs => rw [hexponent]
  rw [zpow_sub₀ (by norm_num), zpow_natCast, zpow_natCast, numerator, Nat.pow_eq, Nat.pow_eq]
  push_cast
  ring

theorem nearest_roundsTo (d : Dyadic) : Number.RoundsTo d.value d.nearest := by
  have hmagnitude : Number.RoundsTo (d.significand * 2 ^ d.exponent)
      ((2 * d.numerator + Nat.pow 2 d.scale) / (2 * Nat.pow 2 d.scale) : ℕ) := by
    rw [← fraction_eq]
    exact .of_fraction d.numerator (Nat.pow_pos (by decide))
  unfold value nearest signed
  split
  · exact hmagnitude.neg
  · exact hmagnitude

end Dyadic

namespace Number

theorem rational?_eq (x : Float) : rational? x = (Dyadic.ofFloat? x).map Dyadic.value := by
  rw [Dyadic.ofFloat?_eq, rational?]
  cases x.toModel.unpack with
  | notANumber => rfl
  | infinity s => rfl
  | zero s => cases s <;> simp [Dyadic.ofUnpacked?, Dyadic.value]
  | finite s m e hm => cases s <;> rfl

/-- A float is held inside a range at its nearest integer. -/
theorem clampedNearest_heldTo (lo hi : ℤ) {x : Float} (h : x.isNaN = false) :
    HeldTo lo hi x (clampedNearest lo hi x) := by
  have hexact := rational?_eq x
  unfold clampedNearest
  cases hvalue : Dyadic.ofFloat? x with
  | some d =>
      rw [hvalue] at hexact
      exact .finite hexact d.nearest_roundsTo
  | none =>
      rw [Dyadic.ofFloat?_eq] at hvalue
      -- What has no exact value and is not NaN is an infinity.
      cases hunpack : x.toModel.unpack with
      | finite | zero =>
          rw [hunpack] at hvalue
          cases hvalue
      | notANumber =>
          have hnan : x.isNaN = true := isNaN_iff.mpr hunpack
          rw [h] at hnan
          cases hnan
      | infinity s =>
          dsimp only
          rw [clampSpecial_infinity _ _ hunpack]
          cases s with
          | negative => exact .below hunpack
          | positive => exact .above hunpack

theorem HeldTo.mem {lo hi : ℤ} (hle : lo ≤ hi) {x : Float} {n : ℤ} (h : HeldTo lo hi x n) :
    lo ≤ n ∧ n ≤ hi := by
  cases h with
  | finite => omega
  | below => omega
  | above => omega

end Number

end PixelEffects
