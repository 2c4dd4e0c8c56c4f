import PixelEffects.Number.Dyadic
import PixelEffects.Proofs.Number.Equality

/-!
# Integer Parts

The integer part of a float, by the library and by the standard.

The library computes the integer part from the exact value, which it reads off the bits. The standard
conversion is defined on what the bits unpack to. The two agree for every float, and so the conversion
to 64 bits truncates toward zero, sends what is out of range to the nearer end, and NaN to zero.

## Main definitions

* `Dyadic.ofUnpacked?`: The exact value of what bits unpack to.

## Theorems

* `Dyadic.ofFloat?_eq`: The exact value of a float is that of what its bits unpack to.
* `Dyadic.truncate_eq`: Truncating is rounding toward zero.
* `Number.toInt64_eq`: The conversion to 64 bits is the standard one.
-/

namespace PixelEffects

open Float.Model UnpackedFloat

namespace Dyadic

/-! ## Exact values -/

/-- Whether a sign is the negative one. -/
def isNegative : Sign → Bool
  | .negative => true
  | .positive => false

/-- The exact value of what bits unpack to, or `none` for an infinity or NaN. -/
def ofUnpacked? : UnpackedFloat → Option Dyadic
  | .finite s m e _ => some ⟨isNegative s, m, e⟩
  | .zero s => some ⟨isNegative s, 0, -1074⟩
  | .infinity _ | .notANumber => none

section Bits

variable (bits : UInt64)

theorem toNat_unpackExponent : (@unpackExponent Format.binary64 bits.toBitVec).toNat =
    ((bits >>> 52) &&& 0x7FF).toNat := by
  show bits.toNat >>> 52 % 2 ^ 11 = bits.toNat >>> 52 &&& (2 ^ 11 - 1)
  rw [Nat.and_two_pow_sub_one_eq_mod]

theorem toNat_unpackMantissa : (@unpackMantissa Format.binary64 bits.toBitVec).toNat =
    (bits &&& 0xFFFFFFFFFFFFF).toNat := by
  show bits.toNat >>> 0 % 2 ^ 52 = bits.toNat &&& (2 ^ 52 - 1)
  rw [Nat.and_two_pow_sub_one_eq_mod, Nat.shiftRight_zero]

theorem isNegative_unpackSign :
    isNegative (Sign.ofBitVec (@unpackSign Format.binary64 bits.toBitVec)) =
      (bits >>> 63 == 1) := by
  have hsign : (@unpackSign Format.binary64 bits.toBitVec).toNat =
      (bits >>> 63).toNat := by
    show bits.toNat >>> 63 % 2 ^ 1 = bits.toNat >>> 63
    have hlt := bits.toNat_lt
    rw [Nat.shiftRight_eq_div_pow]
    omega
  have hbit : ∀ b : BitVec 1, isNegative (Sign.ofBitVec b) = (b.toNat == 1) := by decide
  rw [hbit, hsign, Bool.eq_iff_iff, beq_iff_eq, beq_iff_eq, ← UInt64.toNat_inj]
  rfl

end Bits

/-- The digit in front of a significand that bits do not hold. -/
theorem toNat_implicit (m : BitVec 52) : (1#1 ++ m).toNat = Nat.pow 2 52 + m.toNat := by
  rw [BitVec.toNat_append, ← Nat.shiftLeft_add_eq_or_of_lt m.isLt, Nat.shiftLeft_eq]
  rfl

/-- The exact value of a float is that of what its bits unpack to. -/
theorem ofFloat?_eq (x : Float) : ofFloat? x = ofUnpacked? x.toModel.unpack := by
  have hsame : ∀ e e' : BitVec 11, (e.toNat == e'.toNat) = decide (e = e') := by
    intro e e'
    rw [Bool.eq_iff_iff, beq_iff_eq, decide_eq_true_eq, BitVec.toNat_inj]
  have hones : ∀ e : BitVec 11, (e.toNat == 0x7FF) = decide (e = -1#11) :=
    fun e => hsame e (-1#11)
  have hzero : ∀ e : BitVec 11, (e.toNat == 0) = decide (e = 0#11) :=
    fun e => hsame e 0#11
  show _ = ofUnpacked? (UnpackedFloat.unpack Format.binary64 x.toBits.toBitVec)
  unfold ofFloat? UnpackedFloat.unpack
  simp only [← toNat_unpackExponent, ← toNat_unpackMantissa, ← isNegative_unpackSign]
  rw [hones, hzero]
  simp only [decide_eq_true_eq]
  -- An exponent of ones, then one of zeros, and then all others.
  split_ifs with hinfinite hnone hsmall hnone
  · rfl
  · rfl
  · rw [hnone]
    rfl
  · rw [hsmall]
    rfl
  · rw [ofUnpacked?, ← toNat_implicit]
    rfl

/-! ## Truncation -/

/-- Places that are shifted out are divided off. -/
theorem mantissa_repeat (j : Nat) (em : ExtendedMantissa) :
    (Nat.repeat ExtendedMantissa.shiftRightOne j em).mantissa = em.mantissa / 2 ^ j := by
  induction j with
  | zero => rw [Nat.repeat, Nat.pow_zero, Nat.div_one]
  | succ j ih =>
      rw [Nat.repeat, Nat.pow_succ, ← Nat.div_div_eq_div_mul, ← ih]
      rfl

/-- Truncating is rounding toward zero. -/
theorem truncate_eq (s : Sign) (m : Nat) (e : Int) :
    truncate ⟨isNegative s, m, e⟩ = roundToInt s m e := by
  have hshift : (0 - (e - (e.toNat : Int))).toNat = (-e).toNat := by omega
  have hparts : (ExtendedMantissa.ofMantissaAndAccuracy (m * 2 ^ e.toNat) .exact >>>
      (-e).toNat).mantissa = m * 2 ^ e.toNat / 2 ^ (-e).toNat := mantissa_repeat _ _
  unfold roundToInt shiftToExponent decreaseExponent
  dsimp only
  rw [Int.sub_zero, hshift, Nat.shiftLeft_eq, hparts]
  cases s <;> rfl

theorem truncate_zero (negative : Bool) (e : Int) : truncate ⟨negative, 0, e⟩ = 0 := by
  unfold truncate numerator
  rw [Nat.zero_mul, Nat.zero_div]
  cases negative <;> rfl

end Dyadic

namespace Number

theorem toInt_ofIntClamp (z : Int) : (Int64.ofIntClamp z).toInt =
    max (-0x8000000000000000) (min 0x7fffffffffffffff z) := by
  have hmin : Int64.minValue.toInt = -0x8000000000000000 := rfl
  have hmax : Int64.maxValue.toInt = 0x7fffffffffffffff := rfl
  unfold Int64.ofIntClamp
  split_ifs with hlow hhigh
  · rw [Int64.toInt_ofIntLE]
    omega
  · omega
  · omega

/-- An infinity goes to the end on its side. -/
theorem clampSpecial_infinity (lo hi : Int) {x : Float} {s : Sign}
    (h : x.toModel.unpack = .infinity s) :
    clampSpecial lo hi x = UnpackedFloat.toInt lo hi (.infinity s) := by
  have hnan : x.isNaN = false := by
    show x.toModel.unpack.isNaN = false
    rw [h]
    rfl
  have hless : x < 0 ↔ UnpackedFloat.lt (.infinity s) (.zero .positive) = true := by
    rw [← h]
    exact decide_eq_true_iff
  unfold clampSpecial
  rw [hnan, if_neg Bool.false_ne_true]
  cases s with
  | negative => exact if_pos (hless.mpr rfl)
  | positive => exact if_neg (mt hless.mp (by decide))

/-- The conversion to 64 bits is the standard one: it truncates toward zero, what is out of range
    goes to the nearer end, and NaN to zero. -/
theorem toInt64_eq (x : Float) : toInt64 x = x.toModel.toInt64.toInt := by
  show clampedTruncate (-0x8000000000000000) 0x7fffffffffffffff x =
    (Int64.ofIntClamp (UnpackedFloat.toInt (-0x8000000000000000) 0x7fffffffffffffff
      x.toModel.unpack)).toInt
  unfold clampedTruncate
  rw [toInt_ofIntClamp, Dyadic.ofFloat?_eq]
  -- Only what is finite is truncated, the rest has a value of its own.
  cases hunpack : x.toModel.unpack with
  | notANumber =>
      have hnan : x.isNaN = true := isNaN_iff.mpr hunpack
      simp only [Dyadic.ofUnpacked?, clampSpecial, hnan, if_true]
      rfl
  | infinity s =>
      simp only [Dyadic.ofUnpacked?, clampSpecial_infinity _ _ hunpack]
      cases s <;> rfl
  | zero s =>
      simp only [Dyadic.ofUnpacked?, Dyadic.truncate_zero]
      rfl
  | finite s m e hm =>
      simp only [Dyadic.ofUnpacked?, Dyadic.truncate_eq]
      rfl

end Number

end PixelEffects
