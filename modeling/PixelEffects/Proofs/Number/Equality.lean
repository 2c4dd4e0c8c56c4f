import Mathlib

/-!
# Equality of Floats

When two floats are equal as numbers, and which floats are no numbers.

Floats compare by what they stand for, and not by their bits. There are two differences between the
two. NaN is not equal to anything, and the two zeros are equal. That there are no more of them is
known for floats in general. What is left is to see where NaN can come from: not from a natural
number, even if it is too large for a float.

## Main definitions

* `Number.IsZero`: A zero of either sign.

## Theorems

* `Number.beq_iff`, `Number.beq_zero_iff`: Equality as numbers.
* `Number.isNaN_ofNat`: Natural numbers are numbers.
-/

namespace PixelEffects

namespace Number

open Float.Model UnpackedFloat

/-! ## Equality -/

/-- A zero of either sign. -/
def IsZero (x : Float) : Prop :=
  x = 0 ∨ x = -0

theorem isZero_zero : IsZero 0 :=
  .inl rfl

/-- What is known of the zeros by evaluation: their bits, and that they are not NaN. -/
theorem zeros_checked : (0 : Float).toBits = 0 ∧ (-0 : Float).toBits = 0x8000000000000000 ∧
    (0 : Float).isNaN = false ∧ (-0 : Float).isNaN = false := by
  decide +kernel

theorem toBits_zero : (0 : Float).toBits = 0 :=
  zeros_checked.1

theorem isZero_of_toBits {x : Float} (h : x.toBits = 0x8000000000000000) : IsZero x :=
  .inr (Float.toBits_inj.mp (h.trans zeros_checked.2.1.symm))

theorem isNaN_zero : (0 : Float).isNaN = false :=
  zeros_checked.2.2.1

theorem isNaN_eq_false_iff {x : Float} : x.isNaN = false ↔ x ≠ .nan := by
  rw [Float.isNaN_eq_decide_eq_nan, decide_eq_false_iff_not]

theorem IsZero.ne_nan {x : Float} (h : IsZero x) : x ≠ .nan := by
  rcases h with rfl | rfl
  · exact isNaN_eq_false_iff.mp isNaN_zero
  · exact isNaN_eq_false_iff.mp zeros_checked.2.2.2

/-- Floats are equal as numbers if both are zeros, or if they are the same and not NaN. -/
theorem beq_iff {x y : Float} :
    (x == y) = true ↔ (IsZero x ∧ IsZero y) ∨ (x = y ∧ x.isNaN = false) := by
  rw [Float.beq_iff_ne_nan_and_eq, isNaN_eq_false_iff]
  constructor
  · rintro ⟨hx, _, rfl | ⟨rfl, rfl⟩ | ⟨rfl, rfl⟩⟩
    · exact .inr ⟨rfl, hx⟩
    · exact .inl ⟨.inl rfl, .inr rfl⟩
    · exact .inl ⟨.inr rfl, .inl rfl⟩
  · rintro (⟨hx, hy⟩ | ⟨rfl, hx⟩)
    · refine ⟨hx.ne_nan, hy.ne_nan, ?_⟩
      rcases hx with rfl | rfl <;> rcases hy with rfl | rfl
      · exact .inl rfl
      · exact .inr (.inl ⟨rfl, rfl⟩)
      · exact .inr (.inr ⟨rfl, rfl⟩)
      · exact .inl rfl
    · exact ⟨hx, hx, .inl rfl⟩

theorem beq_zero_iff {x : Float} : (x == 0) = true ↔ IsZero x := by
  rw [beq_iff]
  constructor
  · rintro (⟨hx, _⟩ | ⟨rfl, _⟩)
    · exact hx
    · exact isZero_zero
  · exact fun hx => .inl ⟨hx, isZero_zero⟩

/-! ## Natural numbers -/

/-- What is put together from anything but NaN is not NaN. -/
theorem isNaN_pack {u : UnpackedFloat} (h : u ≠ .notANumber) :
    (Float.ofModel (Float.Model.pack u)).isNaN = false := by
  -- Without the exponent of ones there is no NaN.
  have hpacked : ∀ (s : Sign) (e : BitVec Format.binary64.exponentBits)
      (f : BitVec Format.binary64.mantissaBitsWithoutImplicit),
      e ≠ -1#(Format.binary64.exponentBits) →
        (UnpackedFloat.unpack Format.binary64
          (packComponents Format.binary64 s e f)).isNaN = false := by
    intro s e f he
    unfold UnpackedFloat.unpack
    simp only [unpackExponent_packComponents, unpackMantissa_packComponents, if_neg he]
    split
    · split <;> rfl
    · rfl
  show (UnpackedFloat.unpack Format.binary64
    (UnpackedFloat.pack Format.binary64 u)).isNaN = false
  cases u with
  | notANumber => exact absurd rfl h
  | infinity s => cases s <;> rfl
  | zero s => cases s <;> rfl
  | finite s m e hm =>
      unfold UnpackedFloat.pack
      dsimp only
      split
      · cases s <;> rfl
      · next hfits =>
          split
          · refine hpacked s _ _ fun heq => ?_
            have hnat := congrArg BitVec.toNat heq
            have hones : (-1#(Format.binary64.exponentBits)).toNat = 2047 := by decide
            have hbits : 2 ^ Format.binary64.exponentBits = 2048 := by decide
            rw [BitVec.toNat_ofNat, hones, hbits] at hnat
            rw [hbits] at hfits
            omega
          · exact hpacked s _ _ (by decide)

theorem roundWithAccuracy_ne_notANumber (s : Sign) (m : Nat) (e : Int) (a : Accuracy) :
    UnpackedFloat.roundWithAccuracy Format.binary64 s m e a ≠ .notANumber := by
  unfold UnpackedFloat.roundWithAccuracy
  dsimp only
  split <;> simp

theorem isNaN_toFloat (n : UInt64) : n.toFloat.isNaN = false := by
  refine isNaN_pack ?_
  unfold UnpackedFloat.ofUInt64 UnpackedFloat.ofNat UnpackedFloat.ofInt
    UnpackedFloat.normalize UnpackedFloat.round
  dsimp only
  split
  · exact roundWithAccuracy_ne_notANumber _ _ _ _
  · simp
  · exact roundWithAccuracy_ne_notANumber _ _ _ _

theorem mul_finite_ne_notANumber (s t : Sign) {m n : Nat} (e f : Int) (hm : 0 < m) (hn : 0 < n) :
    UnpackedFloat.mul Format.binary64 (.finite s m e hm) (.finite t n f hn) ≠ .notANumber :=
  roundWithAccuracy_ne_notANumber _ _ _ _

theorem isNaN_mul {x y : Float} (hx : x.isNaN = false) {s : Sign} {m : Nat} {e : Int} {hm : 0 < m}
    (hy : y.toModel.unpack = .finite s m e hm) : (x * y).isNaN = false := by
  refine isNaN_pack (u := UnpackedFloat.mul Format.binary64 x.toModel.unpack y.toModel.unpack) ?_
  have hnumber : x.toModel.unpack ≠ .notANumber := mt isNaN_iff.mpr (Bool.eq_false_iff.mp hx)
  rw [hy]
  cases hunpack : x.toModel.unpack with
  | notANumber => exact absurd hunpack hnumber
  | finite => exact mul_finite_ne_notANumber _ _ _ _ _ _
  | _ => simp [UnpackedFloat.mul]

theorem ofScientific_ne_notANumber (n : Nat) :
    UnpackedFloat.ofScientific Format.binary64 n 0 ≠ .notANumber := by
  unfold UnpackedFloat.ofScientific
  split
  · simp
  · split
    · simp
    · split
      · simp
      · split
        · exact mul_finite_ne_notANumber _ _ _ _ _ _
        · next hnegative => exact absurd (Int.le_refl 0) hnegative

/-- Natural numbers may be too large for a float, but they are no NaN. -/
theorem isNaN_ofNat (n : Nat) : (Float.ofNat n).isNaN = false := by
  have hone : (1.0 : Float).toModel.unpack = .finite .positive (2 ^ 52) (-52) (by decide) := rfl
  show (Float.ofScientific n false 0).isNaN = false
  unfold Float.ofScientific
  split
  · exact isNaN_mul (isNaN_toFloat _) hone
  · exact isNaN_pack (ofScientific_ne_notANumber n)

end Number

end PixelEffects
