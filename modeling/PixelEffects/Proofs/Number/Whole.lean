import PixelEffects.Number.Dyadic
import PixelEffects.Proofs.Number.Equality

/-!
# Whole Numbers as Floats

A natural number up to 2 ^ 53 is held by a float without loss.

The library makes a float of a natural number in two steps that both round, a conversion and a
product with one. What has to be seen is that neither of them has anything to round. A number below
2 ^ 53 becomes a significand of 53 bits by scaling, and the product puts 52 zeros behind it and
takes them off again. So the bits are known, the exact value that is read off them is the number, and
truncating gives it back.

This is what makes positions of a table work: two of them are different keys as long as both are no
greater than 2 ^ 53. The number after that is the first one that a float does not hold.

## Theorems

* `Number.roundWithAccuracy_exact`: A significand with zeros behind it is rounded to itself.
* `Number.ofFloat?_pack`: The exact value of a float that was put together from a significand.
* `Number.ofNat_eq`: The float that a natural number becomes.
* `Number.toCount_ofNat`, `Number.ofNat_inj`: Nothing is lost.
-/

namespace PixelEffects

namespace Number

open Float.Model UnpackedFloat

/-! ## Rounding where there is nothing to round -/

/-- Shifting out zeros leaves nothing behind to round by. -/
theorem repeat_shiftRightOne (m j : Nat) :
    Nat.repeat ExtendedMantissa.shiftRightOne j ⟨m * 2 ^ j, false, false⟩ = ⟨m, false, false⟩ := by
  induction j generalizing m with
  | zero => simp [Nat.repeat]
  | succ j ih =>
      have hm : m * 2 ^ (j + 1) = 2 * m * 2 ^ j := by
        rw [Nat.pow_succ]
        ring
      rw [Nat.repeat, hm, ih]
      simp [ExtendedMantissa.shiftRightOne]

theorem shiftToExponent_exact (m j : Nat) (e : Int) :
    shiftToExponent (m * 2 ^ j) e .exact (e + j) = (⟨m, false, false⟩, e + j) := by
  have hshift : (e + j - e).toNat = j := by omega
  unfold shiftToExponent
  simp only [hshift]
  exact congrArg (·, e + (j : Int)) (repeat_shiftRightOne m j)

theorem log2_mul_two_pow {m : Nat} (hlow : 2 ^ 52 ≤ m) (hhigh : m < 2 ^ 53) (j : Nat) :
    (m * 2 ^ j).log2 = 52 + j := by
  rw [Nat.log2_eq_iff (by positivity)]
  constructor
  · rw [Nat.pow_add]
    exact Nat.mul_le_mul_right _ hlow
  · rw [Nat.add_right_comm, Nat.pow_add]
    exact Nat.mul_lt_mul_of_pos_right hhigh (by positivity)

/-- The exponent that a number is brought to, from where its leading digit stands. -/
theorem targetExponent_eq {m k : Nat} {e : Int} (hlog : m.log2 = k) (he : -1074 ≤ k + e - 52) :
    Format.binary64.targetExponent (totalExponent m e) = k + e - 52 := by
  have hbits : ((Format.binary64.mantissaBits : Nat) : Int) = 53 := rfl
  have hmin : Format.binary64.minExponent = -1074 := by decide
  unfold Format.targetExponent totalExponent
  rw [hlog, hbits, hmin]
  omega

theorem shiftToTargetExponent_exact {m : Nat} (hlow : 2 ^ 52 ≤ m) (hhigh : m < 2 ^ 53) (j : Nat)
    {e : Int} (he : -1074 ≤ e + j) :
    shiftToTargetExponent Format.binary64 (m * 2 ^ j) e .exact = (⟨m, false, false⟩, e + j) := by
  have htarget := targetExponent_eq (e := e) (log2_mul_two_pow hlow hhigh j) (by omega)
  have hsame : ((52 + j : Nat) : Int) + e - 52 = e + j := by omega
  unfold shiftToTargetExponent
  rw [htarget, hsame]
  exact shiftToExponent_exact m j e

/-- A significand of 53 bits with zeros behind it is rounded to the significand. -/
theorem roundWithAccuracy_exact (s : Sign) {m : Nat} (hlow : 2 ^ 52 ≤ m) (hhigh : m < 2 ^ 53)
    (j : Nat) {e : Int} (he : -1074 ≤ e + j) :
    roundWithAccuracy Format.binary64 s (m * 2 ^ j) e .exact =
      .finite s m (e + j) (by omega) := by
  have hfirst := shiftToTargetExponent_exact hlow hhigh j he
  have hsecond := shiftToTargetExponent_exact hlow hhigh 0 (e := e + j) (by omega)
  have hrounded : (⟨m, false, false⟩ : ExtendedMantissa).roundedMantissa = m := rfl
  simp only [Nat.pow_zero, Nat.mul_one, Nat.cast_zero, Int.add_zero] at hsecond
  unfold roundWithAccuracy
  simp only [hfirst, hrounded, hsecond]
  rw [dif_neg (by omega)]

/-! ## Bits -/

section Bits

variable {m : Nat} {e : Int} (hlow : 2 ^ 52 ≤ m) (hhigh : m < 2 ^ 53) (he : -1074 ≤ e)
  (he' : e ≤ 971) (hm : 0 < m)

include hlow hhigh he he'

theorem pack_normal :
    UnpackedFloat.pack Format.binary64 (.finite .positive m e hm) =
      packComponents Format.binary64 .positive (BitVec.ofNat 11 (e + 1075).toNat)
        (BitVec.ofNat 52 m) := by
  have hlog := log2_mul_two_pow hlow hhigh 0
  rw [Nat.pow_zero, Nat.mul_one] at hlog
  have hbias : (e + Format.binary64.exponentBias +
      Format.binary64.mantissaBitsWithoutImplicit).toNat = (e + 1075).toNat := by
    show (e + (2 ^ (11 - 1) - 1 : Nat) + (52 : Nat)).toNat = (e + 1075).toNat
    omega
  unfold UnpackedFloat.pack
  simp only [hlog, hbias]
  rw [if_neg (by omega), if_pos (show 52 + 1 = Format.binary64.mantissaBits from rfl)]

theorem toNat_pack :
    (UnpackedFloat.pack Format.binary64 (.finite .positive m e hm)).toNat =
      (e + 1075).toNat * 2 ^ 52 + (m - 2 ^ 52) := by
  have hsign : (Sign.toBitVec .positive).toNat = 0 := rfl
  rw [pack_normal hlow hhigh he he' hm]
  unfold packComponents
  rw [BitVec.toNat_append, BitVec.toNat_append, BitVec.toNat_ofNat, BitVec.toNat_ofNat,
    ← Nat.shiftLeft_add_eq_or_of_lt (Nat.mod_lt _ (by positivity)),
    ← Nat.shiftLeft_add_eq_or_of_lt (Nat.mod_lt _ (by positivity)), hsign, Nat.shiftLeft_eq,
    Nat.shiftLeft_eq]
  omega

/-- A float that was put together comes apart into the same. -/
theorem unpack_pack :
    (Float.Model.pack (.finite .positive m e hm)).unpack = .finite .positive m e hm := by
  have hsign : ∀ (ev : BitVec 11) (mv : BitVec 52),
      Sign.ofBitVec (unpackSign (packComponents Format.binary64 .positive ev mv)) = .positive := by
    intro ev mv
    simp only [unpackSign, packComponents, BitVec.extractLsb]
    rw [BitVec.extractLsb'_append_eq_of_le (by omega),
      BitVec.extractLsb'_append_eq_of_le (by omega)]
    rfl
  have hones : BitVec.ofNat 11 (e + 1075).toNat ≠ -1#11 := by
    intro heq
    have hnat := congrArg BitVec.toNat heq
    have hall : (-1#11).toNat = 2047 := by decide
    rw [BitVec.toNat_ofNat, hall] at hnat
    omega
  have hzero : BitVec.ofNat 11 (e + 1075).toNat ≠ 0#11 := by
    intro heq
    have hnat := congrArg BitVec.toNat heq
    rw [BitVec.toNat_ofNat, BitVec.toNat_ofNat] at hnat
    omega
  have hmantissa : (1#1 ++ BitVec.ofNat 52 m).toNat = m := by
    rw [BitVec.toNat_append, ← Nat.shiftLeft_add_eq_or_of_lt (BitVec.ofNat 52 m).isLt,
      BitVec.toNat_ofNat, BitVec.toNat_ofNat, Nat.shiftLeft_eq]
    omega
  have hexponent : ((BitVec.ofNat 11 (e + 1075).toNat).toNat : Int) - 1075 = e := by
    rw [BitVec.toNat_ofNat]
    omega
  show UnpackedFloat.unpack Format.binary64 (UnpackedFloat.pack Format.binary64 _) = _
  rw [pack_normal hlow hhigh he he' hm, UnpackedFloat.unpack]
  simp only [unpackMantissa_packComponents, unpackExponent_packComponents, hsign]
  rw [if_neg hones, if_neg hzero]
  simp only [finite.injEq, true_and]
  exact ⟨hmantissa, hexponent⟩

end Bits

/-- The exact value of a float, from its bits as a number. -/
theorem ofFloat?_of_toNat {x : Float} {b f : Nat} (hb : 0 < b) (hb' : b < 2047) (hf : f < 2 ^ 52)
    (hx : x.toBits.toNat = b * 2 ^ 52 + f) :
    Dyadic.ofFloat? x = some ⟨false, 2 ^ 52 + f, (b : Int) - 1075⟩ := by
  have hexponent : (x.toBits >>> 52 &&& 0x7FF).toNat = b := by
    rw [UInt64.toNat_and, UInt64.toNat_shiftRight, hx]
    show ((b * 2 ^ 52 + f) >>> 52) &&& (2 ^ 11 - 1) = b
    rw [Nat.and_two_pow_sub_one_eq_mod, Nat.shiftRight_eq_div_pow]
    omega
  have hfraction : (x.toBits &&& 0xFFFFFFFFFFFFF).toNat = f := by
    rw [UInt64.toNat_and, hx]
    show (b * 2 ^ 52 + f) &&& (2 ^ 52 - 1) = f
    rw [Nat.and_two_pow_sub_one_eq_mod]
    omega
  have hsign : (x.toBits >>> 63 == 1) = false := by
    rw [beq_eq_false_iff_ne]
    intro heq
    have hnat := congrArg UInt64.toNat heq
    rw [UInt64.toNat_shiftRight, hx] at hnat
    change (b * 2 ^ 52 + f) >>> 63 = 1 at hnat
    rw [Nat.shiftRight_eq_div_pow] at hnat
    omega
  unfold Dyadic.ofFloat?
  simp only [hexponent, hfraction, hsign]
  rw [if_neg (by rw [beq_iff_eq]; omega), if_neg (by rw [beq_iff_eq]; omega)]
  rfl

theorem ofFloat?_pack {m : Nat} {e : Int} (hlow : 2 ^ 52 ≤ m) (hhigh : m < 2 ^ 53)
    (he : -1074 ≤ e) (he' : e ≤ 971) (hm : 0 < m) :
    Dyadic.ofFloat? (.ofModel (.pack (.finite .positive m e hm))) = some ⟨false, m, e⟩ := by
  have hbits : (Float.ofModel (.pack (.finite .positive m e hm))).toBits.toNat =
      (e + 1075).toNat * 2 ^ 52 + (m - 2 ^ 52) := toNat_pack hlow hhigh he he' hm
  have hsignificand : 2 ^ 52 + (m - 2 ^ 52) = m := by omega
  have hexponent : ((e + 1075).toNat : Int) - 1075 = e := by omega
  rw [ofFloat?_of_toNat (by omega) (by omega) (by omega) hbits, hsignificand, hexponent]

/-! ## Natural numbers -/

/-- A number below 2 ^ 53 is scaled to 53 bits. -/
theorem exists_scaled {n : Nat} (hpos : 0 < n) (hn : n < 2 ^ 53) :
    ∃ j, j ≤ 52 ∧ n.log2 = 52 - j ∧ 2 ^ 52 ≤ n * 2 ^ j ∧ n * 2 ^ j < 2 ^ 53 := by
  have hlog : n.log2 < 53 := (Nat.log2_lt (by omega)).mpr hn
  rcases (Nat.log2_eq_iff (k := n.log2) (by omega)).mp rfl with ⟨hlow, hhigh⟩
  refine ⟨52 - n.log2, by omega, by omega, ?_, ?_⟩
  · calc 2 ^ 52 = 2 ^ n.log2 * 2 ^ (52 - n.log2) := by
          rw [← Nat.pow_add]
          congr 1
          omega
      _ ≤ n * 2 ^ (52 - n.log2) := Nat.mul_le_mul_right _ hlow
  · calc n * 2 ^ (52 - n.log2) < 2 ^ (n.log2 + 1) * 2 ^ (52 - n.log2) :=
          Nat.mul_lt_mul_of_pos_right hhigh (by positivity)
      _ = 2 ^ 53 := by
          rw [← Nat.pow_add]
          congr 1
          omega

section Scaled

variable {n j : Nat} (hj : j ≤ 52) (hlog : n.log2 = 52 - j) (hlow : 2 ^ 52 ≤ n * 2 ^ j)
  (hhigh : n * 2 ^ j < 2 ^ 53)

include hj hlog hlow hhigh

theorem round_scaled :
    UnpackedFloat.round Format.binary64 .positive n 0 =
      .finite .positive (n * 2 ^ j) (-j) (by omega) := by
  have htarget : Format.binary64.targetExponent (totalExponent n 0) = -j := by
    rw [targetExponent_eq hlog (by omega)]
    omega
  have hscaled : decreaseExponent n 0 (-j) = (n * 2 ^ j * 2 ^ 0, -(j : Int)) := by
    have hshift : (0 - -(j : Int)).toNat = j := by omega
    unfold decreaseExponent
    rw [hshift]
    dsimp only
    rw [Nat.shiftLeft_eq, Nat.pow_zero, Nat.mul_one, Int.zero_sub]
  unfold UnpackedFloat.round
  simp only [htarget, hscaled]
  rw [roundWithAccuracy_exact .positive hlow hhigh 0 (by omega)]
  simp only [Nat.cast_zero, Int.add_zero]

/-- The float that a natural number becomes, in the two steps in which the library makes it. -/
theorem ofNat_eq :
    Float.ofNat n = .ofModel (.pack (.finite .positive (n * 2 ^ j) (-j) (by omega))) := by
  have hn : n < 2 ^ 53 := Nat.lt_of_le_of_lt (Nat.le_mul_of_pos_right n (by positivity)) hhigh
  have hpos : (n : Int) > 0 := by
    rcases Nat.eq_zero_or_pos n with rfl | hpos <;> omega
  have hconverted : UnpackedFloat.ofUInt64 Format.binary64 n.toUInt64 =
      .finite .positive (n * 2 ^ j) (-j) (by omega) := by
    have hsame : n.toUInt64.toNat = n := Nat.mod_eq_of_lt (by omega)
    unfold UnpackedFloat.ofUInt64 UnpackedFloat.ofNat UnpackedFloat.ofInt UnpackedFloat.normalize
    rw [hsame, Int.compare_eq_gt.mpr hpos]
    exact round_scaled hj hlog hlow hhigh
  have hone : (1.0 : Float).toModel.unpack = .finite .positive (2 ^ 52) (-52) (by decide) := rfl
  have hproduct := roundWithAccuracy_exact (Sign.positive * Sign.positive) hlow hhigh 52
    (e := -(j : Int) + -52) (by omega)
  show Float.ofScientific n false 0 = _
  unfold Float.ofScientific
  rw [dif_pos ⟨hn, by decide⟩]
  show Float.ofModel (.pack (UnpackedFloat.mul Format.binary64
    (Float.Model.pack (UnpackedFloat.ofUInt64 Format.binary64 n.toUInt64)).unpack
    (1.0 : Float).toModel.unpack)) = _
  rw [hconverted, unpack_pack hlow hhigh (by omega) (by omega), hone]
  unfold UnpackedFloat.mul
  dsimp only
  rw [hproduct]
  congr 3
  omega

end Scaled

/-- What is known of the first and the last of the numbers by evaluation, and of the zeros. -/
theorem toCount_checked : toCount (Float.ofNat 0) = 0 ∧ toCount (Float.ofNat (2 ^ 53)) = 2 ^ 53 ∧
    toCount 0 = 0 ∧ toCount (-0) = 0 := by
  decide +kernel

/-- A natural number up to 2 ^ 53 is what its float is truncated to. -/
theorem toCount_ofNat {n : Nat} (hn : n ≤ 2 ^ 53) : toCount (Float.ofNat n) = n := by
  rcases Nat.eq_zero_or_pos n with rfl | hpos
  · exact toCount_checked.1
  rcases Nat.eq_or_lt_of_le hn with rfl | hlt
  · exact toCount_checked.2.1
  rcases exists_scaled hpos hlt with ⟨j, hj, hlog, hlow, hhigh⟩
  have htruncate : Dyadic.truncate ⟨false, n * 2 ^ j, -(j : Int)⟩ = n := by
    have hnumerator : (-(j : Int)).toNat = 0 := by omega
    have hscale : (- -(j : Int)).toNat = j := by omega
    unfold Dyadic.truncate Dyadic.signed Dyadic.numerator Dyadic.scale
    simp only [hnumerator, hscale]
    show ((n * 2 ^ j * 2 ^ 0 / 2 ^ j : Nat) : Int) = n
    rw [Nat.pow_zero, Nat.mul_one, Nat.mul_div_cancel _ (by positivity)]
  unfold toCount clampedTruncate
  rw [ofNat_eq hj hlog hlow hhigh, ofFloat?_pack hlow hhigh (by omega) (by omega)]
  dsimp only
  rw [htruncate]
  omega

/-- Up to 2 ^ 53 different numbers stay different, also as far as equality of floats goes. -/
theorem ofNat_inj {i n : Nat} (hi : i ≤ 2 ^ 53) (hn : n ≤ 2 ^ 53) :
    (Float.ofNat i == Float.ofNat n) = true ↔ i = n := by
  have hzero : ∀ {k}, k ≤ 2 ^ 53 → IsZero (Float.ofNat k) → k = 0 := by
    intro k hk hz
    have hcount := toCount_ofNat hk
    rcases hz with hz | hz <;> rw [hz] at hcount
    · exact hcount.symm.trans toCount_checked.2.2.1
    · exact hcount.symm.trans toCount_checked.2.2.2
  rw [beq_iff]
  constructor
  · rintro (⟨hzi, hzn⟩ | ⟨heq, _⟩)
    · rw [hzero hi hzi, hzero hn hzn]
    · rw [← toCount_ofNat hi, heq, toCount_ofNat hn]
  · rintro rfl
    exact .inr ⟨rfl, isNaN_ofNat i⟩

end Number

end PixelEffects
