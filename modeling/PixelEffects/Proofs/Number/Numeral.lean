import Mathlib.Algebra.Group.Nat.Defs
import PixelEffects.Number.Numeral
import PixelEffects.Proofs.Text.Ascii

/-!
# The Texts of Numbers

How long the text of a number can be, and what it is made of.

A number is written without an exponent, so one that is very large or very small has a long text.
There is a bound all the same, because the exponent of a float is bounded. It takes three steps to
get there: the exact value of a float, the decimal that is chosen for it, and its layout. The bounds
are generous, since nothing depends on how sharp they are.

## Main definitions

* `Numeral.isMark`: The characters that numbers are written with.
* `Decimal.Moderate`: A decimal of a size that floats have.

## Theorems

* `Dyadic.bounds_of_ofFloat?`: The exact value of a float is bounded.
* `Decimal.shortest_moderate`: So is the decimal that is chosen for it.
* `Numeral.scriptText_isMark`, `Numeral.utf8ByteSize_scriptText`: The text of a number.
-/

namespace PixelEffects

/-! ## The exact value -/

namespace Dyadic

theorem bounds_of_ofFloat? {x : Float} {d : Dyadic} (h : ofFloat? x = some d) :
    d.significand < 2 ^ 53 ∧ -1074 ≤ d.exponent ∧ d.exponent ≤ 971 := by
  -- The fields of the bits are masked, and that bounds them.
  have hbiased : ((x.toBits >>> 52) &&& 0x7FF).toNat ≤ 0x7FF := by
    rw [UInt64.toNat_and]
    exact Nat.and_le_right
  have hfraction : (x.toBits &&& 0xFFFFFFFFFFFFF).toNat ≤ 0xFFFFFFFFFFFFF := by
    rw [UInt64.toNat_and]
    exact Nat.and_le_right
  have hpow : Nat.pow 2 52 = 2 ^ 52 := rfl
  unfold ofFloat? at h
  simp only [beq_iff_eq, hpow] at h
  split at h
  · cases h
  · split at h
    · cases h
      refine ⟨?_, ?_, ?_⟩ <;> dsimp only <;> omega
    · cases h
      refine ⟨?_, ?_, ?_⟩ <;> dsimp only <;> omega

end Dyadic

/-! ## The decimal -/

namespace Decimal

/-- A decimal of a size that floats have. -/
structure Moderate (d : Decimal) : Prop where
  digits : d.digits < 10 ^ 1100
  low : -1074 ≤ d.exponent
  high : d.exponent ≤ 350

/-- The leading digit of a float stands where its exponent says, roughly. -/
theorem bounds_of_leadingExponent {d : Dyadic} (hsome : d.significand ≠ 0)
    (hsignificand : d.significand < 2 ^ 53) (hlow : -1074 ≤ d.exponent) (hhigh : d.exponent ≤ 971) :
    -326 ≤ leadingExponent d ∧ leadingExponent d ≤ 310 := by
  have hlog : d.significand.log2 < 53 := (Nat.log2_lt hsome).mpr hsignificand
  have hguess : Int.fdiv ((d.significand.log2 + d.exponent) * 30103) 100000 =
      (d.significand.log2 + d.exponent) * 30103 / 100000 :=
    Int.fdiv_eq_ediv_of_nonneg _ (by decide)
  unfold leadingExponent
  simp only [hguess]
  split
  · omega
  · split <;> omega

/-- The point of a grid that is taken is one of the two neighbours of the value. -/
theorem le_of_onGrid? {i : RoundingInterval} {t : Int} {n : Nat} (h : i.onGrid? t = some n) :
    n ≤ i.value * (i.unit t).1 + 1 := by
  have hbelow : i.value * (i.unit t).1 / (i.unit t).2 ≤ i.value * (i.unit t).1 :=
    Nat.div_le_self _ _
  unfold RoundingInterval.onGrid? at h
  dsimp only at h
  split at h
  · split at h <;> cases h <;> omega
  · cases h
    omega
  · cases h
    omega
  · cases h

/-- A point of a grid that is not too fine is not too large. -/
theorem digits_of_onGrid? {d : Dyadic} {t : Int} {n : Nat}
    (hsignificand : d.significand < 2 ^ 53) (hhigh : d.exponent ≤ 971) (ht : -400 ≤ t)
    (h : (RoundingInterval.of d).onGrid? t = some n) : n < 10 ^ 1100 := by
  have hunit : ((RoundingInterval.of d).unit t).1 =
      2 ^ (d.exponent - 2).toNat * 10 ^ (-t).toNat := rfl
  have hvalue : (RoundingInterval.of d).value = 4 * d.significand := rfl
  have hbinary : (d.exponent - 2).toNat ≤ 969 := by omega
  have hdecimal : (-t).toNat ≤ 400 := by omega
  have htwo := Nat.pow_le_pow_right (show 0 < 2 by decide) hbinary
  have hten := Nat.pow_le_pow_right (show 0 < 10 by decide) hdecimal
  have hfour : 4 * d.significand ≤ 2 ^ 55 := by omega
  have hnear := le_of_onGrid? h
  rw [hunit, hvalue] at hnear
  calc n ≤ 4 * d.significand * (2 ^ (d.exponent - 2).toNat * 10 ^ (-t).toNat) + 1 := hnear
    _ ≤ 2 ^ 55 * (2 ^ 969 * 10 ^ 400) + 1 :=
        Nat.add_le_add_right (Nat.mul_le_mul hfour (Nat.mul_le_mul htwo hten)) 1
    _ < 10 ^ 1100 := by decide +kernel

theorem search_moderate {d : Dyadic} (hsignificand : d.significand < 2 ^ 53)
    (hhigh : d.exponent ≤ 971) {n : Nat} {t : Int} (hlow : -400 + n ≤ t) (ht : t ≤ 310)
    {found : Decimal} (h : (RoundingInterval.of d).search n t = some found) :
    found.digits < 10 ^ 1100 ∧ -400 ≤ found.exponent ∧ found.exponent ≤ 310 := by
  induction n generalizing t with
  | zero => cases h
  | succ n ih =>
      unfold RoundingInterval.search at h
      split at h
      next digits hgrid =>
        cases h
        refine ⟨digits_of_onGrid? hsignificand hhigh (by omega) hgrid, ?_, ht⟩
        dsimp only
        omega
      next => exact ih (by omega) (by omega) h

/-- Zeros at the end of the digits do not change the size much. -/
theorem trim_bounds (n : Nat) (d : Decimal) :
    (trim n d).digits ≤ d.digits ∧ d.exponent ≤ (trim n d).exponent ∧
      (trim n d).exponent ≤ d.exponent + n := by
  induction n generalizing d with
  | zero => exact ⟨Nat.le_refl _, Int.le_refl _, by simp only [trim]; omega⟩
  | succ n ih =>
      unfold trim
      split
      · have hrest := ih ⟨d.digits / 10, d.exponent + 1⟩
        dsimp only at hrest
        omega
      · refine ⟨Nat.le_refl _, Int.le_refl _, ?_⟩
        omega

theorem exact_bounds {d : Dyadic} (hsignificand : d.significand < 2 ^ 53)
    (hlow : -1074 ≤ d.exponent) (hhigh : d.exponent ≤ 971) :
    (exact d).digits < 10 ^ 1100 ∧ -1074 ≤ (exact d).exponent ∧ (exact d).exponent ≤ 310 := by
  unfold exact
  split
  · -- A whole number: its digits are those of the significand and a power of two.
    have hnumerator : d.numerator = d.significand * 2 ^ d.exponent.toNat := rfl
    have hexponent : d.exponent.toNat ≤ 971 := by omega
    have hpow := Nat.pow_le_pow_right (show 0 < 2 by decide) hexponent
    dsimp only
    refine ⟨?_, by omega, by omega⟩
    rw [hnumerator]
    calc d.significand * 2 ^ d.exponent.toNat ≤ 2 ^ 53 * 2 ^ 971 :=
          Nat.mul_le_mul (Nat.le_of_lt hsignificand) hpow
      _ < 10 ^ 1100 := by decide +kernel
  · -- A fraction: for each factor of two below there is a factor of five above.
    have hscale : d.scale ≤ 1074 := by
      unfold Dyadic.scale
      omega
    have hpow := Nat.pow_le_pow_right (show 0 < 5 by decide) hscale
    dsimp only
    refine ⟨?_, hlow, by omega⟩
    calc d.significand * 5 ^ d.scale ≤ 2 ^ 53 * 5 ^ 1074 :=
          Nat.mul_le_mul (Nat.le_of_lt hsignificand) hpow
      _ < 10 ^ 1100 := by decide +kernel

theorem shortest_moderate {x : Float} {d : Dyadic} (h : Dyadic.ofFloat? x = some d) :
    (shortest d).Moderate := by
  rcases Dyadic.bounds_of_ofFloat? h with ⟨hsignificand, hlow, hhigh⟩
  unfold shortest
  dsimp only
  split
  · exact ⟨by decide +kernel, by decide, by decide⟩
  · next hzero =>
      have hsome : d.significand ≠ 0 := fun hz => hzero (by rw [hz]; rfl)
      have hlead := bounds_of_leadingExponent hsome hsignificand hlow hhigh
      -- If nothing is found, the exact value is taken.
      have hfound : ∀ found, found =
          ((RoundingInterval.of d).search 18 (leadingExponent d)).getD (exact d) →
            found.digits < 10 ^ 1100 ∧ -1074 ≤ found.exponent ∧ found.exponent ≤ 310 := by
        intro found hfound
        cases hsearch : (RoundingInterval.of d).search 18 (leadingExponent d) with
        | none =>
            rw [hfound, hsearch]
            exact exact_bounds hsignificand hlow hhigh
        | some near =>
            rw [hfound, hsearch]
            have hnear := search_moderate hsignificand hhigh (by omega) hlead.2 hsearch
            exact ⟨hnear.1, by dsimp only [Option.getD]; omega, hnear.2.2⟩
      rcases hfound _ rfl with ⟨hdigits, hlow', hhigh'⟩
      rcases trim_bounds 20 (((RoundingInterval.of d).search 18 (leadingExponent d)).getD (exact d))
        with ⟨htrim, hlow'', hhigh''⟩
      exact ⟨Nat.lt_of_le_of_lt htrim hdigits, by omega, by omega⟩

end Decimal

/-! ## The text -/

namespace Numeral

open Text

/-- The characters that numbers are written with, the names of special values included. -/
def isMark (c : Char) : Bool :=
  c.isAlphanum || c == '.' || c == '-'

theorem lt_of_isMark {c : Char} (h : isMark c = true) : c.toNat < 0x80 ∧ c ≠ '%' := by
  unfold isMark at h
  rw [Bool.or_eq_true, Bool.or_eq_true, beq_iff_eq, beq_iff_eq] at h
  rcases h with (h | rfl) | rfl
  · -- Alphanumeric characters are three ranges, and the percent sign is in none.
    have hclass : c.isAlphanum = ((decide (c.val ≥ 'A'.val ∧ c.val ≤ 'Z'.val) ||
        (decide (c.val ≥ 'a'.val) && decide (c.val ≤ 'z'.val))) ||
          (decide (c.val ≥ '0'.val) && decide (c.val ≤ '9'.val))) := rfl
    have hrange : c.toNat < 0x80 ∧ c.toNat ≠ 0x25 := by
      simp only [hclass, Bool.or_eq_true, Bool.and_eq_true, decide_eq_true_eq, ge_iff_le,
        UInt32.le_iff_toNat_le] at h
      change (0x41 ≤ c.toNat ∧ c.toNat ≤ 0x5A ∨ 0x61 ≤ c.toNat ∧ c.toNat ≤ 0x7A) ∨
        0x30 ≤ c.toNat ∧ c.toNat ≤ 0x39 at h
      omega
    refine ⟨hrange.1, ?_⟩
    rintro rfl
    exact hrange.2 rfl
  · decide
  · decide

theorem isMark_of_isDigit {c : Char} (h : c.isDigit = true) : isMark c = true := by
  have hclass : isMark c = (((c.isAlpha || c.isDigit) || c == '.') || c == '-') := rfl
  rw [hclass, h, Bool.or_true, Bool.true_or, Bool.true_or]

theorem isDigit_of_mem_ofNat {n : Nat} {c : Char} (h : c ∈ ofNat n) : c.isDigit = true :=
  Nat.isDigit_of_mem_toDigits (by decide) (by decide) h

theorem isMark_of_mem_hex {n : Nat} {c : Char} (h : c ∈ Nat.toDigits 16 n) : isMark c = true := by
  have hdigit : ∀ d < 16, isMark (Nat.digitChar d) = true := by decide
  induction n using Nat.strongRecOn with
  | ind n ih =>
      rw [Nat.toDigits_eq_if (by decide)] at h
      split at h
      · next hsmall =>
          rw [List.mem_singleton.mp h]
          exact hdigit n hsmall
      · next hlarge =>
          rcases List.mem_append.mp h with h | h
          · exact ih (n / 16) (by omega) h
          · rw [List.mem_singleton.mp h]
            exact hdigit (n % 16) (Nat.mod_lt n (by decide))

/-- What holds of digits and of the point holds of all that digits with a point are made of. -/
theorem of_mem_withPoint {P : Char → Prop} (hdigit : ∀ c, c.isDigit = true → P c) (hpoint : P '.')
    {digits : List Char} {places : Nat} (hdigits : ∀ c ∈ digits, P c) {c : Char}
    (h : c ∈ withPoint digits places) : P c := by
  unfold withPoint at h
  split at h
  · exact hdigits c h
  · -- Zeros may have to stand in front for the point to have a digit on its left.
    have hpadded : ∀ d ∈ List.replicate (places + 1 - digits.length) '0' ++ digits, P d := by
      intro d hd
      rcases List.mem_append.mp hd with hd | hd
      · rw [(List.mem_replicate.mp hd).2]
        exact hdigit '0' rfl
      · exact hdigits d hd
    rcases List.mem_append.mp h with h | h
    · exact hpadded c (List.mem_of_mem_take h)
    · rcases List.mem_cons.mp h with rfl | h
      · exact hpoint
      · exact hpadded c (List.mem_of_mem_drop h)

theorem length_withPoint (digits : List Char) (places : Nat) :
    (withPoint digits places).length ≤ max digits.length (places + 1) + 1 := by
  unfold withPoint
  split
  · omega
  · simp only [List.length_append, List.length_cons, List.length_take, List.length_drop,
      List.length_replicate]
    omega

theorem of_mem_layout {P : Char → Prop} (hdigit : ∀ c, c.isDigit = true → P c) (hpoint : P '.')
    {d : Decimal} {c : Char} (h : c ∈ layout d) : P c := by
  unfold layout at h
  split at h
  · exact hdigit c (isDigit_of_mem_ofNat h)
  · exact of_mem_withPoint hdigit hpoint (fun c hc => hdigit c (isDigit_of_mem_ofNat hc)) h

theorem isMark_of_mem_layout {d : Decimal} {c : Char} (h : c ∈ layout d) : isMark c = true :=
  of_mem_layout (fun _ => isMark_of_isDigit) rfl h

theorem length_ofNat {n k : Nat} (hk : 0 < k) (h : n < 10 ^ k) : (ofNat n).length ≤ k :=
  (Nat.length_toDigits_le_iff (by decide) hk).mpr h

/-- Zeros behind the digits make a text longer by their number. -/
theorem length_ofNat_mul {n i j k : Nat} (hi : 0 < i) (hn : n < 10 ^ i) (hk : k ≤ j) :
    (ofNat (n * 10 ^ k)).length ≤ i + j := by
  have hpow := Nat.pow_le_pow_right (show 0 < 10 by decide) hk
  refine length_ofNat (by omega) ?_
  rw [Nat.pow_add]
  exact Nat.mul_lt_mul_of_lt_of_le hn hpow (Nat.pow_pos (by decide))

theorem length_layout {d : Decimal} (h : d.Moderate) : (layout d).length ≤ 1450 := by
  have hlow := h.low
  have hhigh := h.high
  unfold layout
  split
  · have hexponent : d.exponent.toNat ≤ 350 := by omega
    exact length_ofNat_mul (by decide) h.digits hexponent
  · have hdigits := length_ofNat (by decide) h.digits
    have hpoint := length_withPoint (ofNat d.digits) (-d.exponent).toNat
    omega

/-- The text of a number is made of digits, of letters, and of a sign and a point. -/
theorem scriptText_isMark (x : Float) : ∀ c ∈ (scriptText x).toList, isMark c = true := by
  have hspecial : ∀ s ∈ ["nan", "0", "-inf", "inf"], ∀ c ∈ s.toList, isMark c = true := by
    intro s hs
    have hall : ∀ s ∈ ["nan", "0", "-inf", "inf"], s.toList.all isMark = true := by decide
    exact List.all_eq_true.mp (hall s hs)
  unfold scriptText positional withSign
  split
  · exact hspecial "nan" (by decide)
  · split
    · exact hspecial "0" (by decide)
    · split
      · split
        · exact hspecial "-inf" (by decide)
        · exact hspecial "inf" (by decide)
      · intro c hc
        rw [String.toList_ofList] at hc
        split at hc
        · rcases List.mem_cons.mp hc with rfl | hc
          · rfl
          · exact isMark_of_mem_layout hc
        · exact isMark_of_mem_layout hc

theorem utf8ByteSize_scriptText (x : Float) : (scriptText x).utf8ByteSize ≤ 1500 := by
  have hascii : isAscii (scriptText x) = true :=
    isAscii_iff.mpr fun c hc => (lt_of_isMark (scriptText_isMark x c hc)).1
  rw [utf8ByteSize_of_isAscii hascii]
  unfold scriptText positional withSign
  split
  · decide
  · split
    · decide
    · split
      · split <;> decide
      · next d hd =>
          have hlayout := length_layout (Decimal.shortest_moderate hd)
          rw [String.toList_ofList]
          dsimp only
          split
          · rw [List.length_cons]
            omega
          · omega

end Numeral

end PixelEffects
