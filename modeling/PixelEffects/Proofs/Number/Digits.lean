import PixelEffects.Proofs.Number.Numeral

/-!
# Values of Digits

The natural numbers that decimal digits write.

Digits count from the right, and zeros in front do not count. So a number with many digits behind these
zeros is a large one, and the digits that a number is written with have this number as their value.

## Theorems

* `Numeral.digitsValue_significant`: Zeros in front.
* `Numeral.le_digitsValue_of_long`: Many digits.
* `Numeral.digitsValue_ofNat`: The digits of a number.
-/

namespace PixelEffects

namespace Numeral

variable {ds : List Char}

/-- The value of digits is what they add up to in base ten. -/
theorem digitsValue_eq_ofDigitChars (ds : List Char) : digitsValue ds = Nat.ofDigitChars 10 ds 0 :=
  Nat.ofDigitChars_eq_foldl.symm

theorem digitsValue_cons (c : Char) (ds : List Char) :
    digitsValue (c :: ds) = digitValue c * 10 ^ ds.length + digitsValue ds := by
  calc digitsValue (c :: ds) = Nat.ofDigitChars 10 ds (10 * 0 + digitValue c) := by
        rw [digitsValue_eq_ofDigitChars, Nat.ofDigitChars_cons]
        rfl
    _ = 10 ^ ds.length * (10 * 0 + digitValue c) + Nat.ofDigitChars 10 ds 0 :=
        Nat.ofDigitChars_eq_ofDigitChars_zero
    _ = digitValue c * 10 ^ ds.length + digitsValue ds := by
        rw [digitsValue_eq_ofDigitChars, Nat.mul_zero, Nat.zero_add, Nat.mul_comm]

/-- Zeros in front do not count. -/
theorem digitsValue_significant (ds : List Char) : digitsValue (significant ds) = digitsValue ds := by
  unfold significant
  induction ds with
  | nil => rfl
  | cons c ds ih =>
      rw [List.dropWhile_cons]
      split
      · next hc =>
          have hzero : digitValue c = 0 := by
            rw [beq_iff_eq.mp hc]
            decide
          rw [ih, digitsValue_cons, hzero, Nat.zero_mul, Nat.zero_add]
      · rfl

/-- Digits that begin with one that is not zero have at least the value that their number says. -/
theorem le_digitsValue {c : Char} (hc : c.isDigit = true) (hzero : c ≠ '0') (ds : List Char) :
    10 ^ ds.length ≤ digitsValue (c :: ds) := by
  have hpos : 1 ≤ digitValue c := by
    have hlow : '0'.toNat ≤ c.toNat := (Bool.and_eq_true_iff.mp hc).1 |> of_decide_eq_true
    have hne : c.toNat ≠ '0'.toNat := fun h => hzero (Char.toNat_inj.mp h)
    unfold digitValue
    omega
  rw [digitsValue_cons]
  exact Nat.le_add_right_of_le (Nat.le_mul_of_pos_left _ hpos)

/-- More than twenty digits that count are too much for 64 bits. -/
theorem le_digitsValue_of_long (hds : ∀ c ∈ ds, c.isDigit = true)
    (hlong : 20 < (significant ds).length) : 2 ^ 64 ≤ digitsValue ds := by
  have hhead := List.head?_dropWhile_not (· == '0') ds
  have hsub : ∀ c ∈ significant ds, c.isDigit = true :=
    fun c hc => hds c (List.dropWhile_subset _ hc)
  rw [← digitsValue_significant]
  unfold significant at *
  cases hsig : ds.dropWhile (· == '0') with
  | nil =>
      rw [hsig] at hlong
      cases hlong
  | cons c rest =>
      rw [hsig] at hlong hhead hsub
      have hzero : c ≠ '0' := by simpa using hhead
      calc 2 ^ 64 ≤ 10 ^ 20 := by decide
        _ ≤ 10 ^ rest.length := Nat.pow_le_pow_right (by decide) (Nat.le_of_lt_succ hlong)
        _ ≤ digitsValue (c :: rest) := le_digitsValue (hsub c List.mem_cons_self) hzero rest

/-- A number is the value of its digits. -/
theorem digitsValue_ofNat (n : Nat) : digitsValue (ofNat n) = n :=
  (digitsValue_eq_ofDigitChars _).trans Nat.ofDigitChars_ten_toDigits

end Numeral

end PixelEffects
