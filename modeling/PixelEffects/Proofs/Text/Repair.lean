import Mathlib.Tactic.SplitIfs
import PixelEffects.Proofs.Text.Ascii

/-!
# Bytes That Need No Repair

Bytes that form whole characters are kept as they are.

Reading starts between two characters and is there again after the last byte of each. So it is enough
to see what happens to the bytes of one character. Its first byte says how many follow, and it narrows
the range of the second one just so far that the code points which are too small for as many bytes, or
are no characters, are left out. The bytes behind the first one bring six bits each.

A part of a text that begins and ends between two characters is made of whole characters, so cutting
it out changes nothing about its bytes.

## Theorems

* `Utf8.repairFrom_utf8EncodeChar`: Reading the bytes of a character.
* `Utf8.repair_utf8Encode`: The bytes of characters make up these characters.
* `Utf8.toByteArray_slice`: A part between two characters has the bytes that it was cut out of.
-/

namespace PixelEffects

namespace Utf8

/-! ## First bytes -/

/-- What first bytes announce, by evaluation: the bits that they bring, how many bytes follow, and
    the range of the next one. -/
theorem start_checked :
    (∀ n < 0x80, start (UInt8.ofNat n) = ([Char.ofNat n], .between)) ∧
    (∀ n < 32, 2 ≤ n → start (UInt8.ofNat (n + 0xC0)) = ([], .inside n 1 0x80 0xBF)) ∧
    (∀ n < 16, start (UInt8.ofNat (n + 0xE0)) =
      ([], .inside n 2 (if n = 0 then 0xA0 else 0x80) (if n = 13 then 0x9F else 0xBF))) ∧
    ∀ n < 5, start (UInt8.ofNat (n + 0xF0)) =
      ([], .inside n 3 (if n = 0 then 0x90 else 0x80) (if n = 4 then 0x8F else 0xBF)) := by
  decide +kernel

/-! ## Bytes that follow -/

section Follow

variable {value n : Nat} {low high : UInt8}

theorem toNat_following (n : Nat) : (UInt8.ofNat (n % 64 + 0x80)).toNat = n % 64 + 0x80 := by
  rw [UInt8.toNat_ofNat']
  omega

theorem isInRange_following (hlow : low.toNat ≤ n % 64 + 0x80) (hhigh : n % 64 + 0x80 ≤ high.toNat) :
    (decide (low ≤ UInt8.ofNat (n % 64 + 0x80)) && decide (UInt8.ofNat (n % 64 + 0x80) ≤ high)) =
      true := by
  rw [Bool.and_eq_true, decide_eq_true_eq, decide_eq_true_eq, UInt8.le_iff_toNat_le,
    UInt8.le_iff_toNat_le, toNat_following]
  exact ⟨hlow, hhigh⟩

/-- A byte that follows brings six bits. The last one completes the character. -/
theorem step_last (hlow : low.toNat ≤ n % 64 + 0x80) (hhigh : n % 64 + 0x80 ≤ high.toNat) :
    step (UInt8.ofNat (n % 64 + 0x80)) (.inside value 1 low high) =
      ([Char.ofNat (value * 64 + n % 64)], .between) := by
  have hbits : (n % 64 + 0x80) % 64 = n % 64 := by omega
  unfold step
  dsimp only
  rw [if_pos (isInRange_following hlow hhigh), toNat_following, hbits]
  rfl

theorem step_more (missing : Nat) (hlow : low.toNat ≤ n % 64 + 0x80)
    (hhigh : n % 64 + 0x80 ≤ high.toNat) :
    step (UInt8.ofNat (n % 64 + 0x80)) (.inside value (missing + 2) low high) =
      ([], .inside (value * 64 + n % 64) (missing + 1) 0x80 0xBF) := by
  have hbits : (n % 64 + 0x80) % 64 = n % 64 := by omega
  unfold step
  dsimp only
  rw [if_pos (isInRange_following hlow hhigh), toNat_following, hbits]
  rfl

/-- The range of a byte that is not the second one is that of all six bits. -/
theorem step_last_anyway : step (UInt8.ofNat (n % 64 + 0x80)) (.inside value 1 0x80 0xBF) =
    ([Char.ofNat (value * 64 + n % 64)], .between) := by
  apply step_last <;> simp only [UInt8.reduceToNat] <;> omega

end Follow

/-! ## Characters -/

/-- The code points of characters have a gap, and an end. -/
theorem toNat_valid (c : Char) : c.toNat < 0xD800 ∨ 0xDFFF < c.toNat ∧ c.toNat < 0x110000 :=
  c.valid

/-- The bytes of a character are read as the character. -/
theorem repairFrom_utf8EncodeChar (done : List Char) (c : Char) (bytes : List UInt8) :
    repairFrom done .between (String.utf8EncodeChar c ++ bytes) =
      repairFrom (c :: done) .between bytes := by
  rcases start_checked with ⟨hone, htwo, hthree, hfour⟩
  have hvalid := toNat_valid c
  have hself : ∀ {n}, n = c.toNat → Char.ofNat n = c := by
    rintro n rfl
    exact Char.ofNat_toNat c
  have hval : c.val.toNat = c.toNat := rfl
  unfold String.utf8EncodeChar
  rw [hval]
  dsimp only
  split_ifs with h1 h2 h3
  · -- One byte, which is the code point.
    simp only [List.cons_append, List.nil_append, repairFrom, step, hone c.toNat (by omega)]
    rw [Char.ofNat_toNat]
    rfl
  · -- Two bytes. The first one is at least 0xC2, since the code point is at least 0x80.
    have hbits : c.toNat / 64 % 32 * 64 + c.toNat % 64 = c.toNat := by omega
    simp only [List.cons_append, List.nil_append, repairFrom, step.eq_1,
      htwo (c.toNat / 64 % 32) (by omega) (by omega), step_last_anyway, hself hbits,
      List.reverse_nil, List.reverse_singleton]
  · -- Three bytes. The range of the second one depends on the first.
    have hbits : (c.toNat / 4096 % 16 * 64 + c.toNat / 64 % 64) * 64 + c.toNat % 64 = c.toNat := by
      omega
    have hsecond : step (UInt8.ofNat (c.toNat / 64 % 64 + 0x80)) (.inside (c.toNat / 4096 % 16) 2
        (if c.toNat / 4096 % 16 = 0 then 0xA0 else 0x80)
        (if c.toNat / 4096 % 16 = 13 then 0x9F else 0xBF)) =
          ([], .inside (c.toNat / 4096 % 16 * 64 + c.toNat / 64 % 64) 1 0x80 0xBF) := by
      apply step_more 0 <;> split <;> simp only [UInt8.reduceToNat] <;> omega
    simp only [List.cons_append, List.nil_append, repairFrom, step.eq_1,
      hthree (c.toNat / 4096 % 16) (by omega), hsecond, step_last_anyway, hself hbits,
      List.reverse_nil, List.reverse_singleton]
  · -- Four bytes.
    have hbits : ((c.toNat / 262144 % 8 * 64 + c.toNat / 4096 % 64) * 64 + c.toNat / 64 % 64) * 64 +
        c.toNat % 64 = c.toNat := by omega
    have hsecond : step (UInt8.ofNat (c.toNat / 4096 % 64 + 0x80)) (.inside (c.toNat / 262144 % 8) 3
        (if c.toNat / 262144 % 8 = 0 then 0x90 else 0x80)
        (if c.toNat / 262144 % 8 = 4 then 0x8F else 0xBF)) =
          ([], .inside (c.toNat / 262144 % 8 * 64 + c.toNat / 4096 % 64) 2 0x80 0xBF) := by
      apply step_more 1 <;> split <;> simp only [UInt8.reduceToNat] <;> omega
    have hthird : ∀ value, step (UInt8.ofNat (c.toNat / 64 % 64 + 0x80)) (.inside value 2 0x80 0xBF) =
        ([], .inside (value * 64 + c.toNat / 64 % 64) 1 0x80 0xBF) := by
      intro value
      apply step_more 0 <;> simp only [UInt8.reduceToNat] <;> omega
    simp only [List.cons_append, List.nil_append, repairFrom, step.eq_1,
      hfour (c.toNat / 262144 % 8) (by omega), hsecond, hthird, step_last_anyway,
      hself hbits, List.reverse_nil, List.reverse_singleton]

/-- The bytes of characters make up these characters. -/
theorem repair_utf8Encode (cs : List Char) : repair cs.utf8Encode.data.toList = cs := by
  have hfrom : ∀ done : List Char,
      repairFrom done .between (cs.flatMap String.utf8EncodeChar) = done.reverse ++ cs := by
    induction cs with
    | nil =>
        intro done
        rw [List.flatMap_nil, repairFrom, List.append_nil]
    | cons c cs ih =>
        intro done
        rw [List.flatMap_cons, repairFrom_utf8EncodeChar, ih, List.reverse_cons, List.append_assoc]
        rfl
  rw [List.utf8Encode, List.toList_data_toByteArray, repair, hfrom, List.reverse_nil,
    List.nil_append]

/-! ## Parts -/

/-- A part that begins and ends between two characters has the bytes that it was cut out of. -/
theorem toByteArray_slice {s : String} {first last : Nat} (hle : first ≤ last)
    (hlast : last ≤ s.utf8ByteSize) (hfirst : String.Pos.Raw.IsValid s ⟨first⟩)
    (hvalid : String.Pos.Raw.IsValid s ⟨last⟩) :
    (slice s first last).toByteArray = s.toByteArray.extract first last := by
  have hbytes : (s.toByteArray.extract first last).IsValidUTF8 :=
    (String.Pos.Raw.isValidUTF8_extract_iff ⟨first⟩ ⟨last⟩ hle hlast).mpr (.inr ⟨hfirst, hvalid⟩)
  rcases hbytes with ⟨cs, hcs⟩
  rw [slice, String.toUTF8_eq_toByteArray, byteList_eq, hcs, repair_utf8Encode,
    String.toByteArray_ofList]

end Utf8

end PixelEffects
