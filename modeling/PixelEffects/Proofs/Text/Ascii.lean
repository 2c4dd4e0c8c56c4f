import PixelEffects.Text.Case
import PixelEffects.Text.Utf8

/-!
# Texts of ASCII Characters

Where every character takes one byte, nothing that is done to a text can make it longer.

In general it can. A character may take more bytes in upper case or in lower case than it did before,
and what is left of a character that was cut through is repaired with one of three bytes. Neither
happens to a text that is all ASCII: its cases are made one character at a time, and it can be cut
only between two characters.

## Main definitions

* `Text.isAscii`: All characters of a text take one byte.

## Theorems

* `Text.utf8ByteSize_of_isAscii`: Such a text has as many bytes as characters.
* `Case.toLower_of_isAscii`, `Case.toUpper_of_isAscii`: Its cases.
* `Utf8.slice_of_isAscii`: A part of it.
-/

namespace PixelEffects

namespace Text

/-- Whether all characters of a text take one byte. -/
def isAscii (s : String) : Bool :=
  s.toList.all fun c => c.toNat < 0x80

theorem isAscii_iff {s : String} : isAscii s = true ↔ ∀ c ∈ s.toList, c.toNat < 0x80 := by
  simp only [isAscii, List.all_eq_true, decide_eq_true_eq]

theorem isAscii_ofList {cs : List Char} (h : ∀ c ∈ cs, c.toNat < 0x80) :
    isAscii (String.ofList cs) = true := by
  rw [isAscii_iff, String.toList_ofList]
  exact h

/-- An ASCII character is encoded as its code point. -/
theorem utf8EncodeChar_of_lt {c : Char} (h : c.toNat < 0x80) :
    String.utf8EncodeChar c = [c.val.toUInt8] := by
  have hval : c.val ≤ 0x7F := by
    rw [UInt32.le_iff_toNat_le]
    exact Nat.le_of_lt_succ h
  exact String.utf8EncodeChar_eq_singleton (Char.utf8Size_eq_one_iff.mpr hval)

/-- The bytes of ASCII characters are their code points. -/
theorem bytes_of_lt {cs : List Char} (h : ∀ c ∈ cs, c.toNat < 0x80) :
    (String.ofList cs).toByteArray.data.toList = cs.map fun c => c.val.toUInt8 := by
  rw [String.toByteArray_ofList, List.utf8Encode, List.toList_data_toByteArray]
  induction cs with
  | nil => rfl
  | cons c cs ih =>
      rw [List.flatMap_cons, utf8EncodeChar_of_lt (h c List.mem_cons_self), List.map_cons,
        ih fun c' hc' => h c' (List.mem_cons_of_mem c hc')]
      rfl

theorem utf8ByteSize_of_isAscii {s : String} (h : isAscii s = true) :
    s.utf8ByteSize = s.toList.length := by
  have hbytes := congrArg List.length (bytes_of_lt (isAscii_iff.mp h))
  rw [String.ofList_toList, List.length_map, Array.length_toList] at hbytes
  exact hbytes

end Text

open Text

/-! ## Cases -/

namespace Case

/-- No rule but that for the sigma looks at what stands around a character. -/
theorem lowerFrom_of_lt {before lowered cs : List Char} (h : ∀ c ∈ cs, c.toNat < 0x80) :
    lowerFrom before lowered cs = lowered.reverse ++ cs.map Char.toLower := by
  induction cs generalizing before lowered with
  | nil => rw [lowerFrom, List.map_nil, List.append_nil]
  | cons c cs ih =>
      have hc := h c List.mem_cons_self
      have hsigma : (c == 'Σ') = false := by
        refine beq_false_of_ne ?_
        rintro rfl
        exact absurd hc (by decide)
      have hat : lowerAt before c cs = [c.toLower] := by
        unfold lowerAt lowerOf
        rw [hsigma, if_neg Bool.false_ne_true, if_pos hc]
      rw [lowerFrom, hat, ih fun c' hc' => h c' (List.mem_cons_of_mem c hc')]
      simp only [List.reverse_cons, List.reverse_nil, List.nil_append, List.singleton_append,
        List.append_assoc, List.map_cons]

theorem toLower_of_isAscii {s : String} (h : isAscii s = true) :
    toLower s = String.ofList (s.toList.map Char.toLower) := by
  rw [toLower, lowerFrom_of_lt (isAscii_iff.mp h), List.reverse_nil, List.nil_append]

theorem toUpper_of_isAscii {s : String} (h : isAscii s = true) :
    toUpper s = String.ofList (s.toList.map Char.toUpper) := by
  have hchar : ∀ c ∈ s.toList, upperOf c = [c.toUpper] := by
    intro c hc
    unfold upperOf
    rw [if_pos (isAscii_iff.mp h c hc)]
  rw [toUpper, List.map_eq_flatMap, List.flatMap_def, List.flatMap_def, List.map_congr_left hchar]

/-- The other case of an ASCII character is one, and of a letter a letter. -/
theorem toLower_of_lt {c : Char} (h : c.toNat < 0x80) :
    c.toLower.toNat < 0x80 ∧ (c.toLower = '%' → c = '%') := by
  have hall : ∀ n < 0x80, (Char.ofNat n).toLower.toNat < 0x80 ∧
      ((Char.ofNat n).toLower = '%' → Char.ofNat n = '%') := by decide +kernel
  have hc := hall c.toNat h
  rw [Char.ofNat_toNat] at hc
  exact hc

theorem toUpper_of_lt {c : Char} (h : c.toNat < 0x80) :
    c.toUpper.toNat < 0x80 ∧ (c.toUpper = '%' → c = '%') := by
  have hall : ∀ n < 0x80, (Char.ofNat n).toUpper.toNat < 0x80 ∧
      ((Char.ofNat n).toUpper = '%' → Char.ofNat n = '%') := by decide +kernel
  have hc := hall c.toNat h
  rw [Char.ofNat_toNat] at hc
  exact hc

end Case

/-! ## Parts -/

namespace Utf8

theorem byteList_loop (bytes : ByteArray) (i : Nat) (r : List UInt8) :
    ByteArray.toList.loop bytes i r = r.reverse ++ bytes.data.toList.drop i := by
  induction hleft : bytes.size - i generalizing i r with
  | zero =>
      have hdone : ¬ i < bytes.size := by omega
      have hlength : bytes.data.toList.length ≤ i := by
        rw [Array.length_toList]
        exact Nat.le_of_not_lt hdone
      rw [ByteArray.toList.loop, if_neg hdone, List.drop_eq_nil_of_le hlength, List.append_nil]
  | succ left ih =>
      have hlt : i < bytes.size := by omega
      have hget : i < bytes.data.toList.length := by
        rw [Array.length_toList]
        exact hlt
      have hbyte : bytes.get! i = bytes.data.toList[i] := by
        rw [Array.getElem_toList]
        exact getElem!_pos bytes.data i hlt
      rw [ByteArray.toList.loop, if_pos hlt, ih (i + 1) _ (by omega), hbyte,
        List.drop_eq_getElem_cons hget, List.reverse_cons, List.append_assoc]
      rfl

/-- The list of the bytes of an array. -/
theorem byteList_eq (bytes : ByteArray) : bytes.toList = bytes.data.toList := by
  rw [ByteArray.toList, byteList_loop, List.reverse_nil, List.nil_append, List.drop_zero]

/-- Bytes that are each a character are kept as they are. -/
theorem repairFrom_of_lt {done : List Char} {bytes : List UInt8} (h : ∀ b ∈ bytes, b < 0x80) :
    repairFrom done .between bytes =
      done.reverse ++ bytes.map fun b => Char.ofNat b.toNat := by
  induction bytes generalizing done with
  | nil => rw [repairFrom, List.map_nil, List.append_nil]
  | cons b bytes ih =>
      have hstep : step b .between = ([Char.ofNat b.toNat], .between) := by
        simp only [step, start, lead, if_pos (h b List.mem_cons_self)]
      rw [repairFrom, hstep]
      simp only [ih fun b' hb' => h b' (List.mem_cons_of_mem b hb'), List.reverse_cons,
        List.reverse_nil, List.nil_append, List.singleton_append, List.append_assoc, List.map_cons]

/-- The bytes of ASCII characters make up these characters. -/
theorem repair_of_lt {cs : List Char} (h : ∀ c ∈ cs, c.toNat < 0x80) :
    repair (cs.map fun c => c.val.toUInt8) = cs := by
  have hbyte : ∀ c ∈ cs, (c.val.toUInt8).toNat = c.toNat := by
    intro c hc
    have hlt := h c hc
    rw [UInt32.toNat_toUInt8]
    exact Nat.mod_eq_of_lt (Nat.lt_trans hlt (by decide))
  have hlt : ∀ b ∈ cs.map (fun c => c.val.toUInt8), b < 0x80 := by
    intro b hb
    rcases List.mem_map.mp hb with ⟨c, hc, rfl⟩
    rw [UInt8.lt_iff_toNat_lt, hbyte c hc]
    exact h c hc
  have hself : ∀ c ∈ cs, Char.ofNat (c.val.toUInt8).toNat = c := by
    intro c hc
    rw [hbyte c hc, Char.ofNat_toNat]
  rw [repair, repairFrom_of_lt hlt, List.reverse_nil, List.nil_append, List.map_map]
  exact (List.map_congr_left hself).trans (List.map_id cs)

/-- A part of an ASCII text is cut out between two characters. -/
theorem slice_of_isAscii {s : String} (h : isAscii s = true) (first last : Nat) :
    slice s first last = String.ofList ((s.toList.drop first).take (last - first)) := by
  have hpart : ∀ c ∈ (s.toList.drop first).take (last - first), c.toNat < 0x80 := by
    intro c hc
    exact isAscii_iff.mp h c (List.mem_of_mem_drop (List.mem_of_mem_take hc))
  have hbytes := bytes_of_lt (isAscii_iff.mp h)
  rw [String.ofList_toList] at hbytes
  have hextract : (s.toUTF8.extract first last).toList =
      ((s.toList.drop first).take (last - first)).map fun c => c.val.toUInt8 := by
    rw [byteList_eq, ByteArray.data_extract, Array.toList_extract, String.toUTF8_eq_toByteArray,
      hbytes, List.extract_eq_take_drop, List.map_take, List.map_drop]
  rw [slice, hextract, repair_of_lt hpart]

end Utf8

end PixelEffects
