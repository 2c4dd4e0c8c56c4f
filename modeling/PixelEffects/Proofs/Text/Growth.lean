import PixelEffects.Proofs.Text.Ascii
import PixelEffects.Proofs.Text.Case

/-!
# How Texts Grow

A text in another case, or a part of a text, can be longer than the text was, but not more than three
times as long.

A character that is not ASCII takes two bytes or more, and no character takes more than four, so one
that becomes one other at most doubles. Those that become several are in a table, which is checked.

For a part of a text, each byte pays for three. A character that is complete has been paid for by its
first byte and its last one. Bytes that were broken off are replaced all together, and the first of
them has paid for that.

## Main definitions

* `Text.byteCount`: How many bytes characters take.
* `Utf8.Progress.credit`: What has been paid for and not yet been put out.

## Theorems

* `Case.utf8ByteSize_toLower_le`, `Case.utf8ByteSize_toUpper_le`: The cases of a text.
* `Utf8.utf8ByteSize_slice_le`: A part of a text.
-/

namespace PixelEffects

namespace Text

/-- How many bytes characters take. -/
def byteCount : List Char → Nat
  | [] => 0
  | c :: cs => c.utf8Size + byteCount cs

theorem byteCount_cons (c : Char) (cs : List Char) :
    byteCount (c :: cs) = c.utf8Size + byteCount cs :=
  rfl

theorem byteCount_append (cs ds : List Char) :
    byteCount (cs ++ ds) = byteCount cs + byteCount ds := by
  induction cs with
  | nil => exact (Nat.zero_add _).symm
  | cons c cs ih => rw [List.cons_append, byteCount_cons, byteCount_cons, ih, Nat.add_assoc]

theorem byteCount_reverse (cs : List Char) : byteCount cs.reverse = byteCount cs := by
  induction cs with
  | nil => rfl
  | cons c cs ih =>
      rw [List.reverse_cons, byteCount_append, ih, byteCount_cons, byteCount_cons]
      exact Nat.add_comm _ _

theorem utf8ByteSize_ofList (cs : List Char) : (String.ofList cs).utf8ByteSize = byteCount cs := by
  induction cs with
  | nil => rfl
  | cons c cs ih =>
      have hsplit : String.ofList (c :: cs) = String.singleton c ++ String.ofList cs := by
        rw [← String.toList_inj]
        simp only [String.toList_ofList, String.toList_append, String.toList_singleton,
          List.singleton_append]
      rw [hsplit, String.utf8ByteSize_append, String.utf8ByteSize_singleton, ih, byteCount_cons]

theorem utf8ByteSize_eq (s : String) : s.utf8ByteSize = byteCount s.toList := by
  rw [← utf8ByteSize_ofList, String.ofList_toList]

theorem utf8ByteSize_replicate (c : Char) (n : Nat) :
    (String.ofList (List.replicate n c)).utf8ByteSize = n * c.utf8Size := by
  rw [utf8ByteSize_ofList]
  induction n with
  | zero => exact (Nat.zero_mul _).symm
  | succ n ih =>
      rw [List.replicate_succ, byteCount_cons, ih, Nat.succ_mul]
      exact Nat.add_comm _ _

/-- Only ASCII characters take a single byte. -/
theorem two_le_utf8Size {c : Char} (h : ¬ c.toNat < 0x80) : 2 ≤ c.utf8Size := by
  have hpos := c.utf8Size_pos
  have hne : c.utf8Size ≠ 1 := by
    intro hone
    have hval := UInt32.le_iff_toNat_le.mp (Char.utf8Size_eq_one_iff.mp hone)
    exact h (Nat.lt_succ_of_le hval)
  omega

theorem utf8Size_of_lt {c : Char} (h : c.toNat < 0x80) : c.utf8Size = 1 := by
  refine Char.utf8Size_eq_one_iff.mpr ?_
  rw [UInt32.le_iff_toNat_le]
  exact Nat.le_of_lt_succ h

end Text

open Text

/-! ## Cases -/

namespace Case

/-- What the tables have several characters for takes at most three times as many bytes. -/
def triplesAtMost (table : Array (Nat × List Nat)) : Bool :=
  table.toList.all fun e => byteCount (e.2.map Char.ofNat) ≤ 3 * (Char.ofNat e.1).utf8Size

theorem lowerExpansions_triplesAtMost : triplesAtMost lowerExpansions = true := by
  decide +kernel

theorem upperExpansions_triplesAtMost : triplesAtMost upperExpansions = true := by
  decide +kernel

theorem byteCount_mapChar_le {runs : Array (Nat × Nat × Nat × Int)}
    {table : Array (Nat × List Nat)} (htable : triplesAtMost table = true) {c : Char}
    (hc : ¬ c.toNat < 0x80) : byteCount (mapChar runs table c) ≤ 3 * c.utf8Size := by
  have htwo := two_le_utf8Size hc
  unfold mapChar
  split
  · next n _ =>
      have hfour := (Char.ofNat n).utf8Size_le_four
      rw [byteCount_cons]
      have hnone : byteCount [] = 0 := rfl
      omega
  · split
    · next ns hns =>
        have hmem := mem_of_mapExpansion hns (by omega)
        have hentry := List.all_eq_true.mp htable _ hmem
        rw [decide_eq_true_eq, Char.ofNat_toNat] at hentry
        exact hentry
    · rw [byteCount_cons]
      have hnone : byteCount [] = 0 := rfl
      omega

theorem byteCount_lowerAt_le (before : List Char) (c : Char) (after : List Char) :
    byteCount (lowerAt before c after) ≤ 3 * c.utf8Size := by
  unfold lowerAt
  split
  · next hsigma =>
      have hc : c = 'Σ' := beq_iff_eq.mp hsigma
      rw [hc]
      split <;> decide
  · unfold lowerOf
    by_cases hascii : c.toNat < 0x80
    · rw [if_pos hascii, byteCount_cons, utf8Size_of_lt (toLower_of_lt hascii).1,
        utf8Size_of_lt hascii]
      decide
    · rw [if_neg hascii]
      exact byteCount_mapChar_le lowerExpansions_triplesAtMost hascii

theorem byteCount_upperOf_le (c : Char) : byteCount (upperOf c) ≤ 3 * c.utf8Size := by
  unfold upperOf
  by_cases hascii : c.toNat < 0x80
  · rw [if_pos hascii, byteCount_cons, utf8Size_of_lt (toUpper_of_lt hascii).1,
      utf8Size_of_lt hascii]
    decide
  · rw [if_neg hascii]
    exact byteCount_mapChar_le upperExpansions_triplesAtMost hascii

theorem byteCount_lowerFrom_le (before lowered cs : List Char) :
    byteCount (lowerFrom before lowered cs) ≤ byteCount lowered + 3 * byteCount cs := by
  induction cs generalizing before lowered with
  | nil =>
      rw [lowerFrom, byteCount_reverse]
      omega
  | cons c cs ih =>
      have hat := byteCount_lowerAt_le before c cs
      have hrest := ih (c :: before) ((lowerAt before c cs).reverse ++ lowered)
      rw [byteCount_append, byteCount_reverse] at hrest
      rw [lowerFrom, byteCount_cons]
      omega

theorem utf8ByteSize_toLower_le (s : String) : (toLower s).utf8ByteSize ≤ 3 * s.utf8ByteSize := by
  have hfrom := byteCount_lowerFrom_le [] [] s.toList
  have hnone : byteCount [] = 0 := rfl
  rw [toLower, utf8ByteSize_ofList, utf8ByteSize_eq s]
  omega

theorem utf8ByteSize_toUpper_le (s : String) : (toUpper s).utf8ByteSize ≤ 3 * s.utf8ByteSize := by
  have hall : ∀ cs : List Char, byteCount (cs.flatMap upperOf) ≤ 3 * byteCount cs := by
    intro cs
    induction cs with
    | nil => decide
    | cons c cs ih =>
        have hc := byteCount_upperOf_le c
        rw [List.flatMap_cons, byteCount_append, byteCount_cons]
        omega
  rw [toUpper, utf8ByteSize_ofList, utf8ByteSize_eq s]
  exact hall s.toList

/-- Characters that stand by themselves are put in upper case one by one. -/
theorem utf8ByteSize_toUpper_replicate (c : Char) (n : Nat) :
    (toUpper (String.ofList (List.replicate n c))).utf8ByteSize = n * byteCount (upperOf c) := by
  rw [toUpper, utf8ByteSize_ofList, String.toList_ofList]
  induction n with
  | zero => exact (Nat.zero_mul _).symm
  | succ n ih =>
      rw [List.replicate_succ, List.flatMap_cons, byteCount_append, ih, Nat.succ_mul]
      exact Nat.add_comm _ _

theorem utf8ByteSize_toLower_replicate {c : Char} (hc : c ≠ 'Σ') (n : Nat) :
    (toLower (String.ofList (List.replicate n c))).utf8ByteSize = n * byteCount (lowerOf c) := by
  have hat : ∀ before after : List Char, lowerAt before c after = lowerOf c := by
    intro before after
    unfold lowerAt
    rw [beq_false_of_ne hc, if_neg Bool.false_ne_true]
  have hfrom : ∀ before lowered : List Char, byteCount (lowerFrom before lowered
      (List.replicate n c)) = byteCount lowered + n * byteCount (lowerOf c) := by
    induction n with
    | zero =>
        intro before lowered
        rw [List.replicate_zero, lowerFrom, byteCount_reverse, Nat.zero_mul, Nat.add_zero]
    | succ n ih =>
        intro before lowered
        rw [List.replicate_succ, lowerFrom, ih, byteCount_append, byteCount_reverse, hat,
          Nat.succ_mul]
        omega
  rw [toLower, utf8ByteSize_ofList, String.toList_ofList, hfrom]
  exact Nat.zero_add _

end Case

/-! ## Parts -/

namespace Utf8

/-- What has been paid for and not yet been put out. -/
def Progress.credit : Progress → Nat
  | .between => 0
  | .inside .. => 3

theorem start_pays (b : UInt8) :
    byteCount (start b).1 + (start b).2.credit ≤ 3 := by
  have hnone : byteCount [] = 0 := rfl
  have hreplacement : replacement.utf8Size = 3 := by decide
  unfold start
  cases hlead : lead b with
  | single =>
      have hsmall : b.toNat < 0x80 := by
        by_cases hb : b < 0x80
        · exact UInt8.lt_iff_toNat_lt.mp hb
        · unfold lead at hlead
          rw [if_neg hb] at hlead
          repeat' split at hlead
          all_goals cases hlead
      have hones : ∀ n < 0x80, (Char.ofNat n).utf8Size = 1 := by decide +kernel
      dsimp only [Progress.credit]
      rw [byteCount_cons, hones b.toNat hsmall]
      omega
  | broken =>
      dsimp only [Progress.credit]
      rw [byteCount_cons, hreplacement]
      omega
  | leads following low high =>
      dsimp only [Progress.credit]
      omega

theorem step_pays (b : UInt8) (p : Progress) :
    byteCount (step b p).1 + (step b p).2.credit ≤ p.credit + 3 := by
  have hnone : byteCount [] = 0 := rfl
  cases p with
  | between => exact start_pays b
  | inside value missing low high =>
      unfold step
      dsimp only
      split
      · split
        · have hfour := (Char.ofNat (value * 64 + b.toNat % 64)).utf8Size_le_four
          dsimp only [Progress.credit]
          rw [byteCount_cons]
          omega
        · dsimp only [Progress.credit]
          omega
      · have hstart := start_pays b
        have hreplacement : replacement.utf8Size = 3 := by decide
        have hcredit : (Progress.inside value missing low high).credit = 3 := rfl
        dsimp only
        rw [byteCount_cons, hcredit]
        omega

theorem byteCount_repairFrom_le (done : List Char) (p : Progress) (bytes : List UInt8) :
    byteCount (repairFrom done p bytes) ≤ byteCount done + p.credit + 3 * bytes.length := by
  induction bytes generalizing done p with
  | nil =>
      have hreplacement : replacement.utf8Size = 3 := by decide
      cases p with
      | between =>
          rw [repairFrom, byteCount_reverse]
          omega
      | inside value missing low high =>
          rw [repairFrom, byteCount_reverse, byteCount_cons]
          dsimp only [Progress.credit]
          omega
  | cons b bytes ih =>
      have hstep := step_pays b p
      have hrest := ih ((step b p).1.reverse ++ done) (step b p).2
      rw [byteCount_append, byteCount_reverse] at hrest
      rw [repairFrom, List.length_cons]
      dsimp only
      omega

theorem utf8ByteSize_slice_le (s : String) (first last : Nat) :
    (slice s first last).utf8ByteSize ≤ 3 * s.utf8ByteSize := by
  have hrepair := byteCount_repairFrom_le [] .between (s.toUTF8.extract first last).toList
  have hlength : (s.toUTF8.extract first last).toList.length ≤ s.utf8ByteSize := by
    rw [byteList_eq, Array.length_toList, ByteArray.data_extract, Array.size_extract,
      String.toUTF8_eq_toByteArray]
    have hsize : s.toByteArray.data.size = s.utf8ByteSize := rfl
    omega
  have hnone : byteCount [] = 0 := rfl
  rw [slice, utf8ByteSize_ofList, repair]
  dsimp only [Progress.credit] at hrepair
  omega

end Utf8

end PixelEffects
