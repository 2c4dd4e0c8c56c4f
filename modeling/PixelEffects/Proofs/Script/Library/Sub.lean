import PixelEffects.Proofs.Number.Truncate
import PixelEffects.Proofs.Script.Library.Argument
import PixelEffects.Proofs.Script.Plain
import PixelEffects.Proofs.Text.Repair
import PixelEffects.Script.Engine

/-!
# Parts of a Text

Which bytes `string.sub` cuts out.

The two positions are numbers of any kind. Each is first turned into an integer of 64 bits, and then
into a byte of the text: one that is counted from the end becomes one that is counted from the
beginning, and one that lies outside is moved to where the text begins or ends. What comes of it never
leads out of the text, and nothing that is computed on the way needs more than 64 bits.

The part is empty if its last byte lies in front of its first one, and it has these bytes otherwise.
They are repaired if a cut falls inside a character, and only then.

## Main definitions

* `Texts.firstOf`, `Texts.lastOf`: The first and the last byte of a part.
* `Texts.positionSteps`: What is computed on the way.
* `Texts.IsPart`: A text that was cut out of another one and repaired.
* `Texts.LastPosition`: The arguments behind the first position.

## Theorems

* `Texts.firstPosition_eq`, `Texts.lastPosition_eq`: How positions become bytes.
* `Texts.isPart_slice`: What is cut out of a text.
* `sub_in_range`: What `string.sub` does, for all positions.
-/

namespace PixelEffects

namespace Script

namespace Texts

/-! ## Positions -/

/-- The first byte of a part, counted from one, in a text of `n` bytes. -/
def firstOf (n : Nat) (i : Int) : Int :=
  if 0 < i then i else if i = 0 then 1 else max (n + i + 1) 1

/-- The last byte of a part. Without a position it is the last one of the text. -/
def lastOf (n : Nat) : Option Int → Int
  | none => n
  | some j => if 0 ≤ j then min j n else n + j + 1

/-- The integers that are computed to make a byte of a position. -/
def positionSteps (n : Nat) (i : Int) : List Int :=
  if i < 0 then [i, n, n + i, n + i + 1] else [i]

theorem firstPosition_eq (n : Nat) (x : Float) :
    firstPosition n x = firstOf n x.toModel.toInt64.toInt := by
  unfold firstPosition firstOf
  rw [Number.toInt64_eq]
  dsimp only
  split_ifs <;> omega

theorem lastPosition_eq (n : Nat) (y : Float) :
    lastPosition n y = max 0 (lastOf n (some y.toModel.toInt64.toInt)) := by
  unfold lastPosition lastOf
  rw [Number.toInt64_eq]
  dsimp only
  split_ifs <;> omega

theorem one_le_firstOf (n : Nat) (i : Int) : 1 ≤ firstOf n i := by
  unfold firstOf
  split_ifs <;> omega

/-- The last byte is one of the text, also for a position that is negative. -/
theorem lastOf_le (n : Nat) (j : Option Int) : lastOf n j ≤ n := by
  cases j with
  | none => exact Int.le_refl _
  | some j =>
      unfold lastOf
      dsimp only
      split_ifs <;> omega

/-- No position needs more than 64 bits in a text that is not longer than 64 bits can say. -/
theorem positionSteps_fit {n : Nat} (hn : n < 2 ^ 63) (i : Int64) :
    ∀ z ∈ positionSteps n i.toInt, -2 ^ 63 ≤ z ∧ z < 2 ^ 63 := by
  have hlow := i.le_toInt
  have hhigh := i.toInt_lt
  intro z hz
  unfold positionSteps at hz
  split_ifs at hz <;> simp only [List.mem_cons, List.not_mem_nil, or_false] at hz <;> omega

/-! ## Parts -/

/-- A text that has the bytes of another one from the byte `first` to the byte `last`, as they are if
    both cuts fall between characters and repaired in any case. -/
def IsPart (s : String) (first last : Int) (r : String) : Prop :=
  ∃ before cut after : List UInt8, s.toByteArray.data.toList = before ++ cut ++ after ∧
    (before.length : Int) = first - 1 ∧ (cut.length : Int) = last - first + 1 ∧
    r = String.ofList (Utf8.repair cut) ∧
    (String.Pos.Raw.IsValid s ⟨before.length⟩ →
      String.Pos.Raw.IsValid s ⟨before.length + cut.length⟩ → r.toByteArray.data.toList = cut)

/-- What is cut out of a text is a part of it. -/
theorem isPart_slice {s : String} {first last : Int} (hfirst : 1 ≤ first) (hle : first ≤ last)
    (hlast : last ≤ s.utf8ByteSize) :
    IsPart s first last (Utf8.slice s (first - 1).toNat last.toNat) := by
  have hsize : s.toByteArray.data.toList.length = s.utf8ByteSize := rfl
  have hbytes : (s.toByteArray.extract (first - 1).toNat last.toNat).data.toList =
      (s.toByteArray.data.toList.drop (first - 1).toNat).take (last.toNat - (first - 1).toNat) := by
    rw [ByteArray.data_extract, Array.toList_extract, List.extract_eq_take_drop]
  generalize hstart : (first - 1).toNat = start at hbytes ⊢
  generalize hstop : last.toNat = stop at hbytes ⊢
  have hbefore : (s.toByteArray.data.toList.take start).length = start := by
    rw [List.length_take]
    omega
  have hcut : ((s.toByteArray.data.toList.drop start).take (stop - start)).length =
      stop - start := by
    rw [List.length_take, List.length_drop]
    omega
  have hwhole : start + (stop - start) = stop := by omega
  refine ⟨s.toByteArray.data.toList.take start,
    (s.toByteArray.data.toList.drop start).take (stop - start),
    s.toByteArray.data.toList.drop stop, ?_, ?_, ?_, ?_, ?_⟩
  · rw [← List.take_add, hwhole, List.take_append_drop]
  · omega
  · omega
  · rw [← hbytes, Utf8.slice, String.toUTF8_eq_toByteArray, Utf8.byteList_eq]
  · rw [hbefore, hcut, hwhole]
    intro hfirst hlast
    rw [Utf8.toByteArray_slice (by omega) (by omega) hfirst hlast, hbytes]

theorem sub_eq (s : String) (x : Float) (y : Option Float) :
    sub s x y =
      if lastOf s.utf8ByteSize (y.map (·.toModel.toInt64.toInt)) <
          firstOf s.utf8ByteSize x.toModel.toInt64.toInt then ""
      else Utf8.slice s (firstOf s.utf8ByteSize x.toModel.toInt64.toInt - 1).toNat
        (lastOf s.utf8ByteSize (y.map (·.toModel.toInt64.toInt))).toNat := by
  have hfirst := one_le_firstOf s.utf8ByteSize x.toModel.toInt64.toInt
  unfold sub
  rw [firstPosition_eq]
  cases y with
  | none => rfl
  | some y =>
      -- A last byte in front of the text is taken as the one in front of its first.
      dsimp only [Option.map_some]
      rw [lastPosition_eq]
      split_ifs
      · rfl
      · omega
      · omega
      · congr 1
        omega

/-- The arguments behind the first position: there is none or a `nil` if the last one is left out. -/
inductive LastPosition : List Value → Option Float → Prop
  | missing : LastPosition [] none
  | nil (rest : List Value) : LastPosition (.nil :: rest) none
  | number {v : Value} {y : Float} (h : v.asNumber? = some y) (rest : List Value) :
    LastPosition (v :: rest) (some y)

end Texts

section Runs

variable {ν : Type} {t : String} {i : Value} {rest : List Value} {x : Float} {y : Option Float}

/-- The call as it goes on when its positions are numbers. -/
theorem run_sub (hx : i.asNumber? = some x) (hy : Texts.LastPosition rest y) (s : Setting)
    (m : Machine ν) :
    callLibrary .sub (.text t :: i :: rest) s m = .ok [.text (Texts.sub t x y)] m := by
  have hfirst : Argument.number? .sub (.text t :: i :: rest) 1 = .ok x :=
    Argument.number?_of_asNumber rfl hx
  have hrun : Library.sub (.text t :: i :: rest) m.tables =
      .ok [.text (Texts.sub t x y)] m.tables := by
    unfold Library.sub
    rw [hfirst]
    cases hy with
    | missing => rfl
    | nil rest => rfl
    | @number v y h rest =>
        have hgiven : Argument.isGiven (.text t :: i :: v :: rest) 2 = true :=
          Argument.isGiven_of_asNumber rfl h
        have hlast : Argument.number? .sub (.text t :: i :: v :: rest) 2 = .ok y :=
          Argument.number?_of_asNumber rfl h
        rw [hgiven, hlast]
        rfl
  rw [run_callLibrary (show Library.shown .sub (.text t :: i :: rest) = [] from rfl),
    Library.call, hrun]

/-- A part of a text stays inside the text and follows the rule for positions, whatever numbers they
    are. Each is truncated toward zero to an integer of 64 bits, where NaN is zero and what is too large
    goes to the nearer end. Counted from one and within the text, the part then has a first byte that is
    at least 1 and a last one that is at most the length, and nothing computed for the two needs more
    than 64 bits. The part is empty if the last byte is in front of the first one or of the text, and
    the repaired bytes from the one to the other if not. -/
theorem sub_in_range (hx : i.asNumber? = some x) (hy : Texts.LastPosition rest y) (s : Setting)
    (m : Machine ν) :
    let n := t.utf8ByteSize
    let first := Texts.firstOf n x.toModel.toInt64.toInt
    let last := Texts.lastOf n (y.map (·.toModel.toInt64.toInt))
    (1 ≤ first ∧ last ≤ n) ∧
    (n < 2 ^ 63 → ∀ k ∈ x :: y.toList, ∀ z ∈ Texts.positionSteps n k.toModel.toInt64.toInt,
      -2 ^ 63 ≤ z ∧ z < 2 ^ 63) ∧
    ∃ r, callLibrary .sub (.text t :: i :: rest) s m = .ok [.text r] m ∧
      (first > last ∨ last < 1 → r = "") ∧
      (first ≤ last → 1 ≤ last → Texts.IsPart t first last r) := by
  intro n first last
  have hfirst : 1 ≤ first := Texts.one_le_firstOf n _
  have hlast : last ≤ n := Texts.lastOf_le n _
  refine ⟨⟨hfirst, hlast⟩, fun hn k _ => Texts.positionSteps_fit hn _, _, run_sub hx hy s m, ?_, ?_⟩
  · intro hempty
    rw [Texts.sub_eq, if_pos (show last < first by omega)]
  · intro hle _
    rw [Texts.sub_eq, if_neg (show ¬ last < first by omega)]
    exact Texts.isPart_slice hfirst hle hlast

end Runs

/-- From the third byte from the end, which is said by a text, to the end of a word. -/
theorem sub_in_range_negative :
    let m : Machine := Machine.initial
    (Value.text "-3").asNumber? = some (-3) ∧ Texts.LastPosition [] none ∧
    ∃ r, callLibrary .sub [.text "hello", .text "-3"] ⟨{}, fun _ => 0⟩ m = .ok [.text r] m ∧
      r.toByteArray.data.toList = [108, 108, 111] := by
  intro m
  have hnumber : (Value.text "-3").asNumber? = some (-3) := by decide +kernel
  have hfirst : Texts.firstOf "hello".utf8ByteSize (-3 : Float).toModel.toInt64.toInt = 3 := by
    decide +kernel
  have hlast : Texts.lastOf "hello".utf8ByteSize none = 5 := by decide +kernel
  rcases sub_in_range hnumber .missing ⟨{}, fun _ => 0⟩ m with ⟨-, -, r, hrun, -, hpart⟩
  dsimp only [Option.map_none] at hpart
  rw [hfirst, hlast] at hpart
  rcases hpart (by decide) (by decide) with ⟨before, cut, after, hbytes, hbefore, hcut, -, hexact⟩
  have hstart : before.length = 2 := by omega
  have hlength : cut.length = 3 := by omega
  have hcuts : String.Pos.Raw.IsValid "hello" ⟨2⟩ ∧ String.Pos.Raw.IsValid "hello" ⟨5⟩ := by
    decide +kernel
  have hword : cut = ("hello".toByteArray.data.toList.drop 2).take 3 := by
    rw [hbytes, List.append_assoc, List.drop_left' hstart, List.take_left' hlength]
  rw [hstart, hlength] at hexact
  refine ⟨hnumber, .missing, r, hrun, ?_⟩
  rw [hexact hcuts.1 hcuts.2, hword]
  decide +kernel

end Script

end PixelEffects
