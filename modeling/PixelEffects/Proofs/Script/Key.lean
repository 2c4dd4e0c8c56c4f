import PixelEffects.Proofs.Number.Equality
import PixelEffects.Proofs.Script.Table

/-!
# Legal Keys

The keys that values become, and the tables that are put together with them.

There are keys that no value becomes. NaN is refused, and both of the zeros become the same one. On
the keys that are left, being the same key is being equal as a value, although the two are not
decided in the same way: keys are told apart by their bits, and values are compared as numbers. So
what is stored under a value is found under those that are equal to it, and under no others.

A table is only ever changed by storing something in it. If that is done under legal keys alone, no
other keys get in. And nothing has the value `nil`, since storing that takes an entry away.

## Main definitions

* `Key.IsLegal`: Keys that values become.
* `Table.Built`: Tables that are put together by storing under legal keys.

## Theorems

* `Key.ofValue?_cases`: The values that become keys.
* `Key.isLegal_of_ofValue?`: What a value becomes is legal.
* `Key.compare_eq_iff_rawEq`: Keys are the same exactly if the values are equal.
* `Table.get_set_of_ofValue?`: What is read after storing, by values.
* `Table.Built.legal`, `Table.Built.ne_nil`: The keys and the values of built tables.
-/

namespace PixelEffects

namespace Script

namespace Key

/-- A key that values become: it is not NaN, and not the zero with a sign. -/
def IsLegal : Key → Prop
  | number x => x.isNaN = false ∧ x.toBits ≠ 0x8000000000000000
  | _ => True

theorem ofNumber_of_isZero {x : Float} (h : Number.IsZero x) : ofNumber x = number 0 := by
  unfold ofNumber
  rw [if_pos (Number.beq_zero_iff.mpr h)]

theorem ofNumber_of_not_isZero {x : Float} (h : ¬ Number.IsZero x) : ofNumber x = number x := by
  unfold ofNumber
  rw [if_neg fun hzero => h (Number.beq_zero_iff.mp hzero)]

theorem isLegal_ofNumber {x : Float} (h : x.isNaN = false) : (ofNumber x).IsLegal := by
  by_cases hzero : Number.IsZero x
  · rw [ofNumber_of_isZero hzero]
    refine ⟨Number.isNaN_zero, ?_⟩
    rw [Number.toBits_zero]
    decide
  · rw [ofNumber_of_not_isZero hzero]
    exact ⟨h, fun hbits => hzero (Number.isZero_of_toBits hbits)⟩

theorem isLegal_text (name : String) : (text name).IsLegal :=
  trivial

theorem isLegal_ofPosition (n : Nat) : (ofPosition n).IsLegal :=
  isLegal_ofNumber (Number.isNaN_ofNat n)

/-- The values that become keys: booleans, numbers that are not NaN, and texts. -/
theorem ofValue?_cases {v : Value} {k : Key} (h : ofValue? v = .ok k) :
    (∃ b, v = .bool b ∧ k = bool b) ∨
      (∃ x, v = .number x ∧ x.isNaN = false ∧ k = ofNumber x) ∨
      ∃ s, v = .text s ∧ k = text s := by
  cases v with
  | bool b =>
      cases h
      exact .inl ⟨b, rfl, rfl⟩
  | number x =>
      rw [ofValue?] at h
      split at h
      · cases h
      · next hnan =>
          cases h
          exact .inr (.inl ⟨x, rfl, Bool.not_eq_true _ ▸ hnan, rfl⟩)
  | text s =>
      cases h
      exact .inr (.inr ⟨s, rfl, rfl⟩)
  | nil | table | function | builtin => cases h

/-- What a value becomes is legal. -/
theorem isLegal_of_ofValue? {v : Value} {k : Key} (h : ofValue? v = .ok k) : k.IsLegal := by
  rcases ofValue?_cases h with ⟨b, _, rfl⟩ | ⟨x, _, hnan, rfl⟩ | ⟨s, _, rfl⟩
  · trivial
  · exact isLegal_ofNumber hnan
  · trivial

/-- Numbers become one key exactly if they are equal. -/
theorem ofNumber_eq_iff {x y : Float} (hx : x.isNaN = false) :
    ofNumber x = ofNumber y ↔ (x == y) = true := by
  rw [Number.beq_iff]
  -- A zero becomes the key without a sign, and every other number is the key itself.
  by_cases hzx : Number.IsZero x
  · rw [ofNumber_of_isZero hzx]
    by_cases hzy : Number.IsZero y
    · rw [ofNumber_of_isZero hzy]
      exact iff_of_true rfl (.inl ⟨hzx, hzy⟩)
    · rw [ofNumber_of_not_isZero hzy]
      refine iff_of_false (fun heq => hzy ?_) ?_
      · cases heq
        exact Number.isZero_zero
      · rintro (⟨_, hzero⟩ | ⟨rfl, _⟩)
        · exact hzy hzero
        · exact hzy hzx
  · rw [ofNumber_of_not_isZero hzx]
    by_cases hzy : Number.IsZero y
    · rw [ofNumber_of_isZero hzy]
      refine iff_of_false (fun heq => hzx ?_) ?_
      · cases heq
        exact Number.isZero_zero
      · rintro (⟨hzero, _⟩ | ⟨rfl, _⟩)
        · exact hzx hzero
        · exact hzx hzy
    · rw [ofNumber_of_not_isZero hzy]
      constructor
      · intro heq
        exact .inr ⟨number.inj heq, hx⟩
      · rintro (⟨hzero, _⟩ | ⟨rfl, _⟩)
        · exact absurd hzero hzx
        · rfl

/-- Legal values become one key exactly if they are equal. -/
theorem eq_iff_rawEq {u v : Value} {k j : Key} (hk : ofValue? u = .ok k)
    (hj : ofValue? v = .ok j) : k = j ↔ u.rawEq v = true := by
  rcases ofValue?_cases hk with ⟨a, rfl, rfl⟩ | ⟨x, rfl, hx, rfl⟩ | ⟨s, rfl, rfl⟩
  · rcases ofValue?_cases hj with ⟨b, rfl, rfl⟩ | ⟨y, rfl, _, rfl⟩ | ⟨t, rfl, rfl⟩ <;>
      simp [Value.rawEq, ofNumber]
  · -- Only here are there values that are equal and not the same.
    rcases ofValue?_cases hj with ⟨b, rfl, rfl⟩ | ⟨y, rfl, _, rfl⟩ | ⟨t, rfl, rfl⟩
    · simp [Value.rawEq, ofNumber]
    · exact ofNumber_eq_iff hx
    · simp [Value.rawEq, ofNumber]
  · rcases ofValue?_cases hj with ⟨b, rfl, rfl⟩ | ⟨y, rfl, _, rfl⟩ | ⟨t, rfl, rfl⟩ <;>
      simp [Value.rawEq, ofNumber]

/-- The order of keys takes legal values for the same exactly if they are equal. -/
theorem compare_eq_iff_rawEq {u v : Value} {k j : Key} (hk : ofValue? u = .ok k)
    (hj : ofValue? v = .ok j) : compare k j = .eq ↔ u.rawEq v = true := by
  rw [Std.LawfulEqCmp.compare_eq_iff_eq]
  exact eq_iff_rawEq hk hj

end Key

namespace Table

/-- What is stored under a value is read under those that are equal to it, and under no others. -/
theorem get_set_of_ofValue? {u v : Value} {k j : Key} (hk : Key.ofValue? u = .ok k)
    (hj : Key.ofValue? v = .ok j) (t : Table) (w : Value) :
    (t.set k w).get j = if u.rawEq v then w else t.get j := by
  rw [get_set]
  exact if_congr (Key.compare_eq_iff_rawEq hk hj) rfl rfl

/-- A table that is put together by storing under legal keys. -/
inductive Built : Table → Prop
  | empty : Built .empty
  | set {t : Table} {k : Key} (h : Built t) (hk : k.IsLegal) (v : Value) : Built (t.set k v)

namespace Built

variable {t : Table} {k : Key}

/-- Every key of a built table is legal. -/
theorem legal (h : Built t) (hk : t.contains k = true) : k.IsLegal := by
  induction h with
  | empty =>
      rw [contains_empty] at hk
      cases hk
  | set _ hlegal v ih =>
      rcases contains_set hk with rfl | hold
      · exact hlegal
      · exact ih hold

/-- No entry of a built table is `nil`. -/
theorem ne_nil (h : Built t) {v : Value} (hv : t.entries[k]? = some v) : v ≠ .nil := by
  induction h generalizing v with
  | empty =>
      rw [Table.empty, Std.TreeMap.getElem?_emptyc] at hv
      cases hv
  | @set t j _ _ w ih =>
      unfold Table.set at hv
      split at hv
      · rw [Std.TreeMap.getElem?_erase] at hv
        split at hv
        · cases hv
        · exact ih hv
      · next hw =>
          rw [Std.TreeMap.getElem?_insert] at hv
          split at hv
          · cases hv
            rintro rfl
            exact hw rfl
          · exact ih hv

theorem shiftUp (h : Built t) (pos count : Nat) : Built (t.shiftUp pos count) := by
  induction count generalizing t with
  | zero => exact h
  | succ count ih => exact ih (h.set (Key.isLegal_ofPosition _) _)

theorem insertAt (h : Built t) (n pos : Nat) (v : Value) : Built (t.insertAt n pos v) :=
  (h.shiftUp pos _).set (Key.isLegal_ofPosition pos) v

end Built

end Table

end Script

end PixelEffects
