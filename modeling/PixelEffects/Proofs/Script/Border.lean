import PixelEffects.Proofs.Number.Whole
import PixelEffects.Proofs.Script.Key

/-!
# Borders

The positions of a table up to its border, and what moving them up does.

The search for the border looks at one position after the other, and at no more of them than there
are entries. It is not stopped too early by that: different positions are different keys, so a table
that has more positions in a row than it has entries does not exist. Hence the position after the
border is free.

This is where numbers come in. A position is a natural number, but its key is a float, and there are
natural numbers that become the same float. Up to 2 ^ 53 there are not, and no memory holds a table
with more positions than that.

Moving up begins at the end. When the entry at a position is moved, the one above it has been moved
already, or there was none. So nothing is written over that is still needed, and the induction is on
how many entries are left to move.

## Main definitions

* `Table.Inserted`: What a table has become when a value was inserted at a position.

## Theorems

* `Key.ofPosition_inj`: Positions are different keys.
* `Table.contains_of_le_length`, `Table.free_after_length`: Entries up to the border, and none after.
* `Table.le_length`: Positions in a row are within the border.
* `Table.shiftUp_moved`, `Table.shiftUp_other`: What is moved up, and what is not.
* `Table.inserted_insertAt`: Storing at a position, with what follows moved up.
-/

namespace PixelEffects

namespace Script

/-- Positions up to 2 ^ 53 are different keys. -/
theorem Key.ofPosition_inj {i n : Nat} (hi : i ≤ 2 ^ 53) (hn : n ≤ 2 ^ 53) :
    ofPosition i = ofPosition n ↔ i = n := by
  unfold ofPosition
  rw [ofNumber_eq_iff (Number.isNaN_ofNat i), Number.ofNat_inj hi hn]

namespace Table

variable {t : Table}

/-! ## The search for the border -/

theorem contains_of_le_borderFrom {bound n i : Nat} (hi : n < i) (h : i ≤ t.borderFrom bound n) :
    t.contains (Key.ofPosition i) = true := by
  induction bound generalizing n with
  | zero =>
      rw [borderFrom] at h
      omega
  | succ bound ih =>
      rw [borderFrom] at h
      split at h
      · next hnext =>
          rcases Nat.eq_or_lt_of_le hi with rfl | hlt
          · exact hnext
          · exact ih hlt h
      · omega

/-- The search gets as far as there are positions in a row, if it is allowed to. -/
theorem le_borderFrom {bound n count : Nat} (hcount : count ≤ bound)
    (h : ∀ i, n < i → i ≤ n + count → t.contains (Key.ofPosition i) = true) :
    n + count ≤ t.borderFrom bound n := by
  induction bound generalizing n count with
  | zero =>
      rw [borderFrom]
      omega
  | succ bound ih =>
      cases count with
      | zero =>
          rw [borderFrom]
          split
          · have hrest : n + 1 + 0 ≤ t.borderFrom bound (n + 1) :=
              ih (Nat.zero_le bound) fun i _ _ => by omega
            omega
          · exact Nat.le_refl n
      | succ count =>
          have hrest : n + 1 + count ≤ t.borderFrom bound (n + 1) :=
            ih (by omega) fun i _ _ => h i (by omega) (by omega)
          rw [borderFrom, if_pos (h (n + 1) (by omega) (by omega))]
          omega

/-- Every position up to the border has an entry. -/
theorem contains_of_le_length {i : Nat} (hi : 0 < i) (h : i ≤ t.length) :
    t.contains (Key.ofPosition i) = true :=
  contains_of_le_borderFrom hi h

/-- There are no more positions in a row than entries. -/
theorem le_size {n : Nat} (hn : n ≤ 2 ^ 53)
    (h : ∀ i, 0 < i → i ≤ n → t.contains (Key.ofPosition i) = true) : n ≤ t.entries.size := by
  have hnodup : ((List.range' 1 n).map Key.ofPosition).Nodup := by
    refine List.Nodup.map_on ?_ List.nodup_range'
    intro i hi j hj heq
    rw [List.mem_range'_1] at hi hj
    exact (Key.ofPosition_inj (by omega) (by omega)).mp heq
  have hsubset : (List.range' 1 n).map Key.ofPosition ⊆ t.entries.keys := by
    intro k hk
    rcases List.mem_map.mp hk with ⟨i, hi, rfl⟩
    rw [List.mem_range'_1] at hi
    exact Std.TreeMap.mem_keys.mpr (Std.TreeMap.mem_iff_contains.mpr
      (h i (by omega) (by omega)))
  have hlength := (List.subperm_of_subset hnodup hsubset).length_le
  rwa [List.length_map, List.length_range', Std.TreeMap.length_keys] at hlength

/-- Positions in a row are within the border. -/
theorem le_length {n : Nat} (hn : n ≤ 2 ^ 53)
    (h : ∀ i, 0 < i → i ≤ n → t.contains (Key.ofPosition i) = true) : n ≤ t.length := by
  have hborder := le_borderFrom (n := 0) (le_size hn h) fun i hi hle =>
    h i hi (by omega)
  rwa [Nat.zero_add] at hborder

/-- The position after the border has no entry. -/
theorem free_after_length (h : t.length < 2 ^ 53) :
    t.contains (Key.ofPosition (t.length + 1)) = false := by
  rw [Bool.eq_false_iff]
  intro hnext
  have hlonger : t.length + 1 ≤ t.length := by
    refine le_length h fun i hi hle => ?_
    rcases Nat.eq_or_lt_of_le hle with rfl | hlt
    · exact hnext
    · exact contains_of_le_length hi (Nat.le_of_lt_succ hlt)
  omega

/-! ## Moving up -/

theorem get_set_self (k : Key) (v : Value) : (t.set k v).get k = v := by
  rw [get_set, if_pos Std.ReflOrd.compare_self]

theorem get_set_of_ne {k j : Key} (h : j ≠ k) (v : Value) : (t.set k v).get j = t.get j := by
  rw [get_set, if_neg fun heq => h (Std.LawfulEqOrd.eq_of_compare heq).symm]

/-- What is at none of the positions that entries are moved to stays as it is. -/
theorem shiftUp_other {pos count : Nat} {k : Key}
    (hk : ∀ i, i < count → k ≠ Key.ofPosition (pos + i + 1)) :
    (t.shiftUp pos count).get k = t.get k := by
  induction count generalizing t with
  | zero => rfl
  | succ count ih =>
      have hlast : k ≠ Key.ofPosition (pos + count + 1) := hk count (Nat.lt_succ_self count)
      rw [shiftUp, ih fun i hi => hk i (Nat.lt_succ_of_lt hi), get_set_of_ne hlast]

/-- What was at a position is at the next one. -/
theorem shiftUp_moved {pos count i : Nat} (hfits : pos + count ≤ 2 ^ 53) (hi : i < count) :
    (t.shiftUp pos count).atPosition (pos + i + 1) = t.atPosition (pos + i) := by
  induction count generalizing t with
  | zero => omega
  | succ count ih =>
      have hne : ∀ {a b}, a ≤ 2 ^ 53 → b ≤ 2 ^ 53 → a ≠ b → Key.ofPosition a ≠ Key.ofPosition b :=
        fun ha hb hab heq => hab ((Key.ofPosition_inj ha hb).mp heq)
      rw [shiftUp]
      rcases Nat.lt_succ_iff_lt_or_eq.mp hi with hlt | rfl
      · -- The entry that is moved first goes above all others.
        rw [ih (by omega) hlt]
        exact get_set_of_ne (hne (by omega) (by omega) (by omega)) _
      · rw [atPosition, shiftUp_other fun j hj => hne (by omega) (by omega) (by omega)]
        exact get_set_self _ _

/-! ## Entries and values -/

/-- In a built table there is an entry exactly where there is a value. -/
theorem Built.contains_iff (h : t.Built) {k : Key} : t.contains k = true ↔ t.get k ≠ .nil := by
  unfold contains get
  rw [Std.TreeMap.contains_eq_isSome_getElem?]
  cases hentry : t.entries[k]? with
  | none => simp
  | some v => simpa using h.ne_nil hentry

/-- One more key is one more entry. -/
theorem size_of_contains {t' : Table} {k : Key} (hfree : t.contains k = false)
    (h : ∀ j, t'.contains j = true ↔ j = k ∨ t.contains j = true) :
    t'.entries.size = t.entries.size + 1 := by
  have hmem : ∀ {u : Table} {j : Key}, j ∈ u.entries.keys ↔ u.contains j = true :=
    Std.TreeMap.mem_keys.trans Std.TreeMap.mem_iff_contains
  have hnodup : (k :: t.entries.keys).Nodup := by
    refine List.nodup_cons.mpr ⟨fun hk => ?_, Std.TreeMap.nodup_keys⟩
    rw [hmem.mp hk] at hfree
    cases hfree
  have hperm : t'.entries.keys.Perm (k :: t.entries.keys) := by
    refine (List.perm_ext_iff_of_nodup Std.TreeMap.nodup_keys hnodup).mpr fun j => ?_
    rw [hmem, List.mem_cons, hmem]
    exact h j
  have hlength := hperm.length_eq
  rwa [List.length_cons, Std.TreeMap.length_keys, Std.TreeMap.length_keys] at hlength

/-! ## Inserting -/

/-- What a table has become when a value was inserted at a position: the value is there, what was at
    the positions from there to the border is one further up, and there is nothing else that has
    changed. So nothing is lost: there is one entry more, and one position more. -/
structure Inserted (t t' : Table) (pos : Nat) (v : Value) : Prop where
  stored : t'.atPosition pos = v
  moved : ∀ i, pos ≤ i → i ≤ t.length → t'.atPosition (i + 1) = t.atPosition i
  others : ∀ k, (∀ i, pos ≤ i → i ≤ t.length + 1 → k ≠ Key.ofPosition i) →
    t'.get k = t.get k ∧ t'.contains k = t.contains k
  size : t'.entries.size = t.entries.size + 1
  length : t.length + 1 ≤ t'.length

section Inserting

variable {pos : Nat} {v : Value}

/-- What was at a position from there to the border is one further up. -/
theorem insertAt_moved {n i : Nat} (hn : n < 2 ^ 53) (hi : pos ≤ i) (hle : i ≤ n) :
    (t.insertAt n pos v).atPosition (i + 1) = t.atPosition i := by
  have hne : Key.ofPosition (i + 1) ≠ Key.ofPosition pos := fun heq => by
    have hsame := (Key.ofPosition_inj (by omega) (by omega)).mp heq
    omega
  rcases Nat.le.dest hi with ⟨j, rfl⟩
  unfold insertAt atPosition
  rw [get_set_of_ne hne]
  exact shiftUp_moved (by omega) (by omega)

/-- What is at none of the positions that are written stays as it is. -/
theorem insertAt_other {n : Nat} (hle : pos ≤ n + 1) {k : Key}
    (hk : ∀ i, pos ≤ i → i ≤ n + 1 → k ≠ Key.ofPosition i) :
    (t.insertAt n pos v).get k = t.get k := by
  unfold insertAt
  rw [get_set_of_ne (hk pos (Nat.le_refl pos) hle)]
  exact shiftUp_other fun i hi => hk (pos + i + 1) (by omega) (by omega)

variable (ht : t.Built) (hborder : t.length < 2 ^ 53) (hpos : 0 < pos) (hle : pos ≤ t.length + 1)
  (hv : v ≠ .nil)

include ht hle

theorem contains_insertAt_other {k : Key}
    (hk : ∀ i, pos ≤ i → i ≤ t.length + 1 → k ≠ Key.ofPosition i) :
    (t.insertAt t.length pos v).contains k = t.contains k := by
  rw [Bool.eq_iff_iff, (ht.insertAt _ _ _).contains_iff, ht.contains_iff, insertAt_other hle hk]

include hborder hpos hv

/-- Afterwards there is an entry at each of the positions that were written. -/
theorem contains_insertAt_written {i : Nat} (hi : pos ≤ i) (hi' : i ≤ t.length + 1) :
    (t.insertAt t.length pos v).contains (Key.ofPosition i) = true := by
  rw [(ht.insertAt _ _ _).contains_iff]
  rcases Nat.eq_or_lt_of_le hi with rfl | hlt
  · exact fun hnil => hv ((get_set_self _ _).symm.trans hnil)
  · rcases Nat.exists_eq_add_of_lt hlt with ⟨j, rfl⟩
    have hmoved := insertAt_moved (t := t) (v := v) hborder (Nat.le_add_right pos j) (by omega)
    unfold atPosition at hmoved
    rw [hmoved, ← ht.contains_iff]
    exact contains_of_le_length (by omega) (by omega)

theorem contains_insertAt {k : Key} :
    (t.insertAt t.length pos v).contains k = true ↔
      k = Key.ofPosition (t.length + 1) ∨ t.contains k = true := by
  by_cases hk : ∃ i, pos ≤ i ∧ i ≤ t.length + 1 ∧ k = Key.ofPosition i
  · rcases hk with ⟨i, hi, hi', rfl⟩
    refine iff_of_true (contains_insertAt_written ht hborder hpos hle hv hi hi') ?_
    rcases Nat.eq_or_lt_of_le hi' with rfl | hlt
    · exact .inl rfl
    · exact .inr (contains_of_le_length (by omega) (by omega))
  · have hother : ∀ i, pos ≤ i → i ≤ t.length + 1 → k ≠ Key.ofPosition i :=
      fun i hi hi' heq => hk ⟨i, hi, hi', heq⟩
    rw [contains_insertAt_other ht hle hother]
    exact ⟨.inr, fun h => h.resolve_left (hother _ hle (Nat.le_refl _))⟩

/-- Storing at a position up to the one after the border, with what follows moved up. -/
theorem inserted_insertAt : Inserted t (t.insertAt t.length pos v) pos v where
  stored := get_set_self _ _
  moved := fun _ hi hi' => insertAt_moved hborder hi hi'
  others := fun _ hk => ⟨insertAt_other hle hk, contains_insertAt_other ht hle hk⟩
  size := size_of_contains (free_after_length hborder) fun _ =>
    contains_insertAt ht hborder hpos hle hv
  length := by
    refine le_length hborder fun i hi hi' => (contains_insertAt ht hborder hpos hle hv).mpr ?_
    rcases Nat.eq_or_lt_of_le hi' with rfl | hlt
    · exact .inl rfl
    · exact .inr (contains_of_le_length hi (Nat.le_of_lt_succ hlt))

end Inserting

/-- Storing behind the last position is the case in which nothing has to be moved. -/
theorem inserted_set (ht : t.Built) (hborder : t.length < 2 ^ 53) {v : Value} (hv : v ≠ .nil) :
    Inserted t (t.set (Key.ofPosition (t.length + 1)) v) (t.length + 1) v := by
  have hinserted := inserted_insertAt ht hborder (Nat.succ_pos _) (Nat.le_refl _) hv
  unfold insertAt at hinserted
  rwa [Nat.sub_self] at hinserted

end Table

end Script

end PixelEffects
