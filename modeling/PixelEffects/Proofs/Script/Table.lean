import PixelEffects.Script.Table
import Std.Data.TreeMap.Lemmas

/-!
# Entries of Tables

What is known of an entry, from the way in which it was found.

An entry can be read under its key, it can be come upon in a traversal, and it can be one of the list
of all entries. These are the same entries. The lemmas about search trees that say so for traversals
are proved here, by induction on the tree.

## Theorems

* `Table.next?_eq_find?`: What a traversal comes to.
* `Table.get_of_mem_toList`, `Table.get_of_next?`: An entry that was found is the one under its key.
* `Table.contains_set`: The keys after storing.
* `toList_insert_last`, `Table.toList_set_last`: The entries after storing behind all others.
-/

namespace PixelEffects

namespace Script

/-! ## Traversal of a search tree -/

section Traversal

open Std.DTreeMap.Internal

variable {κ β : Type}

/-- The entries of a search tree, from left to right. -/
def treeEntries (t : Impl κ fun _ => β) : List (κ × β) :=
  t.toListModel.map fun e => (e.fst, e.snd)

theorem treeEntries_inner (size : Nat) (key : κ) (value : β) (l r : Impl κ fun _ => β) :
    treeEntries (.inner size key value l r) =
      treeEntries l ++ (key, value) :: treeEntries r := by
  unfold treeEntries
  rw [Impl.toListModel_inner, List.map_append, List.map_cons]

/-- The search for the next greater key finds the first entry that has one, and if there is none it
    is left with what it had found before. -/
theorem searchGT_eq_find? [Ord κ] [Std.TransOrd κ] (k : κ) {t : Impl κ fun _ => β}
    (ht : t.Ordered) (best : Option (κ × β)) : Impl.Const.getEntryGT?.go k best t =
      ((treeEntries t).find? fun e => compare k e.1 == .lt).or best := by
  induction t generalizing best with
  | leaf => rfl
  | inner size key value l r ihl ihr =>
      rw [Impl.Const.getEntryGT?.go, treeEntries_inner, List.find?_append, List.find?_cons]
      split
      · next hlt =>
          rw [ihl ht.left, hlt]
          simp only [BEq.rfl, Option.or_assoc, Option.some_or]
      · next hge =>
          have hkey : (compare k key == .lt) = false := beq_eq_false_iff_ne.mpr hge
          -- What is further to the left has smaller keys still.
          have hl : (treeEntries l).find? (fun e => compare k e.1 == .lt) = none := by
            refine List.find?_eq_none.mpr fun e he heq => ?_
            rcases List.mem_map.mp he with ⟨x, hx, rfl⟩
            exact hge (Std.TransCmp.lt_trans (beq_iff_eq.mp heq) (ht.compare_left hx))
          rw [ihr ht.right, hl, hkey, Option.none_or]

/-- The entry with the smallest key is the first one. -/
theorem smallest_eq_head? (t : Impl κ fun _ => β) :
    Impl.Const.minEntry? t = (treeEntries t).head? := by
  induction t with
  | leaf =>
      simp only [Impl.Const.minEntry?]
      rfl
  | inner size key value l r ihl _ =>
      rw [treeEntries_inner]
      cases l with
      | leaf =>
          simp only [Impl.Const.minEntry?]
          rfl
      | inner =>
          rw [Impl.Const.minEntry?, ihl, treeEntries_inner]
          simp only [List.head?_append, List.head?_cons, Option.or_some, Option.getD_some]

end Traversal

/-! ## Entries in order -/

section Ascending

variable {κ β : Type} [Ord κ] [Std.TransOrd κ] [Std.LawfulEqOrd κ]

/-- Entries in the order of their keys are determined by what they are. -/
theorem eq_of_ascending {l l' : List (κ × β)} (h : l.Pairwise fun a b => compare a.1 b.1 = .lt)
    (h' : l'.Pairwise fun a b => compare a.1 b.1 = .lt) (hmem : ∀ e, e ∈ l ↔ e ∈ l') : l = l' := by
  have hnodup : ∀ {l : List (κ × β)}, (l.Pairwise fun a b => compare a.1 b.1 = .lt) → l.Nodup := by
    intro l hl
    refine hl.imp fun {a b} hab heq => ?_
    rw [heq, Std.ReflOrd.compare_self] at hab
    cases hab
  refine ((List.perm_ext_iff_of_nodup (hnodup h) (hnodup h')).mpr hmem).eq_of_pairwise ?_ h h'
  intro a b _ _ hab hba
  rw [Std.OrientedOrd.eq_swap, hba] at hab
  cases hab

/-- Storing under a key behind all others puts the entry at the end. -/
theorem toList_insert_last {m : Std.TreeMap κ β} {k : κ}
    (h : ∀ e ∈ m.toList, compare e.1 k = .lt) (v : β) :
    (m.insert k v).toList = m.toList ++ [(k, v)] := by
  refine eq_of_ascending Std.TreeMap.ordered_keys_toList ?_ ?_
  · rw [List.pairwise_append]
    refine ⟨Std.TreeMap.ordered_keys_toList, List.pairwise_singleton _ _, fun a ha b hb => ?_⟩
    rw [List.mem_singleton.mp hb]
    exact h a ha
  · rintro ⟨k', v'⟩
    rw [List.mem_append, List.mem_singleton, Std.TreeMap.mem_toList_iff_getElem?_eq_some,
      Std.TreeMap.mem_toList_iff_getElem?_eq_some, Std.TreeMap.getElem?_insert]
    by_cases hk : compare k k' = .eq
    · -- Under the key itself there was nothing before.
      have hkey := Std.LawfulEqOrd.eq_of_compare hk
      have hnone : m[k']? ≠ some v' := fun hsome => by
        have hlt := h (k', v') (Std.TreeMap.mem_toList_iff_getElem?_eq_some.mpr hsome)
        rw [hkey, Std.ReflOrd.compare_self] at hlt
        cases hlt
      simp [hkey, hnone, eq_comm]
    · have hne : k' ≠ k := fun heq => hk (by rw [heq, Std.ReflOrd.compare_self])
      simp [hk, hne]

/-- Taking away what is not there changes nothing. -/
theorem toList_erase_absent {m : Std.TreeMap κ β} {k : κ} (h : m[k]? = none) :
    (m.erase k).toList = m.toList := by
  refine eq_of_ascending Std.TreeMap.ordered_keys_toList Std.TreeMap.ordered_keys_toList ?_
  rintro ⟨k', v'⟩
  rw [Std.TreeMap.mem_toList_iff_getElem?_eq_some, Std.TreeMap.mem_toList_iff_getElem?_eq_some,
    Std.TreeMap.getElem?_erase]
  by_cases hk : compare k k' = .eq
  · rw [← Std.LawfulEqOrd.eq_of_compare hk, h]
    simp
  · simp [hk]

end Ascending

namespace Table

variable {t : Table} {k : Key} {v : Value}

/-- An entry of the list of all entries is the one under its key. -/
theorem get_of_mem_toList (h : (k, v) ∈ t.toList) : t.get k = v ∧ t.contains k = true := by
  have hentry : t.entries[k]? = some v := Std.TreeMap.mem_toList_iff_getElem?_eq_some.mp h
  refine ⟨?_, ?_⟩
  · rw [get, hentry]
    rfl
  · rw [contains, Std.TreeMap.contains_eq_isSome_getElem?, hentry]
    rfl

/-- A traversal comes to the first entry that is after the last one. -/
theorem next?_eq_find? (t : Table) (after : Option Key) :
    t.next? after = t.toList.find? fun e => after.all fun k => compare k e.1 == .lt := by
  have hmodel : t.toList = treeEntries t.entries.inner.inner :=
    Std.DTreeMap.Internal.Impl.Const.toList_eq_toListModel_map
  rw [hmodel]
  cases after with
  | none =>
      show Std.DTreeMap.Internal.Impl.Const.minEntry? t.entries.inner.inner = _
      rw [smallest_eq_head?]
      cases treeEntries t.entries.inner.inner <;> rfl
  | some k =>
      show Std.DTreeMap.Internal.Impl.Const.getEntryGT?.go k none t.entries.inner.inner = _
      rw [searchGT_eq_find? k t.entries.inner.wf.ordered, Option.or_none]
      rfl

/-- The entry that a traversal comes to is the one under its key. -/
theorem get_of_next? {after : Option Key} (h : t.next? after = some (k, v)) :
    t.get k = v ∧ t.contains k = true :=
  get_of_mem_toList (List.mem_of_find?_eq_some (t.next?_eq_find? after ▸ h))

/-- Storing brings in no key but the one that it is done under. -/
theorem contains_set {j : Key} (h : (t.set k v).contains j = true) :
    j = k ∨ t.contains j = true := by
  unfold set contains at h
  split at h
  · rw [Std.TreeMap.contains_erase, Bool.and_eq_true] at h
    exact .inr h.2
  · rw [Std.TreeMap.contains_insert, Bool.or_eq_true, beq_iff_eq] at h
    rcases h with h | h
    · exact .inl (Std.LawfulEqOrd.eq_of_compare h).symm
    · exact .inr h

theorem contains_empty (k : Key) : Table.empty.contains k = false :=
  Std.TreeMap.contains_emptyc

/-- Storing under a key behind all others puts the entry at the end, unless it is `nil`. -/
theorem toList_set_last (h : ∀ e ∈ t.toList, compare e.1 k = .lt) (v : Value) :
    (t.set k v).toList = if v.isNil then t.toList else t.toList ++ [(k, v)] := by
  by_cases hv : v.isNil = true
  · have hnone : t.entries[k]? = none := by
      cases hentry : t.entries[k]? with
      | none => rfl
      | some v =>
          have hlt := h (k, v) (Std.TreeMap.mem_toList_iff_getElem?_eq_some.mpr hentry)
          rw [Std.ReflOrd.compare_self] at hlt
          cases hlt
    simp only [set, if_pos hv, toList]
    exact toList_erase_absent hnone
  · simp only [set, if_neg hv, toList]
    exact toList_insert_last h v

theorem get_empty (k : Key) : Table.empty.get k = .nil := by
  rw [get, empty, Std.TreeMap.getElem?_emptyc]
  rfl

end Table

end Script

end PixelEffects
