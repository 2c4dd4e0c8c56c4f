import PixelEffects.Script.Value.Key

/-!
# Tables

A table maps keys to values.

`nil` stands for an absent entry: storing it removes what was there, and reading what is absent
gives it, so no entry ever holds it. The entries are kept in the order of their keys, and a
traversal goes from one key to the next greater one. It needs nothing but the last key to go on,
which is what makes it independent of changes behind and ahead of it.

The length of a table is its border: the largest `n` such that all positions from 1 to `n` have an
entry. There can be no more of them than entries, and the search for the border stops there.

## Main definitions

* `Table`: A map from keys to values.
* `Table.get`, `Table.set`: Reading and storing an entry.
* `Table.length`: The border.
* `Table.next?`: The first entry, or the one after a key.
* `Table.insertAt`: Storing at a position, with what follows moved up.
* `Table.values`: What stands at the positions up to one.

## Theorems

* `Table.get_set`: What is read after storing.
-/

namespace PixelEffects

namespace Script

/-- A map from keys to values. -/
structure Table where
  entries : Std.TreeMap Key Value

namespace Table

/-- A table without entries. -/
def empty : Table :=
  ⟨∅⟩

instance : Inhabited Table := ⟨empty⟩

/-- The value under a key, `nil` when there is none. -/
def get (t : Table) (k : Key) : Value :=
  t.entries[k]?.getD .nil

/-- Store a value under a key; storing `nil` removes the entry. -/
def set (t : Table) (k : Key) (v : Value) : Table :=
  if v.isNil then ⟨t.entries.erase k⟩ else ⟨t.entries.insert k v⟩

/-- Whether there is an entry under a key. -/
def contains (t : Table) (k : Key) : Bool :=
  t.entries.contains k

/-- The entries in the order of their keys. -/
def toList (t : Table) : List (Key × Value) :=
  t.entries.toList

theorem get_set (t : Table) (k j : Key) (v : Value) :
    (t.set k v).get j = if compare k j = .eq then v else t.get j := by
  cases v <;>
    simp [set, get, Value.isNil, Std.TreeMap.getElem?_insert, Std.TreeMap.getElem?_erase] <;>
    split <;> rfl

/-- The value at a position. -/
def atPosition (t : Table) (n : Nat) : Value :=
  t.get (Key.ofPosition n)

/-- The last position before the first gap after `n`, looking at no more than `bound` positions. -/
def borderFrom (t : Table) : Nat → Nat → Nat
  | 0, n => n
  | bound + 1, n => if t.contains (Key.ofPosition (n + 1)) then t.borderFrom bound (n + 1) else n

/-- The largest `n` such that all positions from 1 to `n` have an entry. -/
def length (t : Table) : Nat :=
  t.borderFrom t.entries.size 0

/-- The first entry, or the first one after a key. -/
def next? (t : Table) : Option Key → Option (Key × Value)
  | none => t.entries.minEntry?
  | some k => t.entries.getEntryGT? k

/-- Move the entries at the positions `pos .. pos + count - 1` up by one, the last one first. -/
def shiftUp (pos : Nat) : Nat → Table → Table
  | 0, t => t
  | count + 1, t =>
    shiftUp pos count (t.set (Key.ofPosition (pos + count + 1)) (t.atPosition (pos + count)))

/-- Store a value at a position of a table with border `n`, with what follows moved up. -/
def insertAt (t : Table) (n pos : Nat) (v : Value) : Table :=
  (shiftUp pos (n + 1 - pos) t).set (Key.ofPosition pos) v

/-- The values at the positions from 1 to `n`. -/
def values (t : Table) (n : Nat) : List Value :=
  (List.range' 1 n).map t.atPosition

end Table

end Script

end PixelEffects
