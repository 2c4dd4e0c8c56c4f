import Mathlib.Algebra.BigOperators.Ring.Finset
import Mathlib.Algebra.Group.Action.Defs
import Mathlib.Algebra.Order.BigOperators.Group.Finset
import PixelEffects.Script.Engine

/-!
# The Size of Host Values

How large the host value is that a script value becomes.

Tables can share tables, and contain themselves. A host value has no places, so a table is taken out
again each time that it is come upon. What is taken out is therefore not as large as the tables are but
as the paths that lead to them, and a path ends only where sixteen tables are inside of one another.
With every step that paths go further there can be as many times more of them as a table has entries.
It is only where few paths of one length lead to the same table that the tables themselves bound the
size.

## Main definitions

* `HostValue.nodes`: The size of a host value.
* `reached`: The tables that paths of some length lead to, one for each path.
* `Heap.entries`: The number of entries of a table.
* `HostValue.HoldsItself`: Tables that hold nothing but themselves.

## Theorems

* `HostValue.nodes_ofScriptWithin`: The size as a sum over all paths.
* `HostValue.nodes_le_of_shared`: The size where few paths lead to the same table.
* `HostValue.nodes_le_of_width`: The size where no table has many entries.
* `HostValue.nodes_of_holdsItself`: The size of a table that holds itself.
* `HostValue.nodes_ofScript`: The size of what is taken out, and what bounds it.
* `HostValue.nodes_ofScript_shared`: A script with few tables and a large value.
-/

namespace PixelEffects

namespace Script

open Finset (range sum_range_succ')

/-! ## Paths -/

section Paths

variable {heap : Heap} {v : Value}

/-- How many entries a table has. -/
def Heap.entries (heap : Heap) (id : TableId) : Nat :=
  (heap.table id).toList.length

/-- The tables at the ends of the paths of some length, one for each path. -/
def reached (heap : Heap) : Nat → Value → List TableId
  | 0, .table id => [id]
  | length + 1, .table id => (heap.table id).toList.flatMap fun e => reached heap length e.2
  | _, _ => []

theorem mem_reached_succ {length : Nat} {id id' : TableId} :
    id' ∈ reached heap (length + 1) (.table id) ↔
      ∃ e ∈ (heap.table id).toList, id' ∈ reached heap length e.2 := by
  simp [reached]

/-- The entries at the ends of the paths of some length. -/
def reachedEntries (heap : Heap) (length : Nat) (v : Value) : Nat :=
  ((reached heap length v).map heap.entries).sum

theorem reachedEntries_zero (id : TableId) : reachedEntries heap 0 (.table id) = heap.entries id := by
  simp [reachedEntries, reached]

/-- A path from a table goes through one of its entries. -/
theorem reachedEntries_succ (length : Nat) (id : TableId) :
    reachedEntries heap (length + 1) (.table id) =
      ((heap.table id).toList.map fun e => reachedEntries heap length e.2).sum := by
  rw [reachedEntries, reached, List.map_flatMap, List.flatMap_def, List.sum_flatten, List.map_map]
  rfl

/-- Sums over a list and over a range can be taken in either order. -/
theorem sum_map_sum_range {α : Type} (l : List α) (n : Nat) (f : α → Nat → Nat) :
    (l.map fun a => ∑ i ∈ range n, f a i).sum = ∑ i ∈ range n, (l.map fun a => f a i).sum := by
  induction l with
  | nil => simp
  | cons a l ih => simp [ih, Finset.sum_add_distrib]

/-- The entries on all paths from a table: its own, and those on the paths from what it holds. -/
theorem sum_reachedEntries (depth : Nat) (id : TableId) :
    ∑ i ∈ range (depth + 1), reachedEntries heap i (.table id) =
      ((heap.table id).toList.map fun e =>
        1 + ∑ i ∈ range depth, reachedEntries heap i e.2).sum := by
  simp only [sum_range_succ', reachedEntries_succ, reachedEntries_zero, List.sum_map_add,
    sum_map_sum_range, List.map_const', List.sum_replicate, smul_eq_mul, Nat.mul_one, Heap.entries]
  exact Nat.add_comm _ _

/-- Where no table has more than `w` entries, paths of a length are at most as many as words. -/
theorem length_reached {w depth : Nat}
    (hw : ∀ i < depth, ∀ id ∈ reached heap i v, heap.entries id ≤ w) :
    (reached heap depth v).length ≤ w ^ depth := by
  induction depth generalizing v with
  | zero => cases v <;> simp [reached]
  | succ depth ih =>
      cases v with
      | table id =>
          have hid : heap.entries id ≤ w := hw 0 (by omega) id (by simp [reached])
          have hinner : ∀ e ∈ (heap.table id).toList, (reached heap depth e.2).length ≤ w ^ depth := by
            intro e he
            exact ih fun i hi id' hid' =>
              hw (i + 1) (by omega) id' (mem_reached_succ.mpr ⟨e, he, hid'⟩)
          -- Every entry begins a path, and from there on the paths are words that are shorter by one.
          calc (reached heap (depth + 1) (.table id)).length
              = ((heap.table id).toList.map fun e => (reached heap depth e.2).length).sum :=
                List.length_flatMap
            _ ≤ ((heap.table id).toList.map fun _ => w ^ depth).sum := List.sum_le_sum hinner
            _ = heap.entries id * w ^ depth := by
                rw [List.map_const', List.sum_replicate, smul_eq_mul, Heap.entries]
            _ ≤ w ^ (depth + 1) := by
                rw [Nat.pow_succ']
                exact Nat.mul_le_mul_right _ hid
      | _ => simp [reached]

end Paths

namespace HostValue

mutual

/-- How many values there are in a value, itself included. -/
def nodes : HostValue → Nat
  | record fields => nodesOfFields fields + 1
  | _ => 1

/-- How many values there are in the values of the fields. -/
def nodesOfFields : List (String × HostValue) → Nat
  | [] => 0
  | (_, v) :: fields => v.nodes + nodesOfFields fields

end

theorem nodesOfFields_eq_sum (fields : List (String × HostValue)) :
    nodesOfFields fields = (fields.map fun f => f.2.nodes).sum := by
  induction fields with
  | nil => rfl
  | cons f fields ih => simp [nodesOfFields, ih]

/-! ## Fields of one name -/

/-- A field that is put into a map replaces one of the same name, if there is one. -/
theorem nodesOfFields_insert (m : Std.TreeMap String HostValue) (name : String) (v : HostValue) :
    nodesOfFields (m.insert name v).toList ≤ nodesOfFields m.toList + v.nodes ∧
      (name ∉ m → nodesOfFields (m.insert name v).toList = nodesOfFields m.toList + v.nodes) := by
  have hperm := Std.TreeMap.toList_insert_perm (t := m) (k := name) (v := v)
  have hsum : nodesOfFields (m.insert name v).toList =
      nodesOfFields (m.toList.filter fun f => ¬ (name == f.1)) + v.nodes := by
    simp only [nodesOfFields_eq_sum, (hperm.map fun f => f.2.nodes).sum_eq, List.map_cons,
      List.sum_cons, Nat.add_comm v.nodes]
  rw [hsum]
  constructor
  · -- Of the fields before, those of the name are gone.
    simp only [nodesOfFields_eq_sum, Nat.add_le_add_iff_right]
    exact (List.filter_sublist.map _).sum_le_sum fun _ _ => Nat.zero_le _
  · intro hname
    have hkept : (m.toList.filter fun f => ¬ (name == f.1)) = m.toList := by
      rw [List.filter_eq_self]
      intro f hf
      have hf' := Std.TreeMap.mem_toList_iff_getElem?_eq_some.mp hf
      have hne : name ≠ f.1 := by
        rintro rfl
        rw [Std.TreeMap.getElem?_eq_none hname] at hf'
        cases hf'
      simpa using hne
    rw [hkept]

theorem nodesOfFields_foldl (fields : List (String × HostValue))
    (m : Std.TreeMap String HostValue) :
    nodesOfFields (fields.foldl (fun m f => m.insert f.1 f.2) m).toList ≤
        nodesOfFields m.toList + nodesOfFields fields ∧
      ((fields.map Prod.fst).Nodup → (∀ f ∈ fields, f.1 ∉ m) →
        nodesOfFields (fields.foldl (fun m f => m.insert f.1 f.2) m).toList =
          nodesOfFields m.toList + nodesOfFields fields) := by
  induction fields generalizing m with
  | nil => simp [nodesOfFields]
  | cons f fields ih =>
      rcases nodesOfFields_insert m f.1 f.2 with ⟨hle, heq⟩
      rcases ih (m.insert f.1 f.2) with ⟨ihle, iheq⟩
      simp only [List.foldl_cons, nodesOfFields, List.map_cons, List.nodup_cons,
        List.forall_mem_cons]
      constructor
      · omega
      · intro hnames hm
        -- The other fields still have names that are not in the map, since no name comes twice.
        have hrest : ∀ g ∈ fields, g.1 ∉ m.insert f.1 f.2 := by
          intro g hg hmem
          rcases Std.TreeMap.mem_insert.mp hmem with hsame | hmem
          · rw [Std.LawfulEqOrd.eq_of_compare hsame] at hnames
            exact hnames.1 (List.mem_map_of_mem hg)
          · exact hm.2 g hg hmem
        have hfirst := heq hm.1
        have hothers := iheq hnames.2 hrest
        omega

/-- Of the fields that are collected no more are left than there were, and all of them if no two have
    one name. -/
theorem nodesOfFields_collect (fields : List (String × HostValue)) :
    nodesOfFields (collect fields) ≤ nodesOfFields fields ∧
      ((fields.map Prod.fst).Nodup → nodesOfFields (collect fields) = nodesOfFields fields) := by
  have hempty : nodesOfFields (∅ : Std.TreeMap String HostValue).toList = 0 := rfl
  have hfold := nodesOfFields_foldl fields ∅
  rw [hempty, Nat.zero_add] at hfold
  exact ⟨hfold.1, fun hnames => hfold.2 hnames fun _ _ => Std.TreeMap.not_mem_emptyc⟩

/-! ## What bounds the size -/

/-- The keys of a table have different names as fields. -/
def DistinctNames (heap : Heap) (id : TableId) : Prop :=
  ((heap.table id).toList.map fun e => fieldName e.1).Nodup

instance (heap : Heap) (id : TableId) : Decidable (DistinctNames heap id) :=
  inferInstanceAs (Decidable (List.Nodup _))

variable {heap : Heap} {v : Value} {depth : Nat}

/-- What becomes of a table holds what becomes of its entries, but for those with the name of another. -/
theorem nodes_ofTable (heap : Heap) (depth : Nat) (id : TableId) :
    let inner := ((heap.table id).toList.map fun e => (ofScriptWithin heap depth e.2).nodes).sum
    (ofScriptWithin heap (depth + 1) (.table id)).nodes ≤ 1 + inner ∧
      (DistinctNames heap id → (ofScriptWithin heap (depth + 1) (.table id)).nodes = 1 + inner) := by
  intro inner
  -- One list of fields is collected, counted, and has its names compared.
  generalize hfields : ((heap.table id).toList.map fun e =>
    (fieldName e.1, ofScriptWithin heap depth e.2)) = fields
  have hinner : nodesOfFields fields = inner := by
    simp [← hfields, inner, nodesOfFields_eq_sum, Function.comp_def]
  have hnames : DistinctNames heap id ↔ (fields.map Prod.fst).Nodup := by
    simp [← hfields, DistinctNames, Function.comp_def]
  rw [ofScriptWithin, hfields, nodes, hnames, ← hinner, Nat.add_comm]
  rcases nodesOfFields_collect fields with ⟨hle, heq⟩
  exact ⟨Nat.add_le_add_left hle 1, fun h => congrArg (1 + ·) (heq h)⟩

/-- The values are as many as the entries on all paths, but for those with the name of another. -/
theorem nodes_ofScriptWithin (heap : Heap) (depth : Nat) (v : Value) :
    (ofScriptWithin heap depth v).nodes ≤ 1 + ∑ i ∈ range depth, reachedEntries heap i v ∧
      ((∀ i < depth, ∀ id ∈ reached heap i v, DistinctNames heap id) →
        (ofScriptWithin heap depth v).nodes = 1 + ∑ i ∈ range depth, reachedEntries heap i v) := by
  induction depth generalizing v with
  | zero => cases v <;> simp [ofScriptWithin, nodes]
  | succ depth ih =>
      cases v with
      | table id =>
          -- The table itself, and then what it holds, with one step less to go.
          rcases nodes_ofTable heap depth id with ⟨hle, heq⟩
          rw [sum_reachedEntries]
          constructor
          · exact hle.trans (Nat.add_le_add_left (List.sum_le_sum fun e _ => (ih e.2).1) 1)
          · intro hnames
            have hinner : ∀ e ∈ (heap.table id).toList, (ofScriptWithin heap depth e.2).nodes =
                1 + ∑ i ∈ range depth, reachedEntries heap i e.2 := by
              intro e he
              exact (ih e.2).2 fun i hi id' hid' =>
                hnames (i + 1) (by omega) id' (mem_reached_succ.mpr ⟨e, he, hid'⟩)
            rw [heq (hnames 0 (by omega) id (by simp [reached])), List.map_congr_left hinner]
      | _ => simp [ofScriptWithin, nodes, reachedEntries, reached]

/-- Where no more than `n` paths of one length lead to the same table, the tables bound the size. -/
theorem nodes_le_of_shared {tables : Finset TableId} {n : Nat}
    (htables : ∀ i < depth, ∀ id ∈ reached heap i v, id ∈ tables)
    (hn : ∀ i < depth, ∀ id ∈ tables, (reached heap i v).count id ≤ n) :
    (ofScriptWithin heap depth v).nodes ≤ 1 + depth * (n * ∑ id ∈ tables, heap.entries id) := by
  have hlength : ∀ i ∈ range depth, reachedEntries heap i v ≤ n * ∑ id ∈ tables, heap.entries id := by
    intro i hi
    rw [Finset.mem_range] at hi
    have hsub : (reached heap i v).toFinset ⊆ tables := by
      intro id hid
      exact htables i hi id (List.mem_toFinset.mp hid)
    -- A table counts with its entries as often as there are paths to it.
    rw [reachedEntries, Finset.sum_list_map_count, Finset.mul_sum]
    refine (Finset.sum_le_sum fun id hid => ?_).trans (Finset.sum_le_sum_of_subset hsub)
    exact Nat.mul_le_mul_right _ (hn i hi id (hsub hid))
  have hsum := Finset.sum_le_card_nsmul _ _ _ hlength
  rw [Finset.card_range, smul_eq_mul] at hsum
  exact (nodes_ofScriptWithin heap depth v).1.trans (Nat.add_le_add_left hsum 1)

/-- Where no table has more than `w` entries, the size is that of a tree with so many branches. -/
theorem nodes_le_of_width {w : Nat}
    (hw : ∀ i < depth, ∀ id ∈ reached heap i v, heap.entries id ≤ w) :
    (ofScriptWithin heap depth v).nodes ≤ ∑ i ∈ range (depth + 1), w ^ i := by
  have hlength : ∀ i ∈ range depth, reachedEntries heap i v ≤ w ^ (i + 1) := by
    intro i hi
    rw [Finset.mem_range] at hi
    have hpaths := length_reached fun j (hj : j < i) => hw j (by omega)
    have hentries := List.sum_le_card_nsmul ((reached heap i v).map heap.entries) w
      (by simpa using hw i hi)
    rw [List.length_map, smul_eq_mul] at hentries
    rw [Nat.pow_succ]
    exact hentries.trans (Nat.mul_le_mul_right w hpaths)
  -- The one value itself is the power that is missing.
  have hsum := Finset.sum_le_sum hlength
  have hnodes := (nodes_ofScriptWithin heap depth v).1
  rw [sum_range_succ', Nat.pow_zero]
  omega

/-! ## Tables that hold themselves -/

/-- All that a table holds is itself. -/
def HoldsItself (heap : Heap) (id : TableId) : Prop :=
  ∀ e ∈ (heap.table id).toList, reached heap 0 e.2 = [id]

instance (heap : Heap) (id : TableId) : Decidable (HoldsItself heap id) :=
  inferInstanceAs (Decidable (∀ e ∈ (heap.table id).toList, reached heap 0 e.2 = [id]))

theorem eq_table_of_reached {id : TableId} (h : reached heap 0 v = [id]) : v = .table id := by
  cases v with
  | table id' => simpa [reached] using h
  | _ => simp [reached] at h

/-- Paths in a table that holds itself are as many as words of its entries, and end in it. -/
theorem reached_of_holdsItself {id : TableId} (h : HoldsItself heap id) (length : Nat) :
    reached heap length (.table id) = List.replicate (heap.entries id ^ length) id := by
  induction length with
  | zero => simp [reached]
  | succ length ih =>
      have hinner : ∀ e ∈ (heap.table id).toList,
          reached heap length e.2 = List.replicate (heap.entries id ^ length) id := by
        intro e he
        rw [eq_table_of_reached (h e he), ih]
      rw [reached, List.flatMap_def, List.map_congr_left hinner, List.map_const',
        List.flatten_replicate_replicate, Nat.pow_succ', Heap.entries]

/-- A table that holds itself becomes a tree with as many branches everywhere as it has entries. -/
theorem nodes_of_holdsItself {id : TableId} (h : HoldsItself heap id)
    (hnames : DistinctNames heap id) (depth : Nat) :
    (ofScriptWithin heap depth (.table id)).nodes =
      ∑ i ∈ range (depth + 1), heap.entries id ^ i := by
  have hown : ∀ i < depth, ∀ id' ∈ reached heap i (.table id), DistinctNames heap id' := by
    intro i _ id' hid'
    rw [reached_of_holdsItself h] at hid'
    rwa [List.eq_of_mem_replicate hid']
  rw [(nodes_ofScriptWithin heap depth (.table id)).2 hown, sum_range_succ', Nat.pow_zero,
    Nat.add_comm]
  simp [reachedEntries, reached_of_holdsItself h, Nat.pow_succ]

/-- How large the host value is that a script value becomes.

    It has as many values as there are entries on all paths, and one more. Entries whose keys have the
    same text count once. If at most `n` paths of one length lead to the same table, then this is at
    most sixteen times `n` times the number of all entries, and one more. Otherwise the number of
    entries of a table is the base of a power that grows with each step of the paths, and a table that
    holds nothing but itself shows that it can be so large. -/
theorem nodes_ofScript (heap : Heap) (v : Value) :
    ((ofScript heap v).nodes ≤ 1 + ∑ i ∈ range maxDepth, reachedEntries heap i v ∧
      ((∀ i < maxDepth, ∀ id ∈ reached heap i v, DistinctNames heap id) →
        (ofScript heap v).nodes = 1 + ∑ i ∈ range maxDepth, reachedEntries heap i v)) ∧
    (∀ (tables : Finset TableId) (n : Nat),
      (∀ i < maxDepth, ∀ id ∈ reached heap i v, id ∈ tables) →
      (∀ i < maxDepth, ∀ id ∈ tables, (reached heap i v).count id ≤ n) →
        (ofScript heap v).nodes ≤ 1 + 16 * (n * ∑ id ∈ tables, heap.entries id)) ∧
    (∀ w, (∀ i < maxDepth, ∀ id ∈ reached heap i v, heap.entries id ≤ w) →
      (ofScript heap v).nodes ≤ ∑ i ∈ range 17, w ^ i) ∧
    ∀ id, v = .table id → HoldsItself heap id → DistinctNames heap id →
      (ofScript heap v).nodes = ∑ i ∈ range 17, heap.entries id ^ i := by
  refine ⟨nodes_ofScriptWithin heap maxDepth v, ?_, ?_, ?_⟩
  · exact fun tables n => nodes_le_of_shared
  · exact fun w => nodes_le_of_width
  · rintro id rfl hself hnames
    exact nodes_of_holdsItself hself hnames maxDepth

/-- A script with a table that holds itself once. It becomes as large as the tables allow. -/
theorem nodes_ofScript_once :
    let e := ((Engine.new ⟨⟨100, 2⟩, .spaced⟩).load none "" "t = \x7b\x7d t.me = t").2.1
    let heap := e.machine.tables
    let v := e.machine.global "t"
    let tables : Finset TableId := {⟨4⟩}
    (∀ i < maxDepth, ∀ id ∈ reached heap i v, id ∈ tables) ∧
      (∀ i < maxDepth, ∀ id ∈ tables, (reached heap i v).count id ≤ 1) ∧
      (ofScript heap v).nodes ≤ 1 + 16 * (1 * ∑ id ∈ tables, heap.entries id) ∧
      (ofScript heap v).nodes = 17 ∧ ∑ id ∈ tables, heap.entries id = 1 := by
  intro e heap v tables
  have hglobal : reached heap 0 v = [⟨4⟩] := by decide +kernel
  have hv : v = .table ⟨4⟩ := eq_table_of_reached hglobal
  have hself : HoldsItself heap ⟨4⟩ := by decide +kernel
  have hnames : DistinctNames heap ⟨4⟩ := by decide +kernel
  have hentries : heap.entries ⟨4⟩ = 1 := by decide +kernel
  have hreached : ∀ i, reached heap i v = [⟨4⟩] := by
    intro i
    rw [hv, reached_of_holdsItself hself, hentries, Nat.one_pow]
    rfl
  have htables : ∀ i < maxDepth, ∀ id ∈ reached heap i v, id ∈ tables := by
    simp [hreached, tables]
  have hcount : ∀ i < maxDepth, ∀ id ∈ tables, (reached heap i v).count id ≤ 1 := by
    simp [hreached, tables]
  have hnodes := (nodes_ofScript heap v).2.2.2 ⟨4⟩ hv hself hnames
  rw [hentries] at hnodes
  exact ⟨htables, hcount, (nodes_ofScript heap v).2.1 tables 1 htables hcount,
    hnodes.trans (by decide), by simp [tables, hentries]⟩

/-- The entries of the tables do not bound the size of what a script makes. Here one table with two
    entries becomes 131071 values. -/
theorem nodes_ofScript_shared :
    ¬ ∀ (setting : Setting) (source name : String) (tables : Finset TableId),
      let e := ((Engine.new setting).load none "" source).2.1
      let heap := e.machine.tables
      let v := e.machine.global name
      (∀ length, ∀ id ∈ reached heap length v, id ∈ tables) →
        (ofScript heap v).nodes ≤ 1 + 16 * ∑ id ∈ tables, heap.entries id := by
  intro h
  have hbound := h ⟨⟨100, 2⟩, .spaced⟩ "t = \x7b\x7d t.a = t t.b = t" "t" {⟨4⟩}
  -- The run is only looked at for the table that it makes, and not for the values that come of it.
  generalize hheap : ((Engine.new ⟨⟨100, 2⟩, .spaced⟩).load none ""
    "t = \x7b\x7d t.a = t t.b = t").2.1 = e at hbound
  have hglobal : reached e.machine.tables 0 (e.machine.global "t") = [⟨4⟩] := by
    rw [← hheap]
    decide +kernel
  have hself : HoldsItself e.machine.tables ⟨4⟩ := by
    rw [← hheap]
    decide +kernel
  have hnames : DistinctNames e.machine.tables ⟨4⟩ := by
    rw [← hheap]
    decide +kernel
  have hentries : e.machine.tables.entries ⟨4⟩ = 2 := by
    rw [← hheap]
    decide +kernel
  have hreached : ∀ length, ∀ id ∈ reached e.machine.tables length (e.machine.global "t"),
      id ∈ ({⟨4⟩} : Finset TableId) := by
    intro length id hid
    rw [eq_table_of_reached hglobal, reached_of_holdsItself hself] at hid
    exact Finset.mem_singleton.mpr (List.eq_of_mem_replicate hid)
  have hnodes := nodes_of_holdsItself hself hnames maxDepth
  rw [← eq_table_of_reached hglobal, hentries] at hnodes
  have hfew := hbound hreached
  rw [ofScript, hnodes, Finset.sum_singleton, hentries] at hfew
  exact absurd hfew (by decide)

end HostValue

end Script

end PixelEffects
