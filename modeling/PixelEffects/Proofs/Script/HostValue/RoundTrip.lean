import PixelEffects.Proofs.Script.Table
import PixelEffects.Script.HostValue

/-!
# Host Values There and Back

What comes back of a host value that was made a script value.

Going in, a record becomes a table, and what a script cannot hold becomes `nil`, of which a table
takes no notice. Coming out, a table becomes a record again, unless it is inside of too many others.
So what comes back is the value without the parts that are lost on the way in (`pruned`), cut off where
the way out ends (`cutOff`).

The fields of a record are in the order of their names. That is also the order of the entries of the
table, so each field is stored behind those that are there, and comes out in its place.

A value that is made of records takes several tables, and later ones are made while earlier ones are
there already. For the induction the heap that is read is therefore any that has the tables of the
conversion and perhaps more.

## Main definitions

* `HostValue.isOrdered`: The fields of all records are in the order of their names.
* `HostValue.pruned`: What is not lost on the way in.
* `HostValue.cutOff`: What is not lost on the way out.
* `HostValue.isWhole`, `HostValue.nesting`: Values of which nothing is lost.
* `Heap.Extends`: A heap with everything that another one has.

## Theorems

* `HostValue.fieldsToScript_entries`: The entries of the table that a record becomes.
* `HostValue.ofScript_extended`: What comes back, from any heap with the tables in it.
* `HostValue.ofScript_toScript`: What comes back.
-/

namespace PixelEffects

namespace Script

/-- A heap with everything that another one has, and perhaps more behind it. -/
def Heap.Extends (heap heap' : Heap) : Prop :=
  heap.size ≤ heap'.size ∧ ∀ id : TableId, id.index < heap.size → heap'.table id = heap.table id

namespace Heap.Extends

variable {heap heap' heap'' : Heap}

theorem refl (heap : Heap) : heap.Extends heap :=
  ⟨Nat.le_refl _, fun _ _ => rfl⟩

theorem trans (h : heap.Extends heap') (h' : heap'.Extends heap'') : heap.Extends heap'' := by
  refine ⟨Nat.le_trans h.1 h'.1, fun id hid => ?_⟩
  rw [h'.2 id (Nat.lt_of_lt_of_le hid h.1), h.2 id hid]

theorem push (heap : Heap) (t : Table) : heap.Extends (heap.push t) := by
  refine ⟨by simp, fun id hid => ?_⟩
  simp [Heap.table, Array.getD_eq_getD_getElem?, Array.getElem?_push, Nat.ne_of_lt hid]

/-- The table that was pushed is where it was put. -/
theorem table_pushed {t : Table} (h : Heap.Extends (heap.push t) heap') :
    heap'.table ⟨heap.size⟩ = t := by
  rw [h.2 ⟨heap.size⟩ (by simp)]
  simp [Heap.table, Array.getD_eq_getD_getElem?]

end Heap.Extends

namespace HostValue

/-! ## What is lost -/

/-- Whether a value is `nil`. -/
def isNil : HostValue → Bool
  | nil => true
  | _ => false

mutual

/-- The fields of all records are in the order of their names, and no two have one name. -/
def isOrdered : HostValue → Bool
  | record fields => fieldsOrdered fields
  | _ => true

/-- The fields are in order, and those of the records in them. -/
def fieldsOrdered : List (String × HostValue) → Bool
  | [] => true
  | (name, v) :: fields =>
    fields.all (fun f => compare name f.1 == .lt) && (v.isOrdered && fieldsOrdered fields)

end

mutual

/-- A value with `nil` for what is foreign, and without the fields that are `nil` then. -/
def pruned : HostValue → HostValue
  | foreign _ => nil
  | record fields => record (prunedFields fields)
  | nil => nil
  | bool b => bool b
  | number x => number x
  | text s => text s

/-- The fields that are left, with what is left of their values. -/
def prunedFields : List (String × HostValue) → List (String × HostValue)
  | [] => []
  | (name, v) :: fields =>
    if v.pruned.isNil then prunedFields fields else (name, v.pruned) :: prunedFields fields

end

mutual

/-- A value with nothing but its type for each record that `depth` or more others stand around. -/
def cutOff : Nat → HostValue → HostValue
  | 0, record _ => foreign .table
  | depth + 1, record fields => record (cutOffFields depth fields)
  | _, foreign t => foreign t
  | _, nil => nil
  | _, bool b => bool b
  | _, number x => number x
  | _, text s => text s

/-- The fields with their values cut off. -/
def cutOffFields (depth : Nat) : List (String × HostValue) → List (String × HostValue)
  | [] => []
  | (name, v) :: fields => (name, v.cutOff depth) :: cutOffFields depth fields

end

mutual

/-- Nothing in a value is `nil` or foreign. -/
def isWhole : HostValue → Bool
  | record fields => fieldsWhole fields
  | nil => false
  | foreign _ => false
  | _ => true

/-- Nothing in the values of the fields is. -/
def fieldsWhole : List (String × HostValue) → Bool
  | [] => true
  | (_, v) :: fields => v.isWhole && fieldsWhole fields

end

mutual

/-- How deeply records are nested. -/
def nesting : HostValue → Nat
  | record fields => nestingOfFields fields + 1
  | _ => 0

/-- How deeply records are nested in the values of the fields. -/
def nestingOfFields : List (String × HostValue) → Nat
  | [] => 0
  | (_, v) :: fields => max v.nesting (nestingOfFields fields)

end

/-! ## The way in -/

mutual

/-- Tables are only added. -/
theorem toScript_extends (heap : Heap) : (v : HostValue) → heap.Extends (v.toScript heap).2
  | nil | foreign _ | bool _ | number _ | text _ => .refl heap
  | record fields => (fieldsToScript_extends heap .empty fields).trans (.push _ _)

theorem fieldsToScript_extends (heap : Heap) (t : Table) :
    (fields : List (String × HostValue)) → heap.Extends (fieldsToScript fields t heap).2
  | [] => .refl heap
  | (_, v) :: fields => (toScript_extends heap v).trans (fieldsToScript_extends _ _ fields)

end

/-- A value becomes `nil` exactly if that is what is left of it. -/
theorem isNil_toScript (v : HostValue) (heap : Heap) :
    (v.toScript heap).1.isNil = v.pruned.isNil := by
  cases v <;> simp [toScript, pruned, Value.isNil, isNil]

/-! ## Fields in order -/

theorem fieldsOrdered_cons {name : String} {v : HostValue} {fields : List (String × HostValue)}
    (h : fieldsOrdered ((name, v) :: fields) = true) :
    (∀ f ∈ fields, compare name f.1 = .lt) ∧ v.isOrdered = true ∧ fieldsOrdered fields = true := by
  simpa [fieldsOrdered] using h

/-- The names that are left of ordered fields are in order, and they are names of these fields. -/
theorem ascending_of_ordered (depth : Nat) {fields : List (String × HostValue)}
    (h : fieldsOrdered fields = true) :
    (cutOffFields depth (prunedFields fields)).Pairwise (fun a b => compare a.1 b.1 = .lt) ∧
      ∀ f ∈ cutOffFields depth (prunedFields fields), ∃ v, (f.1, v) ∈ fields := by
  induction fields with
  | nil => simp [prunedFields, cutOffFields]
  | cons f fields ih =>
      rcases f with ⟨name, v⟩
      rcases fieldsOrdered_cons h with ⟨hname, _, hfields⟩
      rcases ih hfields with ⟨hpairs, hnames⟩
      -- Names that are left of the rest are names of the rest, with the first field or without.
      have hlater : ∀ f ∈ cutOffFields depth (prunedFields fields),
          ∃ v', (f.1, v') ∈ (name, v) :: fields := by
        intro f hf
        rcases hnames f hf with ⟨v', hv'⟩
        exact ⟨v', List.mem_cons_of_mem _ hv'⟩
      by_cases hnil : v.pruned.isNil = true
      · simp only [prunedFields, if_pos hnil]
        exact ⟨hpairs, hlater⟩
      · simp only [prunedFields, if_neg hnil, cutOffFields, List.pairwise_cons]
        refine ⟨⟨fun f hf => ?_, hpairs⟩, ?_⟩
        · rcases hnames f hf with ⟨v', hv'⟩
          exact hname (f.1, v') hv'
        · simp only [List.forall_mem_cons]
          exact ⟨⟨v, List.mem_cons_self⟩, hlater⟩

/-- Fields that are put into a map in order come out as they are. -/
theorem collect_of_ascending {fields : List (String × HostValue)}
    (h : fields.Pairwise fun a b => compare a.1 b.1 = .lt) : collect fields = fields := by
  -- The fields are behind all that are in the map, whatever was put there before.
  have hfold : ∀ (fields : List (String × HostValue)) (m : Std.TreeMap String HostValue),
      (fields.Pairwise fun a b => compare a.1 b.1 = .lt) →
      (∀ e ∈ m.toList, ∀ f ∈ fields, compare e.1 f.1 = .lt) →
      (fields.foldl (fun m f => m.insert f.1 f.2) m).toList = m.toList ++ fields := by
    intro fields
    induction fields with
    | nil => simp
    | cons f fields ih =>
        intro m hpairs hbehind
        rw [List.pairwise_cons] at hpairs
        have hlast : (m.insert f.1 f.2).toList = m.toList ++ [f] :=
          toList_insert_last (fun e he => hbehind e he f List.mem_cons_self) f.2
        rw [List.foldl_cons, ih (m.insert f.1 f.2) hpairs.2, hlast]
        · simp
        · intro e he f' hf'
          rw [hlast, List.mem_append, List.mem_singleton] at he
          rcases he with he | rfl
          · exact hbehind e he f' (List.mem_cons_of_mem f hf')
          · exact hpairs.1 f' hf'
  have hempty : (∅ : Std.TreeMap String HostValue).toList = [] := rfl
  have hall := hfold fields ∅ h (by simp [hempty])
  rwa [hempty, List.nil_append] at hall

/-! ## The way out -/

mutual

/-- From any heap with the tables that a value was made of, what comes back is what is left of it. -/
theorem ofScript_extended {heap heap' : Heap} (depth : Nat) : (v : HostValue) → v.isOrdered = true →
    (v.toScript heap).2.Extends heap' →
      ofScriptWithin heap' depth (v.toScript heap).1 = v.pruned.cutOff depth
  | nil, _, _ | foreign _, _, _ | bool _, _, _ | number _, _, _ | text _, _, _ => by
      cases depth <;> rfl
  | record fields, hv, h => by
      cases depth with
      | zero => rfl
      | succ depth =>
          have hextends : (fieldsToScript fields .empty heap).2.Extends heap' :=
            (Heap.Extends.push _ _).trans h
          have hempty : Table.empty.toList = [] := rfl
          have hentries := fieldsToScript_entries depth fields hv .empty (by simp [hempty]) hextends
          simp only [toScript, ofScriptWithin, pruned, cutOff]
          rw [Heap.Extends.table_pushed h, hentries, hempty, List.map_nil, List.nil_append,
            collect_of_ascending (ascending_of_ordered depth hv).1]

/-- The entries of a table in which fields are stored behind all that is there, as they come back. -/
theorem fieldsToScript_entries {heap heap' : Heap} (depth : Nat) :
    (fields : List (String × HostValue)) → fieldsOrdered fields = true → (t : Table) →
    (∀ e ∈ t.toList, ∀ f ∈ fields, compare e.1 (.text f.1) = .lt) →
    (fieldsToScript fields t heap).2.Extends heap' →
      (fieldsToScript fields t heap).1.toList.map
          (fun e => (fieldName e.1, ofScriptWithin heap' depth e.2)) =
        t.toList.map (fun e => (fieldName e.1, ofScriptWithin heap' depth e.2)) ++
          cutOffFields depth (prunedFields fields)
  | [], _, t, _, _ => by simp [fieldsToScript, prunedFields, cutOffFields]
  | (name, v) :: fields, hfields, t, ht, h => by
      rcases fieldsOrdered_cons hfields with ⟨hname, hv, hrest⟩
      have hvalue : ofScriptWithin heap' depth (v.toScript heap).1 = v.pruned.cutOff depth :=
        ofScript_extended depth v hv ((fieldsToScript_extends _ _ fields).trans h)
      have hset : (t.set (.text name) (v.toScript heap).1).toList =
          if v.pruned.isNil then t.toList else t.toList ++ [(.text name, (v.toScript heap).1)] := by
        rw [Table.toList_set_last (fun e he => ht e he _ List.mem_cons_self), isNil_toScript]
      have hbehind : ∀ e ∈ (t.set (.text name) (v.toScript heap).1).toList, ∀ f ∈ fields,
          compare e.1 (.text f.1) = .lt := by
        intro e he f hf
        rw [hset] at he
        split at he
        · exact ht e he f (List.mem_cons_of_mem _ hf)
        · rcases List.mem_append.mp he with he | he
          · exact ht e he f (List.mem_cons_of_mem _ hf)
          · rw [List.mem_singleton.mp he]
            exact hname f hf
      simp only [fieldsToScript]
      rw [fieldsToScript_entries depth fields hrest _ hbehind h, hset]
      by_cases hnil : v.pruned.isNil = true
      · simp only [prunedFields, if_pos hnil]
      · simp [prunedFields, hnil, cutOffFields, fieldName, hvalue]

end

/-! ## Values of which nothing is lost -/

mutual

theorem pruned_of_isWhole : (v : HostValue) → v.isWhole = true → v.pruned = v
  | nil, h | foreign _, h => by cases h
  | bool _, _ | number _, _ | text _, _ => rfl
  | record fields, h => congrArg record (prunedFields_of_whole fields h)

theorem prunedFields_of_whole : (fields : List (String × HostValue)) → fieldsWhole fields = true →
    prunedFields fields = fields
  | [], _ => rfl
  | (name, v) :: fields, h => by
      simp only [fieldsWhole, Bool.and_eq_true] at h
      have hv := pruned_of_isWhole v h.1
      have hfields := prunedFields_of_whole fields h.2
      have hnil : v.isNil = false := by
        cases v <;> first | rfl | cases h.1
      simp [prunedFields, hv, hnil, hfields]

end

mutual

theorem cutOff_of_nesting (depth : Nat) : (v : HostValue) → v.nesting ≤ depth → v.cutOff depth = v
  | nil, _ | foreign _, _ | bool _, _ | number _, _ | text _, _ => by
      cases depth <;> rfl
  | record fields, h => by
      cases depth with
      | zero => cases h
      | succ depth =>
          exact congrArg record (cutOffFields_of_nesting depth fields (Nat.le_of_succ_le_succ h))

theorem cutOffFields_of_nesting (depth : Nat) : (fields : List (String × HostValue)) →
    nestingOfFields fields ≤ depth → cutOffFields depth fields = fields
  | [], _ => rfl
  | (name, v) :: fields, h => by
      simp only [nestingOfFields, Nat.max_le] at h
      simp [cutOffFields, cutOff_of_nesting depth v h.1, cutOffFields_of_nesting depth fields h.2]

end

/-- What comes back of a host value that was made a script value, on any heap.

    Foreign values come back as `nil`, and fields that are `nil` then do not come back at all. Records
    inside of sixteen others or more come back as their type. Everything else comes back as it was,
    numbers bit by bit, and so does the whole value if there is nothing of the kind in it. -/
theorem ofScript_toScript (v : HostValue) (hv : v.isOrdered = true) (heap : Heap) :
    ofScript (v.toScript heap).2 (v.toScript heap).1 = v.pruned.cutOff maxDepth ∧
      (v.isWhole = true → v.nesting ≤ maxDepth →
        ofScript (v.toScript heap).2 (v.toScript heap).1 = v) := by
  have hback := ofScript_extended maxDepth v hv (Heap.Extends.refl (v.toScript heap).2)
  refine ⟨hback, fun hwhole hnesting => ?_⟩
  rw [pruned_of_isWhole v hwhole, cutOff_of_nesting maxDepth v hnesting] at hback
  exact hback

/-- A record with a field of each kind that does not come back, and the part of it that does. -/
theorem ofScript_toScript_partial :
    let part := record [("c", record [("d", bool true)])]
    let v := record [("a", nil), ("b", foreign .function), ("c", record [("d", bool true), ("e", nil)])]
    v.isOrdered = true ∧ ofScript (v.toScript #[]).2 (v.toScript #[]).1 = part ∧
      part.isWhole = true ∧ part.nesting ≤ maxDepth ∧
      ofScript (part.toScript #[]).2 (part.toScript #[]).1 = part := by
  intro part v
  have hv : v.isOrdered = true := by decide
  have hpart : part.isOrdered = true := by decide
  have hpruned : v.pruned.cutOff maxDepth = part := by
    simp [v, part, pruned, prunedFields, cutOff, cutOffFields, isNil, maxDepth]
  have hwhole : part.isWhole = true := by decide
  have hnesting : part.nesting ≤ maxDepth := by decide
  exact ⟨hv, (ofScript_toScript v hv #[]).1.trans hpruned, hwhole, hnesting,
    (ofScript_toScript part hpart #[]).2 hwhole hnesting⟩

end HostValue

end Script

end PixelEffects
