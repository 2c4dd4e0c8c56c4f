import PixelEffects.Proofs.Script.Border
import PixelEffects.Proofs.Script.Built.Host

/-!
# Inserting

What `table.insert` does to the tables of a machine.

It is the one library function that changes a table, and it either does all of it or nothing. What
can go wrong is found out from the arguments and from the border, before anything is written, and
what comes after that cannot go wrong. So a function *settles first* if it leaves the tables alone
when it ends with a cause. Taking an argument or looking at a table before it makes no difference to
that.

The position is a number, of which the integer part counts. A text that reads as a number will do as
well.

## Main definitions

* `Library.SettlesFirst`: Library functions that change nothing when they stop.
* `InsertedIn`: What a machine has become when a value was inserted in one of its tables.

## Theorems

* `Library.insert_settlesFirst`: An insertion that stops has changed nothing.
* `insert_loses_nothing`: What an insertion does, for all arguments.
-/

namespace PixelEffects

namespace Script

variable {ν : Type}

/-! ## Stopping before anything is written -/

namespace Library

variable {α β : Type}

/-- A library function that leaves the tables alone when it stops with a cause. -/
def SettlesFirst (c : Call α) : Prop :=
  ∀ heap cause heap', c heap = .error cause heap' → heap' = heap

namespace SettlesFirst

theorem refuse (cause : LibraryCause) : SettlesFirst (refuse cause : Call α) := by
  intro heap cause' heap' h
  cases h
  rfl

theorem take_bind (r : Except LibraryCause α) {f : α → Call β} (hf : ∀ a, SettlesFirst (f a)) :
    SettlesFirst (take r >>= f) := by
  cases r with
  | ok a => exact hf a
  | error cause => exact refuse cause

theorem take (r : Except LibraryCause α) : SettlesFirst (take r) := by
  cases r with
  | ok a => exact fun _ _ _ h => nomatch h
  | error cause => exact refuse cause

theorem tableAt_bind (id : TableId) {f : Table → Call β} (hf : ∀ t, SettlesFirst (f t)) :
    SettlesFirst (tableAt id >>= f) :=
  fun heap => hf (heap.table id) heap

/-- Once a table is changed, nothing can stop the function any more. -/
theorem change_pure (id : TableId) (f : Table → Table) (a : α) :
    SettlesFirst (do
      change id f
      pure a) :=
  fun _ _ _ h => nomatch h

end SettlesFirst

theorem insert_settlesFirst (args : List Value) : SettlesFirst (insert args) := by
  refine .take_bind _ fun id => .tableAt_bind id fun t => ?_
  dsimp only
  split
  · exact .change_pure _ _ _
  · refine .take_bind _ fun x => ?_
    split
    · exact .take _
    · exact .change_pure _ _ _
  · exact .refuse _

end Library

/-- An insertion shows no places, so the call is the function on the tables. -/
theorem run_insert (args : List Value) (s : Setting) (m : Machine ν) :
    callLibrary .insert args s m = match Library.insert args m.tables with
      | .ok vs heap => .ok vs { m with tables := heap }
      | .error cause heap => fault (.library cause) s { m with tables := heap } :=
  run_callLibrary rfl s m

/-- A fault of the call leaves the machine as it was. -/
theorem eq_of_insert_fault {args : List Value} {s : Setting} {m m' : Machine ν} {f : Fault}
    (h : callLibrary .insert args s m = .error f m') : m' = m := by
  rw [run_insert] at h
  cases hinsert : Library.insert args m.tables with
  | ok vs heap =>
      rw [hinsert] at h
      cases h
  | error cause heap =>
      rw [hinsert] at h
      cases h
      rw [Library.insert_settlesFirst args _ _ _ hinsert]

/-! ## Inserting in a table of a machine -/

/-- What a machine has become when a value was inserted in one of its tables: nothing else about it
    has changed. -/
structure InsertedIn (m m' : Machine ν) (id : TableId) (pos : Nat) (v : Value) : Prop where
  table : (m.tables.table id).Inserted (m'.tables.table id) pos v
  others : ∀ other, other ≠ id → m'.tables.table other = m.tables.table other
  rest : m' = { m with tables := m'.tables }

theorem Heap.table_update_other (heap : Heap) {id other : TableId} (h : other ≠ id)
    (f : Table → Table) : (heap.update id f).table other = heap.table other := by
  rcases Vocabulary.heap_table_update heap f id other with hsame | ⟨heq, _⟩
  · exact hsame
  · exact absurd heq h

theorem insertedIn_update {m : Machine ν} {id : TableId} (hid : id.index < m.tables.size)
    {f : Table → Table} {pos : Nat} {v : Value}
    (h : (m.tables.table id).Inserted (f (m.tables.table id)) pos v) :
    InsertedIn m { m with tables := m.tables.update id f } id pos v where
  table := (Heap.table_update_self m.tables hid f).symm ▸ h
  others := fun _ hother => Heap.table_update_other m.tables hother f
  rest := rfl

section Runs

variable {id : TableId} {v : Value} (s : Setting) (m : Machine ν)

theorem run_insert_behind : callLibrary .insert [.table id, v] s m =
    .ok [] { m with
      tables := m.tables.update id fun t =>
        t.set (Key.ofPosition ((m.tables.table id).length + 1)) v } :=
  rfl

/-- The call as it goes on when its position is a number. -/
theorem run_insert_number {p : Value} {x : Float}
    (hx : Argument.number? .insert [.table id, p, v] 1 = .ok x) :
    callLibrary .insert [.table id, p, v] s m =
      if Number.toCount x < 1 ∨ (m.tables.table id).length + 1 < Number.toCount x then
        fault (.library (.badArgument Builtin.insert.name 2 .position .outOfBounds)) s m
      else .ok [] { m with
        tables := m.tables.update id fun t =>
          t.insertAt (m.tables.table id).length (Number.toCount x) v } := by
  have hrun : Library.insert [.table id, p, v] m.tables =
      if Number.toCount x < 1 ∨ (m.tables.table id).length + 1 < Number.toCount x then
        .error (.badArgument Builtin.insert.name 2 .position .outOfBounds) m.tables
      else .ok [] (m.tables.update id fun t =>
        t.insertAt (m.tables.table id).length (Number.toCount x) v) := by
    show (Library.take (Argument.number? .insert [.table id, p, v] 1) >>= fun x => _) _ = _
    rw [hx]
    show (if Number.toCount x < 1 || Number.toCount x > (m.tables.table id).length + 1 then _
      else _ : Library.Call (List Value)) m.tables = _
    simp only [Bool.or_eq_true, decide_eq_true_eq, gt_iff_lt]
    split <;> rfl
  rw [run_insert, hrun]
  split_ifs <;> rfl

end Runs

/-- An insertion loses nothing. Whatever the arguments are, a call that faults leaves the machine as
    it was. On a table with border `n`, a position whose integer part is below 1 or above `n + 1` is
    such a fault, and any other position is where the value is stored, with what was there and
    after it moved up. Without a position the value is stored behind the border.

    The border is to be below 2 ^ 53, since there is no number for the position after that one. -/
theorem insert_loses_nothing (s : Setting) (m : Machine ν) (hm : m.tables.Built) :
    (∀ args f m', callLibrary .insert args s m = .error f m' → m' = m) ∧
    ∀ (id : TableId) (v : Value) n, id.index < m.tables.size → (m.tables.table id).length = n →
      n < 2 ^ 53 → v ≠ .nil →
      (∀ p x, Argument.number? .insert [.table id, p, v] 1 = .ok x →
        (Number.toCount x < 1 ∨ n + 1 < Number.toCount x →
          callLibrary .insert [.table id, p, v] s m =
            fault (.library (.badArgument Builtin.insert.name 2 .position .outOfBounds)) s m) ∧
        (1 ≤ Number.toCount x → Number.toCount x ≤ n + 1 →
          ∃ m', callLibrary .insert [.table id, p, v] s m = .ok [] m' ∧
            InsertedIn m m' id (Number.toCount x) v)) ∧
      (∀ pos, 1 ≤ pos → pos ≤ n + 1 →
        ∃ m', callLibrary .insert [.table id, .number (Float.ofNat pos), v] s m = .ok [] m' ∧
          InsertedIn m m' id pos v) ∧
      ∃ m', callLibrary .insert [.table id, v] s m = .ok [] m' ∧ InsertedIn m m' id (n + 1) v := by
  refine ⟨fun _ _ _ => eq_of_insert_fault, ?_⟩
  rintro id v n hid rfl hborder hv
  have hinside : ∀ p x, Argument.number? .insert [.table id, p, v] 1 = .ok x →
      1 ≤ Number.toCount x → Number.toCount x ≤ (m.tables.table id).length + 1 →
      ∃ m', callLibrary .insert [.table id, p, v] s m = .ok [] m' ∧
        InsertedIn m m' id (Number.toCount x) v := by
    intro p x hx hpos hle
    rw [run_insert_number s m hx, if_neg (by omega)]
    exact ⟨_, rfl, insertedIn_update hid (Table.inserted_insertAt (hm id) hborder hpos hle hv)⟩
  refine ⟨fun p x hx => ⟨fun houtside => ?_, hinside p x hx⟩, fun pos hpos hle => ?_, ?_⟩
  · rw [run_insert_number s m hx, if_pos houtside]
  · have hcount : Number.toCount (Float.ofNat pos) = pos := Number.toCount_ofNat (by omega)
    have hnumber := hinside (.number (Float.ofNat pos)) _ rfl
    rw [hcount] at hnumber
    exact hnumber hpos hle
  · exact ⟨_, run_insert_behind s m, insertedIn_update hid (Table.inserted_set (hm id) hborder hv)⟩

/-- Inserting in front of the only position of a table: what was there moves up, and there are two
    positions afterwards. -/
theorem insert_loses_nothing_front :
    let m : Machine := { Machine.initial with
      tables := #[Table.empty.set (Key.ofPosition 1) (.bool true)] }
    m.tables.Built ∧ (m.tables.table ⟨0⟩).length = 1 ∧ ∃ m',
      callLibrary .insert [.table ⟨0⟩, .number (Float.ofNat 1), .text "first"] ⟨{}, fun _ => 0⟩ m =
        .ok [] m' ∧
      (m'.tables.table ⟨0⟩).atPosition 1 = .text "first" ∧
      (m'.tables.table ⟨0⟩).atPosition 2 = .bool true ∧
      2 ≤ (m'.tables.table ⟨0⟩).length := by
  intro m
  have hbuilt : m.tables.Built :=
    Heap.Built.empty.push (Table.Built.empty.set (Key.isLegal_ofPosition 1) _)
  have hborder : (m.tables.table ⟨0⟩).length = 1 := by
    decide +kernel
  have hinside := ((insert_loses_nothing ⟨{}, fun _ => 0⟩ m hbuilt).2 ⟨0⟩ (.text "first") 1
    Nat.zero_lt_one hborder (by decide) nofun).2.1
  rcases hinside 1 (Nat.le_refl 1) (by decide) with ⟨m', hrun, hinserted⟩
  refine ⟨hbuilt, hborder, m', hrun, hinserted.table.stored, ?_, ?_⟩
  · have hmoved := hinserted.table.moved 1 (Nat.le_refl 1) hborder.ge
    rw [hmoved]
    show (Table.empty.set (Key.ofPosition 1) (.bool true)).get (Key.ofPosition 1) = .bool true
    exact Table.get_set_self _ _
  · have hlength := hinserted.table.length
    rwa [hborder] at hlength

end Script

end PixelEffects
