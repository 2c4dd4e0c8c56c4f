import PixelEffects.Proofs.Script.Built.Evaluation
import PixelEffects.Proofs.Script.Host

/-!
# Tables as Maps

In every heap that a script can come to, a table is a map whose keys are compared as values are.

Besides evaluation there is the host, which makes tables of the records that it passes in and stores
globals. It does so under texts. Hence all tables are built at any moment of the life of an engine,
and a built table has no entry that is `nil`, and no key that is NaN or the zero with a sign.

So there are no entries that a script could not get at. A key of a table is what some value becomes,
and values that become one key are those that the script calls equal. What an assignment stores
under one of them is what is read under all of the others, and nothing else changes.

## Main definitions

* `Heap.Reached`: The heaps that a script or a host can come to.

## Theorems

* `Engine.answer_built`: What a host does leaves built tables behind.
* `Heap.Reached.built`: The tables of every heap that is reached are built.
* `reached_tables_are_maps`: They are maps up to the equality of scripts.
-/

namespace PixelEffects

namespace Script

variable {ν : Type}

/-! ## Values that are passed in -/

mutual

theorem HostValue.toScript_built : (v : HostValue) → {heap : Heap} → heap.Built →
    (v.toScript heap).2.Built
  | .nil, _, hheap | .bool _, _, hheap | .number _, _, hheap | .text _, _, hheap
  | .foreign _, _, hheap => hheap
  | .record fields, _, hheap => by
      rcases fieldsToScript_built fields .empty hheap with ⟨ht, hheap'⟩
      exact hheap'.push ht

theorem fieldsToScript_built : (fields : List (String × HostValue)) → {t : Table} → t.Built →
    {heap : Heap} → heap.Built → (HostValue.fieldsToScript fields t heap).1.Built ∧
      (HostValue.fieldsToScript fields t heap).2.Built
  | [], _, ht, _, hheap => ⟨ht, hheap⟩
  | (name, v) :: fields, _, ht, _, hheap =>
      fieldsToScript_built fields (ht.set (Key.isLegal_text name) _)
        (HostValue.toScript_built v hheap)

end

theorem HostValue.allToScript_built (vs : List HostValue) {heap : Heap} (hheap : heap.Built) :
    (allToScript vs heap).2.Built := by
  induction vs generalizing heap with
  | nil => exact hheap
  | cons v vs ih => exact ih (v.toScript_built hheap)

/-! ## Stores and reads -/

theorem Heap.table_update_self (heap : Heap) {id : TableId} (hid : id.index < heap.size)
    (f : Table → Table) : (heap.update id f).table id = f (heap.table id) := by
  unfold Heap.table Heap.update
  rw [Array.getD_eq_getD_getElem?, Array.getD_eq_getD_getElem?, Array.getElem?_modify,
    if_pos rfl, Array.getElem?_eq_getElem hid]
  rfl

/-- Reading under a legal value has a result, the entry that the value becomes. -/
theorem run_index_entry {k : Value} {a : Key} (hk : Key.ofValue? k = .ok a) (id : TableId)
    (s : Setting) (m : Machine ν) : (index (.table id) k : Eval ν Value) s m =
      .ok ((m.tables.table id).get a) m := by
  have hnil : k.isNil = false := by
    cases k with
    | nil => cases hk
    | _ => rfl
  simp only [index, hnil, keyOf, hk]
  rfl

/-- A computation that builds leaves built tables behind, with a result or with a fault. -/
theorem Builds.machineAfter_built {α : Type} {x : Eval ν α} (hx : Builds x) (s : Setting)
    {m : Machine ν} (h : m.tables.Built) : (machineAfter (x s m)).tables.Built := by
  have hend := hx s m h
  generalize x s m = r at hend
  cases hend with
  | ok hm _ => exact hm
  | error hm => exact hm

theorem Engine.run_built {e : Engine ν} {α : Type} {x : Eval ν α} (hx : Builds x)
    (h : e.machine.tables.Built) : (e.run x).2.machine.tables.Built := by
  have hend := hx e.setting e.machine h
  unfold Engine.run
  dsimp only
  generalize x e.setting e.machine = r at hend
  cases hend with
  | ok hm _ => exact hm
  | error hm => exact hm

variable [Reference ν]

/-- Storing under a legal value has a result, and changes the entry that the value becomes. -/
theorem run_store_entry {k : Value} {a : Key} (hk : Key.ofValue? k = .ok a) (env : Env)
    (id : TableId) (v : Value) (s : Setting) (m : Machine ν) :
    (do store env (← entryPlace (.table id) k) v : Eval ν Unit) s m =
      .ok () { m with tables := m.tables.update id (·.set a v) } := by
  have hplace : (entryPlace (.table id) k : Eval ν (Place ν)) = pure (.entry id a) := by
    simp only [entryPlace, keyOf, hk]
    rfl
  rw [hplace]
  rfl

/-! ## What a host does -/

theorem execChunk_builds (chunk : Chunk ν) : Builds (execChunk chunk) := by
  intro s m hm
  refine Builds.bind (block_builds callWithin_builds _ _) (fun flow => ?_) s _ hm
  cases flow with
  | broken => exact .fault _
  | _ => exact Builds.pure _

theorem callGlobal_builds (name : String) (args : List Value) :
    Builds (callGlobal name args : Eval ν _) := by
  intro s m hm
  unfold callGlobal
  dsimp only
  split
  · exact .error hm
  · exact Builds.callValue callWithin_builds _ _ args s m.restarted hm

namespace Engine

variable {e : Engine ν}

theorem answer_built (h : e.machine.tables.Built) (op : HostOp ν) :
    (e.answer op).2.machine.tables.Built := by
  cases op with
  | run chunk => exact run_built (execChunk_builds chunk) h
  | bind name v =>
      exact (v.toScript_built h).store Machine.globals (Key.isLegal_text name) _
  | call name args =>
      simp only [answer, call_eq]
      exact run_built (callGlobal_builds name _) (HostValue.allToScript_built args h)
  | entryPoint name => exact h

end Engine

/-- A way in which script functions are called: by a host, or somewhere inside a call. -/
inductive IsCaller : Caller ν → Prop
  | within : IsCaller callWithin
  | closure (fuel : Nat) : IsCaller (callClosure fuel)

/-- The heaps that can be come to: the one at the start, and those after an operation of a host, an
    expression or a statement, whatever else there is by then besides the heap. -/
inductive Heap.Reached (ν : Type) [Reference ν] : Heap → Prop
  | initial : Reached ν Library.initialTables
  | answered {e : Engine ν} (h : Reached ν e.machine.tables) (op : HostOp ν) :
      Reached ν (e.answer op).2.machine.tables
  | evaluated {m : Machine ν} (h : Reached ν m.tables) {call : Caller ν} (hcall : IsCaller call)
      (s : Setting) (env : Env) (expr : Expr ν) :
      Reached ν (machineAfter (expr.results call env s m)).tables
  | executed {m : Machine ν} (h : Reached ν m.tables) {call : Caller ν} (hcall : IsCaller call)
      (s : Setting) (env : Env) (stmt : Stmt ν) :
      Reached ν (machineAfter (stmt.exec call env s m)).tables

theorem IsCaller.builds {call : Caller ν} (h : IsCaller call) (c : Closure ν)
    (args : List Value) : Builds (call c args) := by
  cases h with
  | within => exact callWithin_builds c args
  | closure fuel => exact callClosure_builds fuel c args

/-- By induction on how the heap was reached. -/
theorem Heap.Reached.built {heap : Heap} (h : Reached ν heap) : heap.Built := by
  induction h with
  | initial => exact Library.initialTables_built
  | answered _ op ih => exact Engine.answer_built ih op
  | evaluated _ hcall s env expr ih =>
      exact (Expr.results_builds hcall.builds env expr).machineAfter_built s ih
  | executed _ hcall s env stmt ih =>
      exact (Stmt.exec_builds hcall.builds env stmt).machineAfter_built s ih

/-- In every heap that is reached, no table has an entry that is `nil`, or a key that is NaN or the
    zero with a sign. Values that become keys become the same one exactly if they are equal, so what
    is stored under one of them is read under those that are equal to it, and under all others there
    is what was there before. -/
theorem reached_tables_are_maps :
    (∀ heap, Heap.Reached ν heap → ∀ t ∈ heap, ∀ k v, (k, v) ∈ t.toList →
      v ≠ .nil ∧ ∀ x, k = .number x → x.isNaN = false ∧ x.toBits ≠ 0x8000000000000000) ∧
    ∀ k₁ k₂ a b, Key.ofValue? k₁ = .ok a → Key.ofValue? k₂ = .ok b →
      (compare a b = .eq ↔ k₁.rawEq k₂ = true) ∧
      (∀ (t : Table) v, (t.set a v).get b = if k₁.rawEq k₂ then v else t.get b) ∧
      ∀ (s : Setting) (m : Machine ν) env (id : TableId) v, id.index < m.tables.size →
        ∃ old m', (index (.table id) k₂ : Eval ν Value) s m = .ok old m ∧
          (do store env (← entryPlace (.table id) k₁) v : Eval ν Unit) s m = .ok () m' ∧
          (index (.table id) k₂ : Eval ν Value) s m' =
            .ok (if k₁.rawEq k₂ then v else old) m' := by
  refine ⟨fun heap hreached t ht k v hentry => ?_, fun k₁ k₂ a b ha hb => ⟨?_, ?_, ?_⟩⟩
  · rcases Array.mem_iff_getElem?.mp ht with ⟨i, hi⟩
    have hbuilt : t.Built := by
      have htable := hreached.built ⟨i⟩
      unfold Heap.table at htable
      rwa [Array.getD_eq_getD_getElem?, hi] at htable
    refine ⟨hbuilt.ne_nil (Std.TreeMap.mem_toList_iff_getElem?_eq_some.mp hentry), ?_⟩
    rintro x rfl
    exact hbuilt.legal (Table.get_of_mem_toList hentry).2
  · exact Key.compare_eq_iff_rawEq ha hb
  · exact fun t v => Table.get_set_of_ofValue? ha hb t v
  · intro s m env id v hid
    refine ⟨_, _, run_index_entry hb id s m, run_store_entry ha env id v s m, ?_⟩
    rw [run_index_entry hb, Heap.table_update_self _ hid, Table.get_set_of_ofValue? ha hb]

/-- The two zeros are equal and become one key, so what is stored under the one is read under the
    other. -/
theorem reached_tables_are_maps_zeros :
    Key.ofValue? (.number (-0.0)) = .ok (.number 0) ∧ Key.ofValue? (.number 0) = .ok (.number 0) ∧
      (Value.number (-0.0)).rawEq (.number 0) = true ∧
      (Library.mathTable.set (.number 0) (.bool true)).get (.number 0) = .bool true := by
  have hzero : ∀ x : Float, x.isNaN = false → (x == 0) = true →
      Key.ofValue? (.number x) = .ok (.number 0) := by
    intro x hnan heq
    rw [Key.ofValue?, if_neg (Bool.not_eq_true _ ▸ hnan), Key.ofNumber, if_pos heq]
  have hnegative := hzero (-0.0) (by decide +kernel) (by decide +kernel)
  have hpositive := hzero 0 (by decide +kernel) (by decide +kernel)
  have hequal : (Value.number (-0.0)).rawEq (.number 0) = true := by decide +kernel
  rcases (@reached_tables_are_maps String _).2 _ _ _ _ hnegative hpositive with ⟨_, hget, _⟩
  refine ⟨hnegative, hpositive, hequal, ?_⟩
  rw [hget, if_pos hequal]

end Script

end PixelEffects
