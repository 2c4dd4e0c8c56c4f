import PixelEffects.Proofs.Script.Plain
import PixelEffects.Proofs.Script.Syntax.Precedence
import PixelEffects.Proofs.Script.Table

/-!
# Vocabularies

Classes of texts that a script cannot get out of.

What a script computes with comes from somewhere: its text says it, a host has passed it in, or an
operation has made it from what was there before. So a class of texts that holds everything a script
begins with, and that no operation leads out of, holds everything that the script will ever see. What
an operation can make of a text depends on which library functions there are, and so a vocabulary
says two things, which texts may occur and which library functions.

The texts of a machine are the values in its tables and scopes, and the keys of its tables, which
a traversal gives back. The names of globals are keys too, but no value refers to the table of globals,
so it does not matter what they are.

A computation *keeps* a vocabulary if it leaves a machine of it as one, whether it ends with a result
or with a fault, and if its result is as it should be. The steps of the machine do. Evaluation
is put together from them.

## Main definitions

* `Vocabulary`: Texts and library functions that operations do not lead out of.
* `Vocabulary.Admits`, `Vocabulary.AdmitsAll`, `Vocabulary.AdmitsMachine` and others: What is made of
  them.
* `literalChecks`: The texts that a tree says are of a class.
* `EndsIn`, `Vocabulary.Keeps`: Computations that keep a vocabulary.

## Theorems

* `Vocabulary.Keeps.bind`: One computation after another.
* `Vocabulary.Keeps.writeEntry`, `Vocabulary.Keeps.readVariable` and others: The steps of a machine.
* `Vocabulary.Keeps.rounds`: Loops.
-/

namespace PixelEffects

namespace Script

/-- Texts and library functions. The texts are those that values are displayed as and what can be
    made of other texts, by joining them and by the functions that there are. -/
structure Vocabulary (address : Addressing) where
  text : String → Bool
  function : Builtin → Bool
  empty : text "" = true
  typeName : ∀ t : TypeName, text t.text = true
  display : ∀ {v : Value}, (∀ s, v = .text s → text s = true) → text (v.display address) = true
  append : ∀ {a b : String}, text a = true → text b = true →
    (a ++ b).utf8ByteSize ≤ maxTextLength → text (a ++ b) = true
  lower : function .lower = true → ∀ {s : String}, text s = true → text (Case.toLower s) = true
  upper : function .upper = true → ∀ {s : String}, text s = true → text (Case.toUpper s) = true
  sub : function .sub = true → ∀ {s : String} (i : Float) (j : Option Float), text s = true →
    text (Texts.sub s i j) = true
  format : function .format = true → ∀ {args : List Value} {r : String},
    (∀ v ∈ args, ∀ s, v = .text s → text s = true) → Texts.format? address args = .ok r →
      text r = true
  next : function .next = true
  ipairsStep : function .ipairsStep = true

/-- The name of a field that has one is of a class. -/
def Field.nameIn (text : String → Bool) : Field → Bool
  | .named name _ => text name
  | _ => true

/-- The texts that a tree says, and the names of fields among them, are of a class. -/
def literalChecks (text : String → Bool) : Checks where
  expr
    | .text s => text s
    | .table fields => fields.all (Field.nameIn text)
    | _ => true
  action
    | .define _ path _ _ => path.tail.all text
    | _ => true
  follows _ _ := true

namespace Vocabulary

variable {address : Addressing} (V : Vocabulary address)

/-- A value of a vocabulary. The table of globals is not one. -/
def Admits : Value → Prop
  | .text s => V.text s = true
  | .builtin b => V.function b = true
  | .table id => id ≠ Machine.globals
  | _ => True

/-- Values of a vocabulary. -/
def AdmitsAll (vs : List Value) : Prop :=
  ∀ v ∈ vs, V.Admits v

/-- A table with entries and keys of a vocabulary. -/
structure AdmitsTable (t : Table) : Prop where
  entries : ∀ k, V.Admits (t.get k)
  keys : ∀ k, t.contains k = true → V.Admits k.toValue

/-- Tables of a vocabulary. Of the table of globals only the entries count. -/
structure AdmitsHeap (heap : Heap) : Prop where
  inside : Machine.globals.index < heap.size
  globals : ∀ k, V.Admits ((heap.table Machine.globals).get k)
  tables : ∀ id, id ≠ Machine.globals → V.AdmitsTable (heap.table id)

/-- A scope of a vocabulary. -/
def AdmitsScope (scope : Scope) : Prop :=
  ∀ d ∈ scope, V.Admits d.2

/-- A machine of a vocabulary. -/
structure AdmitsMachine (m : Machine) : Prop where
  heap : V.AdmitsHeap m.tables
  scopes : ∀ scope ∈ m.scopes, V.AdmitsScope scope
  closures : ∀ c ∈ m.closures, c.definition.every (literalChecks V.text) = true

end Vocabulary

/-- How a computation ends that keeps an invariant of what it changes. -/
inductive EndsIn {ε σ α : Type} (I : σ → Prop) (Q : α → Prop) : EStateM.Result ε σ α → Prop
  | ok {a : α} {s : σ} (hs : I s) (ha : Q a) : EndsIn I Q (.ok a s)
  | error {e : ε} {s : σ} (hs : I s) : EndsIn I Q (.error e s)

/-- A computation that keeps a vocabulary, with a result that has a property. -/
def Vocabulary.Keeps {s : Setting} (V : Vocabulary s.address) {α : Type} (Q : α → Prop)
    (x : Eval String α) : Prop :=
  ∀ m, V.AdmitsMachine m → EndsIn V.AdmitsMachine Q (x s m)

namespace Vocabulary

variable {α β σ : Type}

section Values

variable {address : Addressing} {V : Vocabulary address}

theorem admits_nil : V.Admits .nil :=
  trivial

theorem admits_number (x : Float) : V.Admits (.number x) :=
  trivial

theorem admits_position (n : Nat) : V.Admits (Key.ofPosition n).toValue :=
  trivial

theorem admits_display {v : Value} (h : V.Admits v) : V.text (v.display address) = true := by
  refine V.display fun s hs => ?_
  subst hs
  exact h

/-- A text that an admitted value is joined as. -/
theorem text_of_joinable? {v : Value} {s : String} (h : V.Admits v)
    (hs : v.joinable? = some s) : V.text s = true := by
  cases v with
  | number x =>
      cases hs
      exact admits_display (v := .number x) trivial
  | text t =>
      cases hs
      exact h
  | _ => cases hs

theorem admits_toValue_ofValue? {v : Value} {k : Key} (h : V.Admits v)
    (hk : Key.ofValue? v = .ok k) : V.Admits k.toValue := by
  cases v with
  | bool b =>
      cases hk
      trivial
  | number x =>
      simp only [Key.ofValue?] at hk
      split at hk
      · cases hk
      · cases hk
        trivial
  | text s =>
      cases hk
      exact h
  | _ => cases hk

namespace AdmitsAll

variable {v : Value} {vs : List Value}

theorem nil : V.AdmitsAll [] :=
  fun _ hv => (List.not_mem_nil hv).elim

theorem cons (hv : V.Admits v) (h : V.AdmitsAll vs) : V.AdmitsAll (v :: vs) :=
  List.forall_mem_cons.mpr ⟨hv, h⟩

theorem one (h : V.Admits v) : V.AdmitsAll [v] :=
  nil.cons h

theorem head (h : V.AdmitsAll (v :: vs)) : V.Admits v :=
  (List.forall_mem_cons.mp h).1

theorem tail (h : V.AdmitsAll (v :: vs)) : V.AdmitsAll vs :=
  (List.forall_mem_cons.mp h).2

theorem headD (h : V.AdmitsAll vs) : V.Admits (vs.headD .nil) := by
  cases vs with
  | nil => exact admits_nil
  | cons v vs => exact h.head

theorem drop (h : V.AdmitsAll vs) (n : Nat) : V.AdmitsAll (vs.drop n) :=
  fun v hv => h v (List.mem_of_mem_drop hv)

end AdmitsAll

end Values

/-! ## Tables -/

namespace AdmitsTable

variable {address : Addressing} {V : Vocabulary address} {t : Table}

theorem empty : V.AdmitsTable .empty := by
  refine ⟨fun k => ?_, fun k hk => ?_⟩
  · rw [Table.get_empty]
    exact admits_nil
  · rw [Table.contains_empty] at hk
    cases hk

theorem set (h : V.AdmitsTable t) {k : Key} {v : Value} (hk : V.Admits k.toValue)
    (hv : V.Admits v) : V.AdmitsTable (t.set k v) := by
  refine ⟨fun j => ?_, fun j hj => ?_⟩
  · rw [Table.get_set]
    split
    · exact hv
    · exact h.entries j
  · rcases Table.contains_set hj with rfl | hj
    · exact hk
    · exact h.keys j hj

theorem shiftUp (h : V.AdmitsTable t) (pos count : Nat) : V.AdmitsTable (t.shiftUp pos count) := by
  induction count generalizing t with
  | zero => exact h
  | succ count ih => exact ih (h.set (admits_position _) (h.entries _))

theorem insertAt (h : V.AdmitsTable t) (n pos : Nat) {v : Value} (hv : V.Admits v) :
    V.AdmitsTable (t.insertAt n pos v) :=
  (h.shiftUp pos _).set (admits_position pos) hv

theorem values (h : V.AdmitsTable t) (n : Nat) : V.AdmitsAll (t.values n) := by
  intro v hv
  rcases List.mem_map.mp hv with ⟨i, _, rfl⟩
  exact h.entries _

theorem addItems (h : V.AdmitsTable t) (n : Nat) {vs : List Value} (hvs : V.AdmitsAll vs) :
    V.AdmitsTable (Script.addItems t n vs).1 := by
  induction vs generalizing t n with
  | nil => exact h
  | cons v vs ih => exact ih (h.set (admits_position n) hvs.head) (n + 1) hvs.tail

end AdmitsTable

theorem heap_table_push (heap : Heap) (t : Table) (id : TableId) :
    Heap.table (heap.push t) id = heap.table id ∨
      id.index = heap.size ∧ Heap.table (heap.push t) id = t := by
  unfold Heap.table
  rw [Array.getD_eq_getD_getElem?, Array.getD_eq_getD_getElem?, Array.getElem?_push]
  by_cases hnew : id.index = heap.size
  · rw [if_pos hnew]
    exact .inr ⟨hnew, rfl⟩
  · rw [if_neg hnew]
    exact .inl rfl

theorem heap_table_update (heap : Heap) (f : Table → Table) (id other : TableId) :
    (heap.update id f).table other = heap.table other ∨
      other = id ∧ (heap.update id f).table other = f (heap.table other) := by
  unfold Heap.table Heap.update
  rw [Array.getD_eq_getD_getElem?, Array.getD_eq_getD_getElem?, Array.getElem?_modify]
  by_cases hsame : id.index = other.index
  · rw [if_pos hsame]
    have hid : other = id := congrArg TableId.mk hsame.symm
    cases hentry : heap[other.index]? with
    | none => exact .inl rfl
    | some t => exact .inr ⟨hid, rfl⟩
  · rw [if_neg hsame]
    exact .inl rfl

namespace AdmitsHeap

variable {address : Addressing} {V : Vocabulary address} {heap : Heap}

theorem get (h : V.AdmitsHeap heap) (id : TableId) (k : Key) : V.Admits ((heap.table id).get k) := by
  by_cases hid : id = Machine.globals
  · rw [hid]
    exact h.globals k
  · exact (h.tables id hid).entries k

/-- A change of a table that is not the one of globals. -/
theorem update (h : V.AdmitsHeap heap) {id : TableId} {f : Table → Table}
    (hid : id ≠ Machine.globals) (hf : ∀ t, V.AdmitsTable t → V.AdmitsTable (f t)) :
    V.AdmitsHeap (heap.update id f) := by
  refine ⟨?_, fun k => ?_, fun other hother => ?_⟩
  · rw [Heap.update, Array.size_modify]
    exact h.inside
  · -- The table that changes is another one.
    rcases heap_table_update heap f id Machine.globals with hsame | ⟨heq, _⟩
    · rw [hsame]
      exact h.globals k
    · exact absurd heq.symm hid
  · rcases heap_table_update heap f id other with hsame | ⟨_, hnew⟩
    · rw [hsame]
      exact h.tables other hother
    · rw [hnew]
      exact hf _ (h.tables other hother)

/-- A global may have any name, since its name is not given back. -/
theorem setGlobal (h : V.AdmitsHeap heap) (k : Key) {v : Value} (hv : V.Admits v) :
    V.AdmitsHeap (heap.update Machine.globals (·.set k v)) := by
  refine ⟨?_, fun j => ?_, fun other hother => ?_⟩
  · rw [Heap.update, Array.size_modify]
    exact h.inside
  · rcases heap_table_update heap (·.set k v) Machine.globals Machine.globals with hsame | ⟨_, hnew⟩
    · rw [hsame]
      exact h.globals j
    · rw [hnew, Table.get_set]
      split
      · exact hv
      · exact h.globals j
  · rcases heap_table_update heap (·.set k v) Machine.globals other with hsame | ⟨heq, _⟩
    · rw [hsame]
      exact h.tables other hother
    · exact absurd heq hother

theorem push (h : V.AdmitsHeap heap) {t : Table} (ht : V.AdmitsTable t) :
    V.AdmitsHeap (heap.push t) := by
  have hinside := h.inside
  refine ⟨?_, fun k => ?_, fun id hid => ?_⟩
  · rw [Array.size_push]
    omega
  · rcases heap_table_push heap t Machine.globals with hsame | ⟨hindex, _⟩
    · rw [hsame]
      exact h.globals k
    · omega
  · rcases heap_table_push heap t id with hsame | ⟨_, hnew⟩
    · rw [hsame]
      exact h.tables id hid
    · rw [hnew]
      exact ht

/-- A table that is made now is not the one of globals. -/
theorem admits_new (h : V.AdmitsHeap heap) : V.Admits (.table ⟨heap.size⟩) := by
  intro heq
  have hinside := h.inside
  have hindex := congrArg TableId.index heq
  dsimp only at hindex
  omega

end AdmitsHeap

namespace AdmitsScope

variable {address : Addressing} {V : Vocabulary address} {scope : Scope}

theorem empty : V.AdmitsScope [] :=
  fun _ hd => (List.not_mem_nil hd).elim

theorem declareAll (h : V.AdmitsScope scope) (names : List String) {vs : List Value}
    (hvs : V.AdmitsAll vs) : V.AdmitsScope (Scope.declareAll names vs scope) := by
  have hcons : ∀ {scope : Scope} {n : String} {v : Value}, V.AdmitsScope scope → V.Admits v →
      V.AdmitsScope ((n, v) :: scope) := by
    intro scope n v hscope hv d hd
    rcases List.mem_cons.mp hd with rfl | hd
    · exact hv
    · exact hscope d hd
  induction names generalizing vs scope with
  | nil => exact h
  | cons n names ih =>
      cases vs with
      | nil => exact ih (hcons h admits_nil) hvs
      | cons v vs => exact ih (hcons h hvs.head) hvs.tail

theorem store (h : V.AdmitsScope scope) (position : Nat) {v : Value} (hv : V.Admits v) :
    V.AdmitsScope (Scope.store position v scope) := by
  intro d hd
  rcases List.mem_iff_getElem?.mp hd with ⟨i, hi⟩
  unfold Scope.store at hi
  rw [List.getElem?_modify] at hi
  cases hold : scope[i]? with
  | none =>
      rw [hold] at hi
      cases hi
  | some old =>
      rw [hold] at hi
      cases hi
      split
      · exact hv
      · exact h old (List.mem_of_getElem? hold)

end AdmitsScope

/-! ## Machines -/

namespace AdmitsMachine

variable {address : Addressing} {V : Vocabulary address} {m m' : Machine}

/-- Only tables, scopes and functions matter. -/
theorem unaffected (h : V.AdmitsMachine m) (htables : m'.tables = m.tables)
    (hscopes : m'.scopes = m.scopes) (hclosures : m'.closures = m.closures) :
    V.AdmitsMachine m' :=
  ⟨htables ▸ h.heap, fun scope hscope => h.scopes scope (hscopes ▸ hscope),
    fun c hc => h.closures c (hclosures ▸ hc)⟩

theorem note (h : V.AdmitsMachine m) (e : Event) : V.AdmitsMachine (m.note e) := by
  unfold Machine.note
  split
  · exact h
  · exact h.unaffected rfl rfl rfl

theorem withTables (h : V.AdmitsMachine m) {tables : Heap} (htables : V.AdmitsHeap tables) :
    V.AdmitsMachine { m with tables := tables } :=
  ⟨htables, h.scopes, h.closures⟩

theorem modifyScope (h : V.AdmitsMachine m) (i : Nat) {f : Scope → Scope}
    (hf : ∀ scope, V.AdmitsScope scope → V.AdmitsScope (f scope)) :
    V.AdmitsMachine { m with scopes := m.scopes.modify i f } := by
  refine ⟨h.heap, fun scope hscope => ?_, h.closures⟩
  rcases Array.mem_iff_getElem?.mp hscope with ⟨j, hj⟩
  rw [Array.getElem?_modify] at hj
  cases hold : m.scopes[j]? with
  | none =>
      rw [hold] at hj
      split at hj <;> cases hj
  | some old =>
      have hmem := h.scopes old (Array.mem_of_getElem? hold)
      rw [hold] at hj
      split at hj
      · cases hj
        exact hf old hmem
      · cases hj
        exact hmem

theorem slotValue (h : V.AdmitsMachine m) (slot : Slot) : V.Admits (m.slotValue slot) := by
  have hscope : V.AdmitsScope (scopeAt m.scopes slot.scope) := by
    unfold scopeAt
    rw [Array.getD_eq_getD_getElem?]
    cases hat : m.scopes[slot.scope.index]? with
    | none =>
        intro d hd
        cases hd
    | some scope => exact h.scopes scope (Array.mem_of_getElem? hat)
  unfold Machine.slotValue
  split
  · next d hd => exact hscope d (List.mem_of_getElem? hd)
  · exact admits_nil

end AdmitsMachine

/-! ## Computations -/

namespace Keeps

variable {s : Setting} {V : Vocabulary s.address} {P : α → Prop} {Q : β → Prop}

theorem imp {R : α → Prop} {x : Eval String α} (hx : V.Keeps P x) (himp : ∀ a, P a → R a) :
    V.Keeps R x := by
  intro m hm
  have hrun := hx m hm
  generalize x s m = r at hrun ⊢
  cases hrun with
  | ok hm' ha => exact .ok hm' (himp _ ha)
  | error hm' => exact .error hm'

theorem pure {a : α} (ha : P a) : V.Keeps P (pure a : Eval String α) :=
  fun _ hm => .ok hm ha

theorem bind {x : Eval String α} {f : α → Eval String β} (hx : V.Keeps P x)
    (hf : ∀ a, P a → V.Keeps Q (f a)) : V.Keeps Q (x >>= f) := by
  intro m hm
  have hfirst := hx m hm
  rw [run_bind]
  generalize x s m = r at hfirst
  cases hfirst with
  | ok hm' ha => exact hf _ ha _ hm'
  | error hm' => exact .error hm'

theorem fault (cause : Cause) : V.Keeps P (fault cause : Eval String α) :=
  fun _ hm => .error hm

theorem orFault {ε : Type} (cause : ε → Cause) {r : Except ε α} (hr : ∀ a, r = .ok a → P a) :
    V.Keeps P (orFault cause r : Eval String α) := by
  cases r with
  | ok a => exact pure (hr a rfl)
  | error e => exact fault _

/-- What is done before and after a computation may change counters and the record. -/
theorem around {before after : Machine → Machine} {x : Eval String α} (hx : V.Keeps P x)
    (hbefore : ∀ m, V.AdmitsMachine m → V.AdmitsMachine (before m))
    (hafter : ∀ m, V.AdmitsMachine m → V.AdmitsMachine (after m)) :
    V.Keeps P (around before after x) := by
  intro m hm
  have hbody := hx (before m) (hbefore m hm)
  unfold Script.around
  generalize x s (before m) = r at hbody
  cases hbody with
  | ok hm' ha => exact .ok (hafter _ hm') ha
  | error hm' => exact .error (hafter _ hm')

theorem watched {region : Region} {x : Eval String α} (hx : V.Keeps P x) :
    V.Keeps P (watched region x) :=
  hx.around (fun _ hm => hm.note _) fun _ hm => hm.note _

theorem nested {region : Region} {x : Eval String α} (hx : V.Keeps P x) :
    V.Keeps P (nested region x) := by
  intro m hm
  unfold Script.nested
  split
  · exact .error hm
  · refine watched (around hx (fun m hm => ?_) fun m hm => ?_) m hm
    · exact hm.unaffected rfl rfl rfl
    · exact hm.unaffected rfl rfl rfl

theorem framed {chunk : String} {line : Nat} {x : Eval String α} (hx : V.Keeps P x) :
    V.Keeps P (framed chunk line x) := by
  intro m hm
  unfold Script.framed
  split
  · exact .error hm
  · have hbody := hx { m with depth := m.depth + 1, chunk := chunk, line := line }
      (hm.unaffected rfl rfl rfl)
    dsimp only
    generalize x s { m with depth := m.depth + 1, chunk := chunk, line := line } = r at hbody
    cases hbody with
    | ok hm' ha => exact .ok (hm'.unaffected rfl rfl rfl) ha
    | error hm' => exact .error (hm'.unaffected rfl rfl rfl)

theorem tick : V.Keeps (fun _ => True) (tick : Eval String Unit) := by
  intro m hm
  unfold Script.tick
  dsimp only
  split
  · exact .error (hm.unaffected rfl rfl rfl)
  · exact .ok (hm.unaffected rfl rfl rfl) trivial

theorem mark (p : Progress) : V.Keeps (fun _ => True) (mark p : Eval String Unit) :=
  fun _ hm => .ok (hm.note _) trivial

theorem exposeAll (rs : List Resident) :
    V.Keeps (fun _ => True) (exposeAll rs : Eval String Unit) := by
  induction rs with
  | nil => exact pure trivial
  | cons r rs ih =>
      have hexpose : V.Keeps (fun _ => True) (expose r : Eval String Unit) :=
        fun _ hm => .ok (hm.note _) trivial
      exact hexpose.bind fun _ _ => ih

theorem takeStep : V.Keeps (fun _ => True) (takeStep : Eval String Unit) :=
  tick.bind fun _ _ => mark .statement

theorem atLine (line : Nat) : V.Keeps (fun _ => True) (atLine line : Eval String Unit) :=
  fun _ hm => .ok (hm.unaffected rfl rfl rfl) trivial

/-! ## Steps of the machine -/

theorem newTable {t : Table} (ht : V.AdmitsTable t) :
    V.Keeps V.Admits (newTable t : Eval String Value) :=
  fun _ hm => .ok (hm.withTables (hm.heap.push ht)) hm.heap.admits_new

theorem newClosure {definition : Function}
    (h : definition.every (literalChecks V.text) = true) (env : Env) :
    V.Keeps V.Admits (newClosure definition env : Eval String Value) := by
  intro m hm
  refine .ok ⟨hm.heap, hm.scopes, fun c hc => ?_⟩ trivial
  rcases Array.mem_push.mp hc with hc | rfl
  · exact hm.closures c hc
  · exact h

theorem closureAt (id : ClosureId) :
    V.Keeps (fun c => ∀ f, c = some f → f.definition.every (literalChecks V.text) = true)
      (closureAt id : Eval String (Option Closure)) :=
  fun _ hm => .ok hm fun f hf => hm.closures f (Array.mem_of_getElem? hf)

theorem newScope {scope : Scope} (h : V.AdmitsScope scope) :
    V.Keeps (fun _ => True) (newScope scope : Eval String ScopeId) := by
  intro m hm
  refine .ok ⟨hm.heap, fun other hother => ?_, hm.closures⟩ trivial
  rcases Array.mem_push.mp hother with hother | rfl
  · exact hm.scopes other hother
  · exact h

theorem onInnermost (env : Env) {f : Scope → Scope}
    (hf : ∀ scope, V.AdmitsScope scope → V.AdmitsScope (f scope)) :
    V.Keeps (fun _ => True) (onInnermost env f : Eval String Unit) := by
  intro m hm
  unfold Script.onInnermost
  cases env with
  | nil => exact .ok hm trivial
  | cons id env => exact .ok (hm.modifyScope id.index hf) trivial

theorem readGlobal (name : String) : V.Keeps V.Admits (readGlobal name : Eval String Value) :=
  fun _ hm => .ok hm (hm.heap.globals _)

theorem readVariable (env : Env) (x : String) :
    V.Keeps V.Admits (readVariable env x : Eval String Value) := by
  intro m hm
  refine .ok hm ?_
  unfold Machine.lookup
  split
  · exact hm.slotValue _
  · exact hm.heap.globals _

theorem writeVariable (env : Env) (x : String) {v : Value} (hv : V.Admits v) :
    V.Keeps (fun _ => True) (writeVariable env x v : Eval String Unit) := by
  intro m hm
  refine .ok ?_ trivial
  unfold Machine.assign
  split
  · exact hm.modifyScope _ fun scope hscope => hscope.store _ hv
  · exact hm.withTables (hm.heap.setGlobal _ hv)

/-- What is read from a table, whichever it is, is of the vocabulary. -/
theorem readTable (id : TableId) :
    V.Keeps (fun t => ∀ k, V.Admits (t.get k)) (readTable id : Eval String Table) :=
  fun _ hm => .ok hm fun k => hm.heap.get id k

theorem writeEntry {id : TableId} (hid : id ≠ Machine.globals) {k : Key} {v : Value}
    (hk : V.Admits k.toValue) (hv : V.Admits v) :
    V.Keeps (fun _ => True) (writeEntry id k v : Eval String Unit) :=
  fun _ hm => .ok (hm.withTables (hm.heap.update hid fun _ ht => ht.set hk hv)) trivial

theorem askTables {f : Heap → Except Cause α} (hf : ∀ heap a, f heap = .ok a → P a) :
    V.Keeps P (askTables f : Eval String α) :=
  fun m hm => orFault id (fun a ha => hf m.tables a ha) m hm

end Keeps

/-! ## Loops -/

/-- What a round says is as it should be, whether the loop goes on or ends. -/
inductive TurnMeets (I : σ → Prop) (Q : α → Prop) : Turn σ α → Prop
  | again {state : σ} (h : I state) : TurnMeets I Q (.again state)
  | done {a : α} (h : Q a) : TurnMeets I Q (.done a)

namespace Keeps

variable {s : Setting} {V : Vocabulary s.address} {I : σ → Prop} {Q : α → Prop}
  {round : σ → Eval String (Turn σ α)}

/-- By induction on the rounds that are left, with the invariant of the loop as the property of its
    state. -/
theorem loop (hround : ∀ state, I state → V.Keeps (TurnMeets I Q) (round state)) (n : Nat)
    {state : σ} (hstate : I state) : V.Keeps Q (loop round n state) := by
  induction n generalizing state with
  | zero => exact fault _
  | succ n ih =>
      unfold Script.loop
      refine (hround state hstate).bind fun turn hturn => ?_
      cases hturn with
      | again hnext => exact (mark .round).bind fun _ _ => ih hnext
      | done ha => exact pure ha

theorem rounds (hround : ∀ state, I state → V.Keeps (TurnMeets I Q) (round state)) {state : σ}
    (hstate : I state) : V.Keeps Q (rounds round state) :=
  fun m hm => loop hround (s.limits.maxSteps + 1) hstate m hm

end Keeps

end Vocabulary

end Script

end PixelEffects
