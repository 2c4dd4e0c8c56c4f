import PixelEffects.Proofs.Script.Key
import PixelEffects.Proofs.Script.Record
import PixelEffects.Proofs.Script.Vocabulary

/-!
# What Changes Tables

The steps of a machine that change tables, and what they change them to.

There are three of them. A table is made, an entry is stored, and a global variable is assigned to,
which is an entry as well. Of the library functions there is one, which stores at a position and
moves up what was there. All of the others leave the tables as they are, whatever they do with
scopes, functions and counters.

So if every table is built at the beginning of a computation, it is enough to look at the keys that
those steps are given, and at the tables that are made. A computation *builds* if it leaves built
tables behind. What evaluation is put together from does, and what it hands on are keys that are
legal, and tables that are built.

## Main definitions

* `Heap.Built`: Tables that are all built.
* `BuildsTo`, `Builds`: Computations that leave built tables behind.
* `Library.Builds`: The same for library functions.

## Theorems

* `Builds.quiet`: Computations that change no table.
* `BuildsTo.bind`, `BuildsTo.around`, `Builds.rounds`: What evaluation is put together with.
* `Builds.newTable`, `Builds.writeEntry`, `Builds.writeVariable`: The steps that change tables.
* `Library.call_builds`: Library functions.
-/

namespace PixelEffects

namespace Script

/-- Every table is built. -/
def Heap.Built (heap : Heap) : Prop :=
  ∀ id, (heap.table id).Built

namespace Heap.Built

variable {heap : Heap}

theorem empty : Heap.Built #[] :=
  fun _ => .empty

theorem push (h : heap.Built) {t : Table} (ht : t.Built) : Heap.Built (Array.push heap t) := by
  intro id
  rcases Vocabulary.heap_table_push heap t id with hsame | ⟨_, hnew⟩
  · rw [hsame]
    exact h id
  · rw [hnew]
    exact ht

theorem update (h : heap.Built) {f : Table → Table} (hf : ∀ t, t.Built → (f t).Built)
    (id : TableId) : (heap.update id f).Built := by
  intro other
  rcases Vocabulary.heap_table_update heap f id other with hsame | ⟨_, hnew⟩
  · rw [hsame]
    exact h other
  · rw [hnew]
    exact hf _ (h other)

theorem store (h : heap.Built) (id : TableId) {k : Key} (hk : k.IsLegal) (v : Value) :
    (heap.update id (·.set k v)).Built :=
  h.update (fun _ ht => ht.set hk v) id

end Heap.Built

variable {ν α β σ : Type}

/-- One computation after another: where the first one ends, the second one begins. -/
theorem EndsIn.bind {ε σ α β : Type} {I : σ → Prop} {P : α → Prop} {Q : β → Prop}
    {x : EStateM ε σ α} {f : α → EStateM ε σ β} {s : σ} (hx : EndsIn I P (x s))
    (hf : ∀ a s', P a → I s' → EndsIn I Q (f a s')) : EndsIn I Q ((x >>= f) s) := by
  simp only [Bind.bind, EStateM.bind]
  generalize x s = r at hx
  cases hx with
  | ok hs' ha => exact hf _ _ ha hs'
  | error hs' => exact .error hs'

/-- A computation that leaves built tables behind if it finds built tables, and that ends with a
    result that has a property. -/
def BuildsTo (Q : α → Prop) (x : Eval ν α) : Prop :=
  ∀ s m, m.tables.Built → EndsIn (fun m => m.tables.Built) Q (x s m)

/-- A computation that leaves built tables behind if it finds built tables. -/
abbrev Builds (x : Eval ν α) : Prop :=
  BuildsTo (fun _ => True) x

namespace BuildsTo

variable {P : α → Prop} {Q : β → Prop}

theorem pure {a : α} (ha : P a) : BuildsTo P (pure a : Eval ν α) :=
  fun _ _ hm => .ok hm ha

theorem fault (cause : Cause) : BuildsTo P (fault cause : Eval ν α) :=
  fun _ _ hm => .error hm

theorem orFault {ε : Type} {cause : ε → Cause} {r : Except ε α} (hr : ∀ a, r = .ok a → P a) :
    BuildsTo P (orFault cause r : Eval ν α) := by
  cases r with
  | ok a => exact pure (hr a rfl)
  | error e => exact fault _

theorem bind {x : Eval ν α} {f : α → Eval ν β} (hx : BuildsTo P x)
    (hf : ∀ a, P a → BuildsTo Q (f a)) : BuildsTo Q (x >>= f) := by
  intro s m hm
  show EndsIn _ Q ((x s >>= fun a => f a s) m)
  exact (hx s m hm).bind fun a m' ha hm' => hf a ha s m' hm'

theorem around {before after : Machine ν → Machine ν} {x : Eval ν α} (hx : BuildsTo P x)
    (hbefore : ∀ m, (before m).tables = m.tables) (hafter : ∀ m, (after m).tables = m.tables) :
    BuildsTo P (around before after x) := by
  intro s m hm
  have hbody := hx s (before m) ((hbefore m).symm ▸ hm)
  unfold Script.around
  generalize x s (before m) = r at hbody
  cases hbody with
  | ok hm' ha => exact .ok ((hafter _).symm ▸ hm') ha
  | error hm' => exact .error ((hafter _).symm ▸ hm')

end BuildsTo

/-! ## What evaluation is put together with -/

namespace Builds

theorem pure (a : α) : Builds (pure a : Eval ν α) :=
  BuildsTo.pure trivial

theorem fault (cause : Cause) : Builds (fault cause : Eval ν α) :=
  BuildsTo.fault cause

theorem orFault {ε : Type} (cause : ε → Cause) (r : Except ε α) :
    Builds (orFault cause r : Eval ν α) :=
  BuildsTo.orFault fun _ _ => trivial

theorem bind {Q : β → Prop} {x : Eval ν α} {f : α → Eval ν β} (hx : Builds x)
    (hf : ∀ a, BuildsTo Q (f a)) : BuildsTo Q (x >>= f) :=
  BuildsTo.bind hx fun a _ => hf a

/-- A computation that changes no table. -/
theorem quiet {x : Eval ν α} (h : ∀ s m, (machineAfter (x s m)).tables = m.tables) :
    Builds x := by
  intro s m hm
  have hsame := h s m
  generalize x s m = r at hsame ⊢
  cases r with
  | ok a m' => exact .ok (hsame ▸ hm) trivial
  | error f m' => exact .error (hsame ▸ hm)

theorem tables_note (m : Machine ν) (e : Event) : (m.note e).tables = m.tables := by
  unfold Machine.note
  split <;> rfl

theorem watched {region : Region} {x : Eval ν α} (hx : Builds x) : Builds (watched region x) :=
  hx.around (fun m => tables_note m _) fun m => tables_note m _

theorem nested {region : Region} {x : Eval ν α} (hx : Builds x) : Builds (nested region x) := by
  intro s m hm
  unfold Script.nested
  split
  · exact .error hm
  · have hdeeper : Builds (deeper x) := BuildsTo.around hx (fun _ => rfl) fun _ => rfl
    exact hdeeper.watched s m hm

theorem framed {chunk : String} {line : Nat} {x : Eval ν α} (hx : Builds x) :
    Builds (framed chunk line x) := by
  intro s m hm
  unfold Script.framed
  split
  · exact .error hm
  · have hbody := hx s { m with depth := m.depth + 1, chunk := chunk, line := line } hm
    dsimp only
    generalize x s { m with depth := m.depth + 1, chunk := chunk, line := line } = r at hbody
    cases hbody with
    | ok hm' ha => exact .ok hm' ha
    | error hm' => exact .error hm'

theorem tick : Builds (tick : Eval ν Unit) := by
  refine quiet fun s m => ?_
  unfold Script.tick
  dsimp only
  split <;> rfl

theorem mark (p : Progress) : Builds (mark p : Eval ν Unit) :=
  quiet fun _ m => tables_note m _

theorem exposeAll (rs : List Resident) : Builds (exposeAll rs : Eval ν Unit) := by
  induction rs with
  | nil => exact pure ()
  | cons r rs ih =>
      have hexpose : Builds (expose r : Eval ν Unit) := quiet fun _ m => tables_note m _
      exact hexpose.bind fun _ => ih

theorem takeStep : Builds (takeStep : Eval ν Unit) :=
  tick.bind fun _ => mark .statement

theorem atLine (line : Nat) : Builds (atLine line : Eval ν Unit) :=
  quiet fun _ _ => rfl

theorem newClosure (definition : Function ν) (env : Env) :
    Builds (newClosure definition env : Eval ν Value) :=
  quiet fun _ _ => rfl

theorem closureAt (id : ClosureId) : Builds (closureAt id : Eval ν (Option (Closure ν))) :=
  quiet fun _ _ => rfl

theorem newScope (scope : Scope) : Builds (newScope scope : Eval ν ScopeId) :=
  quiet fun _ _ => rfl

theorem onInnermost (env : Env) (f : Scope → Scope) :
    Builds (onInnermost env f : Eval ν Unit) := by
  refine quiet fun _ _ => ?_
  cases env <;> rfl

theorem readGlobal (name : String) : Builds (readGlobal name : Eval ν Value) :=
  quiet fun _ _ => rfl

theorem readVariable [Reference ν] (env : Env) (x : ν) :
    Builds (readVariable env x : Eval ν Value) :=
  quiet fun _ _ => rfl

theorem readTable (id : TableId) : Builds (readTable id : Eval ν Table) :=
  quiet fun _ _ => rfl

theorem askTables (f : Heap → Except Cause α) : Builds (askTables f : Eval ν α) :=
  fun s m hm => orFault id (f m.tables) s m hm

/-! ## The steps that change tables -/

theorem newTable {t : Table} (ht : t.Built) : Builds (newTable t : Eval ν Value) :=
  fun _ _ hm => .ok (hm.push ht) trivial

theorem writeEntry (id : TableId) {k : Key} (hk : k.IsLegal) (v : Value) :
    Builds (writeEntry id k v : Eval ν Unit) :=
  fun _ _ hm => .ok (hm.store id hk v) trivial

/-- A global is stored under its name, which is a text and so a legal key. -/
theorem writeVariable [Reference ν] (env : Env) (x : ν) (v : Value) :
    Builds (writeVariable env x v : Eval ν Unit) := by
  intro s m hm
  refine .ok ?_ trivial
  unfold Machine.assign
  split
  · exact hm
  · exact hm.store Machine.globals (Key.isLegal_text _) v

/-! ## Loops -/

/-- By induction on the rounds that are left. -/
theorem loop {round : σ → Eval ν (Turn σ α)} (hround : ∀ state, Builds (round state)) (n : Nat)
    (state : σ) : Builds (loop round n state) := by
  induction n generalizing state with
  | zero => exact fault _
  | succ n ih =>
      unfold Script.loop
      refine (hround state).bind fun turn => ?_
      cases turn with
      | again next => exact (mark .round).bind fun _ => ih next
      | done a => exact pure a

theorem rounds {round : σ → Eval ν (Turn σ α)} (hround : ∀ state, Builds (round state))
    (state : σ) : Builds (rounds round state) :=
  fun s m hm => loop hround (s.limits.maxSteps + 1) state s m hm

end Builds

/-! ## Library functions -/

namespace Library

/-- A computation on tables that leaves built tables behind if it finds built tables. -/
def Builds (c : Call α) : Prop :=
  ∀ heap, heap.Built → EndsIn Heap.Built (fun _ => True) (c heap)

namespace Builds

theorem pure (a : α) : Builds (pure a : Call α) :=
  fun _ hheap => .ok hheap trivial

theorem refuse (cause : LibraryCause) : Builds (refuse cause : Call α) :=
  fun _ hheap => .error hheap

theorem take (r : Except LibraryCause α) : Builds (take r) := by
  cases r with
  | ok a => exact pure a
  | error cause => exact refuse cause

theorem tableAt (id : TableId) : Builds (tableAt id) :=
  fun _ hheap => .ok hheap trivial

theorem change (id : TableId) {f : Table → Table} (hf : ∀ t, t.Built → (f t).Built) :
    Builds (change id f) :=
  fun _ hheap => .ok (hheap.update hf id) trivial

theorem bind {c : Call α} {f : α → Call β} (hc : Builds c) (hf : ∀ a, Builds (f a)) :
    Builds (c >>= f) :=
  fun heap hheap => (hc heap hheap).bind fun a heap' _ hheap' => hf a heap' hheap'

/-- An argument is taken, and the result is made of it. -/
theorem take_pure (r : Except LibraryCause α) (f : α → β) :
    Builds (Library.take r >>= fun a => Pure.pure (f a) : Call β) :=
  (take r).bind fun a => pure (f a)

end Builds

variable (args : List Value)

theorem assert_builds (address : Addressing) : Builds (assert address args) := by
  unfold assert
  split
  · exact .pure _
  · split <;> exact .refuse _

theorem select_builds : Builds (select args) := by
  unfold select
  split
  · exact .pure _
  · refine (Builds.take _).bind fun x => ?_
    dsimp only
    split
    · exact .take _
    · exact .pure _

theorem next_builds : Builds (next args) := by
  refine (Builds.take _).bind fun id => (Builds.take _).bind fun after => ?_
  refine (Builds.tableAt id).bind fun t => ?_
  split
  · split <;> exact .pure _
  · exact .refuse _

theorem ipairsStep_builds : Builds (ipairsStep args) := by
  refine (Builds.take _).bind fun id => (Builds.take _).bind fun i => ?_
  refine (Builds.tableAt id).bind fun t => ?_
  dsimp only
  split <;> exact .pure _

theorem logarithm_builds : Builds (logarithm args) := by
  refine (Builds.take _).bind fun x => ?_
  split
  · exact (Builds.take _).bind fun base => .pure _
  · exact .pure _

theorem sub_builds : Builds (sub args) := by
  refine (Builds.take _).bind fun s => ?_
  dsimp only
  split
  · exact (Builds.take _).bind fun j => .pure _
  · exact .pure _

/-- The one function that changes a table: it stores at positions, and these are legal. -/
theorem insert_builds : Builds (insert args) := by
  refine (Builds.take _).bind fun id => (Builds.tableAt id).bind fun t => ?_
  dsimp only
  split
  · next v =>
      refine (Builds.change id fun t ht => ?_).bind fun _ => .pure _
      exact ht.set (Key.isLegal_ofPosition _) v
  · next v =>
      refine (Builds.take _).bind fun x => ?_
      split
      · exact .take _
      · refine (Builds.change id fun t ht => ?_).bind fun _ => .pure _
        exact ht.insertAt _ _ v
  · exact .refuse _

theorem concat_builds : Builds (concat args) := by
  refine (Builds.take _).bind fun id => ?_
  have hjoined : ∀ separator, Builds (do
      let t ← tableAt id
      let joined ← take (joinFrom separator 1 "" (t.values t.length))
      pure [Value.text joined]) :=
    fun separator => (Builds.tableAt id).bind fun t => .take_pure _ _
  dsimp only
  split
  · exact (Builds.take _).bind hjoined
  · exact hjoined ""

theorem call_builds (address : Addressing) (b : Builtin) : Builds (call address b args) := by
  cases b with
  | assert => exact assert_builds args address
  | error => exact .refuse _
  | type | toText | toNumber => exact .pure _
  | select => exact select_builds args
  | next => exact next_builds args
  | ipairsStep => exact ipairsStep_builds args
  | log => exact logarithm_builds args
  | fmod => exact (Builds.take _).bind fun x => .take_pure _ _
  | max | min => exact (Builds.take _).bind fun first => .take_pure _ _
  | rep =>
      exact (Builds.take _).bind fun s => (Builds.take _).bind fun n => .take_pure _ _
  | sub => exact sub_builds args
  | insert => exact insert_builds args
  | concat => exact concat_builds args
  | unpack => exact (Builds.take _).bind fun id => (Builds.tableAt id).bind fun t => .pure _
  | pairs | ipairs | abs | ceil | cos | exp | floor | sin | sqrt | tan | len | lower | upper
  | format => exact .take_pure _ _

/-- The tables of functions are put together by storing under names. -/
theorem functionTable_built (functions : List (String × Builtin)) :
    (functionTable functions).Built := by
  have hfold : ∀ (fs : List (String × Builtin)) {t : Table}, t.Built →
      (fs.foldl (fun t f => t.set (.text f.1) (.builtin f.2)) t).Built := by
    intro fs
    induction fs with
    | nil => exact fun ht => ht
    | cons f fs ih => exact fun ht => ih (ht.set (Key.isLegal_text _) _)
  exact hfold functions .empty

theorem initialTables_built : Heap.Built initialTables := by
  have hmath : mathTable.Built :=
    ((functionTable_built _).set (Key.isLegal_text _) _).set (Key.isLegal_text _) _
  have hglobals : globalTable.Built :=
    (((functionTable_built _).set (Key.isLegal_text _) _).set (Key.isLegal_text _) _).set
      (Key.isLegal_text _) _
  exact (((Heap.Built.empty.push hglobals).push hmath).push (functionTable_built _)).push
    (functionTable_built _)

end Library

end Script

end PixelEffects
