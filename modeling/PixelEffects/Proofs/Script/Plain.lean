import Mathlib.Tactic.Choose
import PixelEffects.Script.Evaluator

/-!
# Plain Steps

The steps of evaluation that see nothing but tables and scopes, and change nothing but what tables
and declarations hold.

Most of what evaluation does is of this kind: reading and writing variables and entries, operators.
What is not of this kind can be counted on two hands. It is what counts (`tick`, `nested`, `framed`),
what moves the position (`atLine`), what notes (`watched`, `mark`, `expose`), what makes or finds
functions (`newClosure`, `closureAt`), what opens scopes and declares in them (`newScope`,
`onInnermost`), and the loops, whose number of rounds is limited. A statement about limits, counters,
the record, functions or declarations therefore has to be proved for these only.

Library functions are plain once it is known what places are shown as (`libraryStep`). Nothing else
that is plain asks for that.

A plain step can fail, but never because a limit is reached: the causes that stand for the bounds of
the machine (`Cause.isBound`) are raised elsewhere.

What a step does is the same for any way to refer to variables. So `Plain` relates two computations
that are one step, on machines that need not refer to variables in the same way.

## Main definitions

* `Cause.isBound`: The causes that say that a bound of the machine is reached.
* `Scope.names`: What a scope has declared.
* `StoreStep`: What a step does with the stores, given nothing else.
* `Plain`: Two computations that are one such step.
* `libraryStep`: What a library function does with the stores, under an assignment of places.

## Theorems

* `Plain.pure`, `Plain.bind`: Plain steps compose.
* `plain_readVariable`, `plain_index`, `plain_storeAll` and others: One for each plain step of
  evaluation.
-/

namespace PixelEffects

namespace Script

/-- Whether a cause says that a bound of the machine is reached. -/
def Cause.isBound : Cause → Bool
  | .stepBudget _ | .callDepth _ | .nesting _ | .outOfFuel => true
  | _ => false

/-- The names that a scope has declared, the latest first. -/
def Scope.names (scope : Scope) : List String :=
  scope.map (·.1)

/-- The names that all scopes have declared. -/
def declaredNames (scopes : Array Scope) : Array (List String) :=
  scopes.map Scope.names

theorem names_store (position : Nat) (v : Value) (scope : Scope) :
    (Scope.store position v scope).names = scope.names := by
  unfold Scope.names Scope.store
  refine List.ext_getElem? fun i => ?_
  rw [List.getElem?_map, List.getElem?_map, List.getElem?_modify]
  -- Whatever is at the position, its name stays.
  cases scope[i]? with
  | none => rfl
  | some d =>
      by_cases h : position = i
      · simp only [h, if_true, Option.map_eq_map, Option.map_some]
      · simp only [h, if_false, Option.map_eq_map, Option.map_some]

/-- Storing a value declares nothing. -/
theorem declaredNames_store (scopes : Array Scope) (slot : Slot) (v : Value) :
    declaredNames (scopes.modify slot.scope.index (Scope.store slot.position v)) =
      declaredNames scopes := by
  unfold declaredNames
  refine Array.ext_getElem? fun i => ?_
  rw [Array.getElem?_map, Array.getElem?_map, Array.getElem?_modify]
  by_cases h : slot.scope.index = i
  · rw [if_pos h]
    cases scopes[i]? with
    | none => rfl
    | some scope => exact congrArg some (names_store _ _ scope)
  · rw [if_neg h]

variable {ν μ α β : Type}

/-- One computation after another, on a machine. -/
theorem run_bind (x : Eval ν α) (f : α → Eval ν β) (s : Setting) (m : Machine ν) :
    (x >>= f) s m = match x s m with
      | .ok a m => f a s m
      | .error e m => .error e m := by
  simp only [bind, ReaderT.bind, EStateM.bind]
  cases x s m <;> rfl

/-- Finding a function changes nothing. -/
theorem run_closureAt_bind (id : ClosureId) (f : Option (Closure ν) → Eval ν α) (s : Setting)
    (m : Machine ν) : (closureAt id >>= f) s m = f m.closures[id.index]? s m := by
  rw [run_bind]
  rfl

/-- What a step does with the stores: its result or the cause of its fault, the tables and the
    scopes. -/
abbrev StoreStep (α : Type) :=
  Heap → Array Scope → Except Cause α × Heap × Array Scope

/-- The step on a machine, with faults at the position of the machine. -/
def StoreStep.toEval (g : StoreStep α) : Eval ν α := fun _ m =>
  match g m.tables m.scopes with
  | (.ok a, tables, scopes) => .ok a { m with tables := tables, scopes := scopes }
  | (.error c, tables, scopes) =>
    .error ⟨m.chunk, m.line, c⟩ { m with tables := tables, scopes := scopes }

/-- A step never fails because a bound is reached, and it declares nothing. -/
structure StoreStep.Proper (g : StoreStep α) : Prop where
  boundless : ∀ tables scopes c, (g tables scopes).1 = .error c → c.isBound = false
  names : ∀ tables scopes, declaredNames (g tables scopes).2.2 = declaredNames scopes

/-- Two computations that are one step on the stores. -/
def Plain (x : Eval ν α) (y : Eval μ α) : Prop :=
  ∃ g : StoreStep α, g.Proper ∧ x = g.toEval ∧ y = g.toEval

namespace Plain

theorem pure (a : α) : Plain (pure a : Eval ν α) (Pure.pure a : Eval μ α) := by
  refine ⟨fun t sc => (.ok a, t, sc), ⟨?_, fun _ _ => rfl⟩, rfl, rfl⟩
  intro _ _ c h
  cases h

/-- One plain step after another is a plain step: the second one sees the stores as the first one
    left them. -/
theorem bind {x : Eval ν α} {y : Eval μ α} {f : α → Eval ν β} {f' : α → Eval μ β}
    (hx : Plain x y) (hf : ∀ a, Plain (f a) (f' a)) : Plain (x >>= f) (y >>= f') := by
  rcases hx with ⟨g, hg, rfl, rfl⟩
  choose k hk hfk hfk' using hf
  -- The two steps as one: the second one runs where the first one has a result.
  let both : StoreStep β := fun t sc => match g t sc with
    | (.ok a, t, sc) => k a t sc
    | (.error c, t, sc) => (.error c, t, sc)
  -- What it comes to does not depend on how variables are referred to.
  have hboth : ∀ {κ : Type} {h : α → Eval κ β}, (∀ a, h a = (k a).toEval) →
      (g.toEval >>= h) = (both.toEval : Eval κ β) := by
    intro κ h hh
    funext s m
    rw [run_bind]
    simp only [StoreStep.toEval, both]
    rcases g m.tables m.scopes with ⟨_ | a, t', sc'⟩
    · rfl
    · simp only [hh a]
      rfl
  refine ⟨both, ⟨?_, ?_⟩, hboth hfk, hboth hfk'⟩
  · intro t sc c h
    -- The fault is the first step's own, or the first has a result and it is the second's.
    have hc := hg.boundless t sc
    simp only [both] at h
    rcases hr : g t sc with ⟨_ | a, t', sc'⟩
    · simp only [hr] at hc h
      cases h
      exact hc _ rfl
    · simp only [hr] at h
      exact (hk a).boundless t' sc' c h
  · intro t sc
    -- Neither of the two declares anything.
    have hn := hg.names t sc
    simp only [both]
    rcases hr : g t sc with ⟨_ | a, t', sc'⟩
    · rw [hr] at hn
      exact hn
    · rw [hr] at hn
      exact ((hk a).names t' sc').trans hn

theorem fault {c : Cause} (hc : c.isBound = false) :
    Plain (fault c : Eval ν α) (Script.fault c : Eval μ α) := by
  refine ⟨fun t sc => (.error c, t, sc), ⟨?_, fun _ _ => rfl⟩, rfl, rfl⟩
  intro _ _ c' h
  cases h
  exact hc

theorem orFault {ε : Type} {cause : ε → Cause} (hc : ∀ e, (cause e).isBound = false)
    (r : Except ε α) : Plain (orFault cause r : Eval ν α) (Script.orFault cause r : Eval μ α) := by
  cases r with
  | ok a => exact pure a
  | error e => exact fault (hc e)

/-- A step that looks at the stores and changes tables. -/
theorem tables (f : Heap → Array Scope → α × Heap) :
    Plain (fun _ m => .ok (f m.tables m.scopes).1 { m with tables := (f m.tables m.scopes).2 } :
      Eval ν α)
      (fun _ m => .ok (f m.tables m.scopes).1 { m with tables := (f m.tables m.scopes).2 } :
        Eval μ α) := by
  refine ⟨fun t sc => (.ok (f t sc).1, (f t sc).2, sc), ⟨?_, fun _ _ => rfl⟩, rfl, rfl⟩
  intro _ _ c h
  cases h

end Plain

/-! ## Steps on the machine -/

theorem plain_newTable (t : Table) :
    Plain (newTable t : Eval ν Value) (newTable t : Eval μ Value) :=
  Plain.tables fun ts _ => (Value.table ⟨ts.size⟩, ts.push t)

theorem plain_readGlobal (name : String) :
    Plain (readGlobal name : Eval ν Value) (readGlobal name : Eval μ Value) :=
  Plain.tables fun ts _ => ((ts.table Machine.globals).get (.text name), ts)

theorem plain_readTable (id : TableId) :
    Plain (readTable id : Eval ν Table) (readTable id : Eval μ Table) :=
  Plain.tables fun ts _ => (ts.table id, ts)

theorem plain_writeEntry (id : TableId) (k : Key) (v : Value) :
    Plain (writeEntry id k v : Eval ν Unit) (writeEntry id k v : Eval μ Unit) :=
  Plain.tables fun ts _ => ((), ts.update id (·.set k v))

theorem plain_askTables {f : Heap → Except Cause α}
    (hf : ∀ t c, f t = .error c → c.isBound = false) :
    Plain (askTables f : Eval ν α) (askTables f : Eval μ α) := by
  have hrun : ∀ {κ : Type},
      (askTables f : Eval κ α) = StoreStep.toEval fun t sc => (f t, t, sc) := by
    intro κ
    funext s m
    simp only [askTables, StoreStep.toEval]
    cases f m.tables with
    | ok a => rfl
    | error c => rfl
  exact ⟨_, ⟨fun t _ c h => hf t c h, fun _ _ => rfl⟩, hrun, hrun⟩

section Variables

variable [Reference ν]

/-- The value of a variable, said of the tables and the scopes alone. -/
def variableIn (tables : Heap) (scopes : Array Scope) (env : Env) (x : ν) : Value :=
  match Reference.slot? scopes env x with
  | some slot =>
    match (scopeAt scopes slot.scope)[slot.position]? with
    | some d => d.2
    | none => .nil
  | none => (tables.table Machine.globals).get (.text (Reference.word x))

theorem plain_readVariable (env : Env) (x : ν) :
    Plain (readVariable env x : Eval ν Value) (readVariable env x) :=
  Plain.tables fun ts sc => (variableIn ts sc env x, ts)

/-- An assignment to a variable as a step on the stores. -/
def assignStep (env : Env) (x : ν) (v : Value) : StoreStep Unit := fun ts sc =>
  match Reference.slot? sc env x with
  | some slot => (.ok (), ts, sc.modify slot.scope.index (Scope.store slot.position v))
  | none => (.ok (), ts.update Machine.globals (·.set (.text (Reference.word x)) v), sc)

theorem plain_writeVariable (env : Env) (x : ν) (v : Value) :
    Plain (writeVariable env x v : Eval ν Unit) (writeVariable env x v) := by
  have hrun : (writeVariable env x v : Eval ν Unit) = (assignStep env x v).toEval := by
    funext s m
    simp only [writeVariable, Machine.assign, StoreStep.toEval, assignStep]
    cases Reference.slot? m.scopes env x with
    | some slot => rfl
    | none => rfl
  refine ⟨assignStep env x v, ⟨?_, ?_⟩, hrun, hrun⟩
  · intro _ sc c h
    unfold assignStep at h
    split at h <;> cases h
  · -- A declaration keeps its name when it gets another value.
    intro _ sc
    unfold assignStep
    split
    · exact declaredNames_store sc _ v
    · rfl

end Variables

/-! ## Operators -/

theorem operand?_boundless {v : Value} {c : Cause} (h : operand? v = .error c) :
    c.isBound = false := by
  cases v with
  | number x => cases h
  | text s =>
      simp only [operand?] at h
      split at h <;> cases h
      rfl
  | _ => cases h; rfl

theorem calculated?_boundless {op : BinaryOp} {l r : Value} {c : Cause}
    (h : calculated? op l r = .error c) : c.isBound = false := by
  simp only [calculated?, bind, Except.bind] at h
  cases hl : operand? l with
  | error e =>
      rw [hl] at h
      cases h
      exact operand?_boundless hl
  | ok a =>
      cases hr : operand? r with
      | error e =>
          rw [hl, hr] at h
          cases h
          exact operand?_boundless hr
      | ok b =>
          rw [hl, hr] at h
          cases h

theorem joined?_boundless {l r : Value} {c : Cause} (h : joined? l r = .error c) :
    c.isBound = false := by
  simp only [joined?] at h
  split at h
  · cases h; rfl
  · cases h; rfl
  · split at h <;> cases h
    rfl

theorem ordered?_boundless {l r : Value} {holds : Ordering → Bool} {c : Cause}
    (h : ordered? l r holds = .error c) : c.isBound = false := by
  simp only [ordered?, bind, Except.bind] at h
  cases hc : compared? l r with
  | ok o =>
      rw [hc] at h
      cases h
  | error e =>
      rw [hc] at h
      cases h
      simp only [compared?] at hc
      split at hc <;> cases hc
      rfl

theorem binary?_boundless {op : BinaryOp} {l r : Value} {c : Cause}
    (h : binary? op l r = .error c) : c.isBound = false := by
  cases op with
  | eq => cases h
  | ne => cases h
  | concat => exact joined?_boundless h
  | lt => exact ordered?_boundless h
  | le => exact ordered?_boundless h
  | gt => exact ordered?_boundless h
  | ge => exact ordered?_boundless h
  | _ => exact calculated?_boundless h

theorem unary?_boundless {t : Heap} {op : UnaryOp} {v : Value} {c : Cause}
    (h : unary? t op v = .error c) : c.isBound = false := by
  cases op with
  | not => cases h
  | neg => cases v <;> cases h <;> rfl
  | len => cases v <;> cases h <;> rfl

/-! ## Entries, assignments and calls -/

theorem plain_keyOf (v : Value) : Plain (keyOf v : Eval ν Key) (keyOf v : Eval μ Key) :=
  Plain.orFault (fun _ => rfl) _

theorem plain_binary (op : BinaryOp) (l r : Value) :
    Plain (orFault id (binary? op l r) : Eval ν Value)
      (orFault id (binary? op l r) : Eval μ Value) := by
  cases h : binary? op l r with
  | ok v => exact Plain.pure v
  | error c => exact Plain.fault (binary?_boundless h)

theorem plain_index (object key : Value) :
    Plain (index object key : Eval ν Value) (index object key : Eval μ Value) := by
  -- An entry of a table is read at a key, and making the key may be a fault.
  have hentry : ∀ id,
      Plain (do let k ← keyOf key; pure ((← readTable id).get k) : Eval ν Value)
        (do let k ← keyOf key; pure ((← readTable id).get k) : Eval μ Value) :=
    fun id => (plain_keyOf key).bind fun _ => (plain_readTable id).bind fun _ => Plain.pure _
  cases object with
  | table id =>
      simp only [index]
      split
      · exact Plain.pure _
      · exact hentry id
  | text s =>
      -- What a text has, it has from the library table of texts.
      refine (plain_readGlobal "string").bind fun lib => ?_
      cases lib with
      | table id => exact hentry id
      | _ => exact Plain.pure _
  | _ => exact Plain.fault rfl

theorem plain_loopNumber (part : LoopPart) (v : Value) :
    Plain (loopNumber part v : Eval ν Float) (loopNumber part v : Eval μ Float) := by
  cases v with
  | number x => exact Plain.pure x
  | _ => exact Plain.fault rfl

/-- Following a path of names through tables, one name after the other. -/
theorem plain_follow (v : Value) (path : List String) :
    Plain (follow v path : Eval ν Value) (follow v path : Eval μ Value) := by
  induction path generalizing v with
  | nil => exact Plain.pure v
  | cons segment path ih => exact (plain_index v _).bind fun w => ih w

/-- A library function as a step on the stores, with places shown as an assignment has them. -/
def libraryStep (address : Addressing) (b : Builtin) (args : List Value) :
    StoreStep (List Value) := fun ts sc =>
  match Library.call address b args ts with
  | .ok vs ts => (.ok vs, ts, sc)
  | .error c ts => (.error (.library c), ts, sc)

/-- A library function works on the tables, and its causes are causes of the library. -/
theorem plain_libraryStep (address : Addressing) (b : Builtin) (args : List Value) :
    Plain ((libraryStep address b args).toEval : Eval ν (List Value))
      ((libraryStep address b args).toEval : Eval μ (List Value)) := by
  refine ⟨libraryStep address b args, ⟨?_, ?_⟩, rfl, rfl⟩
  · intro t sc c h
    unfold libraryStep at h
    split at h <;> cases h
    rfl
  · intro t sc
    unfold libraryStep
    split <;> rfl

/-- Calling a library function is its step under the assignment of the run. -/
theorem run_callBuiltin (b : Builtin) (args : List Value) (s : Setting) (m : Machine ν) :
    callBuiltin b args s m = (libraryStep s.address b args).toEval s m := by
  simp only [callBuiltin, StoreStep.toEval, libraryStep]
  cases Library.call s.address b args m.tables with
  | ok vs t => rfl
  | error c t => rfl

/-- A library function that shows no places, as a function on the tables. -/
theorem run_callLibrary {b : Builtin} {args : List Value} (h : Library.shown b args = [])
    (s : Setting) (m : Machine ν) :
    callLibrary b args s m = match Library.call s.address b args m.tables with
      | .ok vs heap => .ok vs { m with tables := heap }
      | .error cause heap => fault (.library cause) s { m with tables := heap } := by
  unfold callLibrary
  rw [h]
  rfl

/-- What holds of doing nothing and of noting one place, and is kept when something is done after
    something else, holds of noting any. -/
theorem exposeAll_of {R : Eval ν Unit → Eval μ Unit → Prop}
    (hpure : R (pure ()) (pure ()))
    (hbind : ∀ {x : Eval ν Unit} {y : Eval μ Unit} {f : Unit → Eval ν Unit}
      {g : Unit → Eval μ Unit}, R x y → (∀ a, R (f a) (g a)) → R (x >>= f) (y >>= g))
    (hexpose : ∀ r, R (expose r) (expose r)) (rs : List Resident) :
    R (exposeAll rs) (exposeAll rs) := by
  induction rs with
  | nil => exact hpure
  | cons r rs ih => exact hbind (hexpose r) fun _ => ih

theorem plain_entryPlace (object key : Value) :
    Plain (entryPlace object key : Eval ν (Place ν)) (entryPlace object key) := by
  cases object with
  | table id => exact (plain_keyOf key).bind fun _ => Plain.pure _
  | _ => exact Plain.fault rfl

section Variables

variable [Reference ν]

theorem plain_indexOf (e : Expr ν) (object key : Value) :
    Plain (indexOf e object key : Eval ν Value) (indexOf e object key) := by
  simp only [indexOf]
  split
  · exact Plain.fault rfl
  · exact plain_index object key

theorem plain_store (env : Env) (p : Place ν) (v : Value) :
    Plain (store env p v) (store env p v) := by
  cases p with
  | var x => exact plain_writeVariable env x v
  | entry id k => exact plain_writeEntry id k v

theorem plain_storeAll (env : Env) (ps : List (Place ν)) (vs : List Value) :
    Plain (storeAll env ps vs) (storeAll env ps vs) := by
  induction ps generalizing vs with
  | nil => exact Plain.pure ()
  | cons p ps ih =>
      cases vs with
      | nil => exact Plain.pure ()
      | cons v vs => exact (plain_store env p v).bind fun _ => ih vs

theorem plain_defineAt (env : Env) (root : ν) (path : List String) (f : Value) :
    Plain (defineAt env root path f) (defineAt env root path f) := by
  match path with
  | [] => exact Plain.fault rfl
  | [_] => exact plain_writeVariable env root f
  | n :: segment :: rest =>
      -- The path but for its last name leads to a table, which gets the function as an entry.
      refine (plain_readVariable env root).bind fun v => (plain_follow v _).bind fun w => ?_
      cases w with
      | table id => exact plain_writeEntry id _ f
      | _ => exact Plain.fault rfl

end Variables

end Script

end PixelEffects
