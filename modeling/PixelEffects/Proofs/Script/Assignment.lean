import PixelEffects.Proofs.Script.Declared
import PixelEffects.Script.Engine

/-!
# Assignment

An assignment determines all that it needs, and then stores.

An assignment to several targets first evaluates what its targets are made of, and then its values. Only
then it stores, one value after the other, into what the targets stand for. So nothing is stored when
there is a fault, and the values of a swap are the ones from before. Stores themselves cannot fail.

A variable is looked for when it is stored into. It is found where it was before the statement, as
nothing that is evaluated in between can declare names in the scopes that there are, and no store
declares anything.

What can happen before the stores is what expressions do: they make tables and functions, and they call
functions. Without calls, all that there was is as it was.

## Main definitions

* `target`, `valuesOf`: What one target stands for, and what a list of expressions has for values.
* `determine`: All that an assignment does before it stores.
* `Destination`, `Machine.put`, `Machine.putAll`: What is stored into, and storing.
* `Machine.Extends`: A machine that has more tables and functions, and is otherwise where it was.
* `ByCalls`: A machine that is reached by that and by calls.

## Theorems

* `exec_assign`: An assignment is to determine and then to store.
* `run_storeAll`: Storing cannot fail, and what is stored into is known before.
* `assign_simultaneous`: What an assignment does.
-/

namespace PixelEffects

namespace Script

variable {ν α β : Type}

theorem fault_bind (cause : Cause) (f : α → Eval ν β) :
    (fault cause >>= f) = fault cause := by
  funext s m
  rw [run_bind]
  rfl

/-- One computation after another has a result where both have. -/
theorem run_bind_eq_ok_iff {x : Eval ν α} {f : α → Eval ν β} {s : Setting} {m m' : Machine ν}
    {b : β} : (x >>= f) s m = .ok b m' ↔ ∃ a m₁, x s m = .ok a m₁ ∧ f a s m₁ = .ok b m' := by
  rw [run_bind]
  cases x s m with
  | ok a m₁ =>
      refine ⟨fun h => ⟨a, m₁, rfl, h⟩, ?_⟩
      rintro ⟨_, _, ⟨⟩, h⟩
      exact h
  | error e m₁ =>
      constructor
      · intro h
        cases h
      · rintro ⟨_, _, ⟨⟩, _⟩

/-! ## What is determined first -/

section Determining

variable [Reference ν] (call : Caller ν) (env : Env)

/-- What one target stands for: a variable as it is, and an entry of a table that is evaluated, with a
    key that is evaluated after it. -/
def target : Expr ν → Eval ν (Place ν)
  | .name x => pure (.var x)
  | .index object key => do
    let o ← single (object.results call env)
    let k ← single (key.results call env)
    entryPlace o k
  | _ => fault .notAssignable

/-- The values of the last of some expressions, if there is one: all of them if it is a call, and
    otherwise one. -/
def lastValues : Option (Expr ν) → Eval ν (List Value)
  | none => pure []
  | some e => spread e.isMulti (e.results call env)

/-- The values of a list of expressions: one of each, and of the last one perhaps several. -/
def valuesOf (es : List (Expr ν)) : Eval ν (List Value) := do
  let firsts ← es.dropLast.mapM fun e => single (e.results call env)
  let others ← lastValues call env es.getLast?
  pure (firsts ++ others)

/-- All that an assignment on a line does before it stores: it moves to the line and takes a step, and
    then it goes through its targets and its values. -/
def determine (line : Nat) (targets values : List (Expr ν)) :
    Eval ν (List (Place ν) × List Value) := do
  atLine line
  takeStep
  let ps ← targets.mapM (target call env)
  let vs ← valuesOf call env values
  pure (ps, vs)

theorem places_eq_mapM (targets : List (Expr ν)) :
    places call env targets = targets.mapM (target call env) := by
  induction targets with
  | nil => rfl
  | cons t targets ih =>
      rw [List.mapM_cons, ← ih]
      cases t with
      | name x => simp only [places, target, pure_bind]
      | index object key => simp only [places, target, bind_assoc]
      | _ => simp only [places, target, fault_bind]

theorem resultsOfAll_eq_valuesOf (es : List (Expr ν)) :
    resultsOfAll call env es = valuesOf call env es := by
  unfold valuesOf
  induction es with
  | nil =>
      simp only [resultsOfAll, lastValues, List.dropLast_nil, List.mapM_nil, List.getLast?_nil,
        pure_bind, List.append_nil]
  | cons e es ih =>
      cases es with
      | nil =>
          simp only [resultsOfAll, lastValues, List.dropLast_singleton, List.mapM_nil,
            List.getLast?_singleton, pure_bind, List.nil_append, bind_pure]
      | cons next es =>
          simp only [resultsOfAll, ih, List.dropLast_cons_cons, List.mapM_cons,
            List.getLast?_cons_cons, bind_assoc, pure_bind, List.cons_append]

end Determining

/-- Cutting or filling up a list gives the values at the first positions, `nil` where there is none. -/
theorem adjusted_eq_map (n : Nat) (vs : List Value) :
    adjusted n vs = (List.range n).map (vs.getD · .nil) := by
  unfold adjusted
  refine List.ext_getElem? fun i => ?_
  rw [List.getElem?_append, List.getElem?_map, List.getElem?_replicate, List.length_take,
    List.getElem?_take]
  by_cases hi : i < n
  · rw [List.getElem?_range hi, Option.map_some, List.getD_eq_getElem?_getD]
    by_cases hv : i < vs.length
    · rw [if_pos (by omega), if_pos hi, List.getElem?_eq_getElem hv, Option.getD_some]
    · rw [if_neg (by omega), if_pos (by omega), List.getElem?_eq_none (by omega), Option.getD_none]
  · rw [if_neg (by omega), if_neg (by omega), List.getElem?_eq_none (by rw [List.length_range]; omega),
      Option.map_none]

/-- An assignment is to determine what it needs and then to store. -/
theorem exec_assign [Reference ν] (call : Caller ν) (env : Env) (line : Nat)
    (targets values : List (Expr ν)) :
    (Stmt.mk line (.assign targets values)).exec call env = (do
      let (ps, vs) ← determine call env line targets values
      storeAll env ps ((List.range ps.length).map (vs.getD · .nil))
      pure .normal) := by
  simp only [Stmt.exec, Action.exec, determine, places_eq_mapM, resultsOfAll_eq_valuesOf,
    adjusted_eq_map, bind_assoc, pure_bind]

/-! ## Storing -/

/-- What is stored into: a declaration, or an entry of a table. -/
inductive Destination
  | slot (slot : Slot)
  | entry (table : TableId) (key : Key)
deriving Repr

/-- What a place is for some scopes: a variable is the declaration that is found in them, and without
    one it is an entry of the table of the global variables. -/
def Place.destination [Reference ν] (scopes : Array Scope) (env : Env) : Place ν → Destination
  | .var x =>
    match Reference.slot? scopes env x with
    | some slot => .slot slot
    | none => .entry Machine.globals (.text (Reference.word x))
  | .entry table key => .entry table key

namespace Machine

/-- Store a value. -/
def put (m : Machine ν) : Destination → Value → Machine ν
  | .slot slot, v => m.setSlot slot v
  | .entry table key, v => { m with tables := m.tables.update table (·.set key v) }

/-- Store values, one after the other. -/
def putAll (m : Machine ν) (stores : List (Destination × Value)) : Machine ν :=
  stores.foldl (fun m store => m.put store.1 store.2) m

theorem declaredNames_put (m : Machine ν) (d : Destination) (v : Value) :
    declaredNames (m.put d v).scopes = declaredNames m.scopes := by
  cases d with
  | slot slot => exact declaredNames_store m.scopes slot v
  | entry table key => rfl

end Machine

/-- A place is the same wherever the same names are declared. -/
theorem destination_eq_of_names {scopes scopes' : Array Scope} {env : Env}
    (h : ∀ id ∈ env, (scopeAt scopes' id).names = (scopeAt scopes id).names)
    (p : Place String) : p.destination scopes' env = p.destination scopes env := by
  cases p with
  | var x =>
      have hslot : Reference.slot? scopes' env x = Reference.slot? scopes env x :=
        slot?_eq_of_names x h
      simp only [Place.destination, hslot]
  | entry table key => rfl

theorem run_store [Reference ν] (env : Env) (p : Place ν) (v : Value) (s : Setting)
    (m : Machine ν) : store env p v s m = .ok () (m.put (p.destination m.scopes env) v) := by
  cases p with
  | var x =>
      simp only [store, writeVariable, Machine.assign, Place.destination]
      cases Reference.slot? m.scopes env x <;> rfl
  | entry table key => rfl

/-- Storing cannot fail, and the places are those from before the first store. -/
theorem run_storeAll (env : Env) (ps : List (Place String)) (vs : List Value) (s : Setting)
    (m : Machine) : storeAll env ps vs s m =
      .ok () (m.putAll ((ps.map (Place.destination m.scopes env)).zip vs)) := by
  induction ps generalizing vs m with
  | nil => cases vs <;> rfl
  | cons p ps ih =>
      cases vs with
      | nil => rfl
      | cons v vs =>
          simp only [storeAll]
          rw [run_bind, run_store]
          dsimp only
          rw [ih]
          -- The first store declares nothing, and so the other places are what they were.
          have hnames : ∀ id ∈ env, (scopeAt (m.put (p.destination m.scopes env) v).scopes id).names =
              (scopeAt m.scopes id).names := by
            intro id _
            rw [← namesAt_declaredNames, Machine.declaredNames_put, namesAt_declaredNames]
          have hsame := funext (destination_eq_of_names hnames)
          rw [hsame]
          rfl

/-! ## What happens before -/

/-- The same machine with more tables and functions. It may have counted, noted and moved to another
    line. -/
structure Machine.Extends (m m' : Machine ν) : Prop where
  scopes : m'.scopes = m.scopes
  tables : ∃ newer, m'.tables = m.tables ++ newer
  closures : ∃ newer, m'.closures = m.closures ++ newer
  chunk : m'.chunk = m.chunk
  depth : m'.depth = m.depth

namespace Machine.Extends

variable {m m' m'' : Machine ν}

theorem refl (m : Machine ν) : m.Extends m :=
  ⟨rfl, ⟨#[], Array.append_empty.symm⟩, ⟨#[], Array.append_empty.symm⟩, rfl, rfl⟩

theorem trans (h : m.Extends m') (h' : m'.Extends m'') : m.Extends m'' := by
  rcases h with ⟨hscopes, ⟨tables, htables⟩, ⟨closures, hclosures⟩, hchunk, hdepth⟩
  rcases h' with ⟨hscopes', ⟨tables', htables'⟩, ⟨closures', hclosures'⟩, hchunk', hdepth'⟩
  refine ⟨hscopes'.trans hscopes, ⟨tables ++ tables', ?_⟩, ⟨closures ++ closures', ?_⟩,
    hchunk'.trans hchunk, hdepth'.trans hdepth⟩
  · rw [htables', htables, Array.append_assoc]
  · rw [hclosures', hclosures, Array.append_assoc]

/-- Counting, noting and moving to another line. -/
theorem noted (m : Machine ν) (steps nesting line : Nat) (record : Option (List Event)) :
    m.Extends { m with steps := steps, nesting := nesting, line := line, record := record } :=
  ⟨rfl, (refl m).tables, (refl m).closures, rfl, rfl⟩

theorem newTable (m : Machine ν) (t : Table) : m.Extends { m with tables := m.tables.push t } :=
  ⟨rfl, ⟨#[t], rfl⟩, (refl m).closures, rfl, rfl⟩

theorem newClosure (m : Machine ν) (c : Closure ν) :
    m.Extends { m with closures := m.closures.push c } :=
  ⟨rfl, (refl m).tables, ⟨#[c], rfl⟩, rfl, rfl⟩

end Machine.Extends

/-- What an expression does without calls. -/
def extendsCourse : Course ν where
  Rel := Machine.Extends
  refl := .refl
  trans := .trans
  counted m nesting record := .noted m m.steps nesting m.line record
  newTable := .newTable
  newClosure := .newClosure

/-- A machine that is reached by what expressions do themselves, and by calls that they make. -/
inductive ByCalls (call : Caller ν) (s : Setting) : Machine ν → Machine ν → Prop
  | start (m : Machine ν) : ByCalls call s m m
  | extended {m m' m'' : Machine ν} (before : ByCalls call s m m') (h : m'.Extends m'') :
    ByCalls call s m m''
  | called {m m' : Machine ν} (before : ByCalls call s m m') (site : Site) (f : Value)
      (args : List Value) :
    ByCalls call s m (machineAfter (callValue call site f args s m'))

theorem ByCalls.trans {call : Caller ν} {s : Setting} {m m' m'' : Machine ν}
    (h : ByCalls call s m m') (h' : ByCalls call s m' m'') : ByCalls call s m m'' := by
  induction h' with
  | start => exact h
  | extended _ hextends ih => exact ih.extended hextends
  | called _ site f args ih => exact ih.called site f args

/-- What an expression does with calls. -/
def callsCourse (call : Caller ν) (s : Setting) : Course ν where
  Rel := ByCalls call s
  refl := .start
  trans := .trans
  counted m nesting record := .extended (.start m) (.noted m m.steps nesting m.line record)
  newTable m t := .extended (.start m) (.newTable m t)
  newClosure m c := .extended (.start m) (.newClosure m c)

theorem takeStep_extends (s : Setting) : extendsCourse.Keeps s (takeStep : Eval ν Unit) := by
  have htick : extendsCourse.Keeps s (tick : Eval ν Unit) := by
    intro m
    unfold tick
    dsimp only
    split <;> exact .noted m _ m.nesting m.line m.record
  exact htick.bind fun _ m => Course.Keeps.rel_note m _

/-- Before it stores, an assignment is on every course that leads to machines with more tables and
    functions, if the functions that it calls are. -/
theorem determine_keeps [Reference ν] {C : Course ν}
    (hextends : ∀ {m m' : Machine ν}, m.Extends m' → C.Rel m m') {s : Setting} {call : Caller ν}
    (env : Env) (line : Nat) (targets values : List (Expr ν))
    (h : hasCallList targets = true ∨ hasCallList values = true → C.KeepsCalls s call) :
    C.Keeps s (determine call env line targets values) := by
  unfold determine
  rw [← places_eq_mapM, ← resultsOfAll_eq_valuesOf]
  have hline : C.Keeps s (atLine line) := fun m => hextends (.noted m _ _ _ _)
  have hstep : C.Keeps s takeStep := fun m => hextends (takeStep_extends s m)
  refine hline.bind fun _ => hstep.bind fun _ => ?_
  refine (places_keeps env targets fun h' => h (.inl h')).bind fun ps => ?_
  exact (resultsOfAll_keeps env values fun h' => h (.inr h')).bind fun vs => .pure _

theorem length_of_mapM {f : α → Eval ν β} {xs : List α} {s : Setting} {m m' : Machine ν}
    {ys : List β} (h : xs.mapM f s m = .ok ys m') : ys.length = xs.length := by
  induction xs generalizing m ys with
  | nil =>
      cases h
      rfl
  | cons x xs ih =>
      rw [List.mapM_cons] at h
      rcases run_bind_eq_ok_iff.mp h with ⟨y, m₁, _, h⟩
      rcases run_bind_eq_ok_iff.mp h with ⟨rest, m₂, hrest, h⟩
      cases h
      rw [List.length_cons, List.length_cons, ih hrest]

/-- There is a place for each target. -/
theorem length_of_determine [Reference ν] {call : Caller ν} {env : Env} {line : Nat}
    {targets values : List (Expr ν)} {s : Setting} {m m' : Machine ν} {ps : List (Place ν)}
    {vs : List Value} (h : determine call env line targets values s m = .ok (ps, vs) m') :
    ps.length = targets.length := by
  unfold determine at h
  rcases run_bind_eq_ok_iff.mp h with ⟨_, _, _, h⟩
  rcases run_bind_eq_ok_iff.mp h with ⟨_, _, _, h⟩
  rcases run_bind_eq_ok_iff.mp h with ⟨places, _, hplaces, h⟩
  rcases run_bind_eq_ok_iff.mp h with ⟨_, _, _, h⟩
  cases h
  exact length_of_mapM hplaces

/-! ## Assignments -/

/-- An assignment determines a place for each target, and its values. If that fails it has stored
    nothing. Otherwise it does not fail, and stores the values one after the other, `nil` for those that
    are missing, into what the places were before the statement. Before the stores it has only made
    tables and functions and called functions. -/
theorem assign_simultaneous (line : Nat) (env : Env) (targets values : List Expr) (s : Setting)
    (m : Machine) (henv : ∀ id ∈ env, id.index < m.scopes.size) :
    let determined := determine callWithin env line targets values s m
    ByCalls callWithin s m (machineAfter determined) ∧
    (hasCallList targets = false → hasCallList values = false →
      m.Extends (machineAfter determined)) ∧
    (∀ ps vs m', determined = .ok (ps, vs) m' → ps.length = targets.length) ∧
    (Stmt.mk line (.assign targets values)).exec callWithin env s m =
      match determined with
      | .error f m' => .error f m'
      | .ok (ps, vs) m' => .ok .normal (m'.putAll ((ps.map (Place.destination m.scopes env)).zip
          ((List.range targets.length).map (vs.getD · .nil)))) := by
  intro determined
  have hcalls : ByCalls callWithin s m (machineAfter determined) :=
    determine_keeps (C := callsCourse callWithin s) (fun h => .extended (.start _) h) env line
      targets values (fun _ site f args m => .called (.start m) site f args) m
  have hextends : hasCallList targets = false → hasCallList values = false →
      m.Extends (machineAfter determined) := by
    intro htargets hvalues
    refine determine_keeps (C := extendsCourse) id env line targets values ?_ m
    rw [htargets, hvalues]
    rintro (h | h) <;> cases h
  refine ⟨hcalls, hextends, fun ps vs m' h => length_of_determine h, ?_⟩
  -- The functions that are called declare nothing in the scopes of the environment.
  have hnames : SameNames m.scopes.size m (machineAfter determined) :=
    determine_keeps (C := namesCourse m.scopes.size) (fun h => .of_scopes h.scopes) env line targets
      values (fun _ site f args => KeepsNames.callValue (callWithin_keepsNames _) site f args s) m
  have hdetermined : determine callWithin env line targets values s m = determined := rfl
  rw [exec_assign, run_bind, hdetermined]
  clear_value determined
  cases determined with
  | error f m' => rfl
  | ok r m' =>
      -- So the variables are found where they were before the statement.
      rcases r with ⟨ps, vs⟩
      dsimp only [machineAfter] at hnames ⊢
      have hplaces : Place.destination m'.scopes env = Place.destination (ν := String) m.scopes env :=
        funext (destination_eq_of_names fun id hid => (hnames (Nat.le_refl _)).2 id (henv id hid))
      rw [run_bind, run_storeAll, hplaces, length_of_determine hdetermined]
      rfl

/-- A machine with two local variables. -/
def Machine.ofPair (a b : Value) : Machine :=
  { Machine.initial with scopes := #[[("b", b), ("a", a)]] }

/-- Two variables are swapped. -/
theorem assign_swap :
    (∀ id ∈ ([⟨0⟩] : Env), id.index < (Machine.ofPair (.text "x") (.text "y")).scopes.size) ∧
    (Stmt.mk 7 (.assign [.name "a", .name "b"] [.name "b", .name "a"])).exec callWithin [⟨0⟩]
        ⟨{}, .spaced⟩ (.ofPair (.text "x") (.text "y")) =
      .ok .normal { Machine.ofPair (.text "y") (.text "x") with steps := 1, line := 7 } := by
  have henv : ∀ id ∈ ([⟨0⟩] : Env),
      id.index < (Machine.ofPair (.text "x") (.text "y")).scopes.size := by
    decide
  have hassign := assign_simultaneous 7 [⟨0⟩] [.name "a", .name "b"] [.name "b", .name "a"]
    ⟨{}, .spaced⟩ _ henv
  refine ⟨henv, ?_⟩
  rw [hassign.2.2.2]
  rfl

end Script

end PixelEffects
