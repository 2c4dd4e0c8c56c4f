import PixelEffects.Script.Syntax
import PixelEffects.Script.Table

/-!
# The Machine

Everything that a script can change, and the steps that change it.

Tables, script functions and scopes live in three growing stores, and a value or an environment
refers to them by place. A scope is what one block has declared so far, the latest declaration
first. An environment is a list of scopes, the innermost first, and a name means the first
declaration of it that the list leads to. Functions keep the environment that they were made in,
not a copy of what it holds, so that a function and the block around it see each other's
assignments.

Names are one way to refer to a variable. Everything here is written for any `Reference`, which is
asked for a declaration and need not look for a name to find one.

The machine counts statements and loop rounds (`steps`), active calls (`depth`) and blocks and
expressions that are being evaluated (`nesting`), and it knows the position of the statement it is
at. The two combinators `deeper` and `framed` undo their counting on the way out, whether their
body ended with a result or with a fault. That is the only place where either counter goes down.

A machine can also keep a record of what is begun and ended, of how the run gets on, and of what
texts show the places of. No script can see the record and nothing depends on it; it is there to say
what was going on at each moment of a run, and how much had been done and shown by then. An engine
does not keep one.

`Eval` is the type of everything that runs on a machine. A fault leaves the machine as it was when
the fault was raised: what a script did before it failed is still done.

## Main definitions

* `Limits`, `Setting`: What a run is given and cannot change.
* `Scope`, `Env`, `Slot`, `Closure`: Declarations, the way to them, and functions that remember it.
* `Reference`: What a variable is referred to by.
* `Region`, `Progress`, `Event`: What a record is made of.
* `Machine`: The state.
* `Eval`: A computation on a machine that ends with a result or a fault.
* `nested`, `framed`, `tick`: The three counters.
* `mark`, `watched`, `expose`: What is noted in a record.
* `loop`: Rounds that go on until one says that it is done.
-/

namespace PixelEffects

namespace Script

/-- How much a script may do in one operation. -/
structure Limits where
  maxSteps : Nat := 1000000
  maxCallDepth : Nat := 64
deriving Repr, DecidableEq

/-- What a run is given: its limits, and the numbers that places are shown as. -/
structure Setting where
  limits : Limits
  address : Addressing

/-- How many blocks and expressions may be under evaluation at once, over all active calls. -/
def maxNesting : Nat := 400

/-- The longest text that an operation may build, in bytes. -/
def maxTextLength : Nat := 1048576

/-- Where a scope lives. -/
structure ScopeId where
  index : Nat
deriving Repr, DecidableEq

/-- The declarations of one block, the latest first. -/
abbrev Scope := List (String × Value)

namespace Scope

/-- Store a value in the declaration at a position. -/
def store (position : Nat) (v : Value) (scope : Scope) : Scope :=
  scope.modify position fun d => (d.1, v)

/-- Declare several names in order; a name without a value holds `nil`. -/
def declareAll : List String → List Value → Scope → Scope
  | [], _, scope => scope
  | n :: names, [], scope => declareAll names [] ((n, .nil) :: scope)
  | n :: names, v :: values, scope => declareAll names values ((n, v) :: scope)

end Scope

/-- The scope at a place. -/
def scopeAt (scopes : Array Scope) (id : ScopeId) : Scope :=
  scopes.getD id.index []

/-- The scopes that a name is looked up in, the innermost first. -/
abbrev Env := List ScopeId

/-- A declaration: its scope, and how many declarations the scope has after it. -/
structure Slot where
  scope : ScopeId
  position : Nat
deriving Repr, DecidableEq

/-- The latest declaration of a name in the innermost scope that has one. -/
def Env.slot? (scopes : Array Scope) (env : Env) (name : String) : Option Slot :=
  match env with
  | [] => none
  | id :: outer =>
    match (scopeAt scopes id).findIdx? (·.1 == name) with
    | some position => some ⟨id, position⟩
    | none => slot? scopes outer name

/-- What a variable is referred to by: it has a word for the variable, and leads to its declaration
    or, when there is none, to the global variable of that word. -/
class Reference (ν : Type) where
  word : ν → String
  slot? : Array Scope → Env → ν → Option Slot

/-- A name refers to what it is found under. -/
instance : Reference String where
  word name := name
  slot? := Env.slot?

/-- A script function with the environment that it was made in. -/
structure Closure (ν : Type := String) where
  definition : Function ν
  env : Env

/-- All tables. -/
abbrev Heap := Array Table

namespace Heap

/-- The table at a place. -/
def table (heap : Heap) (id : TableId) : Table :=
  heap.getD id.index .empty

/-- Change the table at a place. -/
def update (heap : Heap) (id : TableId) (f : Table → Table) : Heap :=
  heap.modify id.index f

end Heap

/-- What is being evaluated while something inside it is: a block, an expression of which one value
    is wanted, the body of a `repeat`, a call of which all results are wanted. -/
inductive Region
  | block | value | repeatBody | allResults
deriving Repr, DecidableEq

/-- How a run gets on: a statement is done, or a round of a loop is over and the loop goes on. -/
inductive Progress
  | statement | round
deriving Repr, DecidableEq

/-- What a record says: that a region was begun, that the one begun last was ended, how the run
    gets on, or what a text shows the place of. -/
inductive Event
  | enter (region : Region)
  | leave
  | progress (p : Progress)
  | shown (r : Resident)
deriving Repr, DecidableEq

/-- Everything that a script can change, and the record, the latest event first, if one is kept. -/
structure Machine (ν : Type := String) where
  tables : Heap
  closures : Array (Closure ν)
  scopes : Array Scope
  steps : Nat
  depth : Nat
  nesting : Nat
  chunk : String
  line : Nat
  record : Option (List Event)

variable {ν : Type}

namespace Machine

/-- The table of the global variables. -/
def globals : TableId := ⟨0⟩

/-- The value of a global variable. -/
def global (m : Machine ν) (name : String) : Value :=
  (m.tables.table globals).get (.text name)

/-- Store a global variable. -/
def setGlobal (m : Machine ν) (name : String) (v : Value) : Machine ν :=
  { m with tables := m.tables.update globals (·.set (.text name) v) }

/-- The value of a declaration. -/
def slotValue (m : Machine ν) (slot : Slot) : Value :=
  match (scopeAt m.scopes slot.scope)[slot.position]? with
  | some d => d.2
  | none => .nil

/-- Store the value of a declaration. -/
def setSlot (m : Machine ν) (slot : Slot) (v : Value) : Machine ν :=
  { m with scopes := m.scopes.modify slot.scope.index (Scope.store slot.position v) }

/-- The value of a variable: that of its declaration, or else of the global. -/
def lookup [Reference ν] (m : Machine ν) (env : Env) (x : ν) : Value :=
  match Reference.slot? m.scopes env x with
  | some slot => m.slotValue slot
  | none => m.global (Reference.word x)

/-- Assign to a variable: to its declaration, or else to the global. -/
def assign [Reference ν] (m : Machine ν) (env : Env) (x : ν) (v : Value) : Machine ν :=
  match Reference.slot? m.scopes env x with
  | some slot => m.setSlot slot v
  | none => m.setGlobal (Reference.word x) v

/-- Apply a change to the tables that also gives a result. -/
def onTables {α : Type} (m : Machine ν) (f : Heap → α × Heap) : α × Machine ν :=
  let tables := m.tables
  let m := { m with tables := #[] }
  let (a, tables) := f tables
  (a, { m with tables := tables })

/-- Forget the counts of the last operation. -/
def restarted (m : Machine ν) : Machine ν :=
  { m with steps := 0, depth := 0, nesting := 0 }

/-- Note an event, if a record is kept. -/
def note (m : Machine ν) (e : Event) : Machine ν :=
  match m.record with
  | none => m
  | some events => { m with record := some (e :: events) }

end Machine

/-- A computation on a machine that ends with a result or a fault. -/
abbrev Eval (ν α : Type) := ReaderT Setting (EStateM Fault (Machine ν)) α

/-- Stop with a fault at the position of the machine. -/
def fault {α : Type} (cause : Cause) : Eval ν α := fun _ m =>
  .error ⟨m.chunk, m.line, cause⟩ m

/-- Stop with a fault when there is a cause for it. -/
def orFault {ε α : Type} (cause : ε → Cause) : Except ε α → Eval ν α
  | .ok a => pure a
  | .error e => fault (cause e)

/-- Count one step, within the budget. -/
def tick : Eval ν Unit := fun s m =>
  let m := { m with steps := m.steps + 1 }
  if m.steps > s.limits.maxSteps then fault (.stepBudget s.limits.maxSteps) s m
  else .ok () m

/-- Note how the run gets on. -/
def mark (p : Progress) : Eval ν Unit := fun _ m =>
  .ok () (m.note (.progress p))

/-- Note what a text shows the place of. -/
def expose (r : Resident) : Eval ν Unit := fun _ m =>
  .ok () (m.note (.shown r))

/-- Note all that texts show the places of. -/
def exposeAll : List Resident → Eval ν Unit
  | [] => pure ()
  | r :: rs => do
    expose r
    exposeAll rs

/-- Take the step of a statement, and note it. -/
def takeStep : Eval ν Unit := do
  tick
  mark .statement

/-- Move to a line. -/
def atLine (line : Nat) : Eval ν Unit := fun _ m =>
  .ok () { m with line := line }

/-- Run with one change of the machine before, and another one after, whether there was a fault or
    not. -/
def around {α : Type} (before after : Machine ν → Machine ν) (body : Eval ν α) : Eval ν α :=
  fun s m =>
    match body s (before m) with
    | .ok a m => .ok a (after m)
    | .error f m => .error f (after m)

/-- Run a region, and note its beginning and its end. -/
def watched {α : Type} (region : Region) (body : Eval ν α) : Eval ν α :=
  around (·.note (.enter region)) (·.note .leave) body

/-- Run with one more block or expression counted, and come back out. -/
def deeper {α : Type} (body : Eval ν α) : Eval ν α :=
  around (fun m => { m with nesting := m.nesting + 1 })
    (fun m => { m with nesting := m.nesting - 1 }) body

/-- Run a region that is counted, as long as there are not too many. -/
def nested {α : Type} (region : Region) (body : Eval ν α) : Eval ν α := fun s m =>
  if m.nesting ≥ maxNesting then fault (.nesting maxNesting) s m
  else watched region (deeper body) s m

/-- Run the body of a function one call further in, at the position of its definition, and come back
    to where the call was. -/
def framed {α : Type} (chunk : String) (line : Nat) (body : Eval ν α) : Eval ν α := fun s m =>
  if m.depth ≥ s.limits.maxCallDepth then fault (.callDepth s.limits.maxCallDepth) s m
  else
    let callerChunk := m.chunk
    let callerLine := m.line
    match body s { m with depth := m.depth + 1, chunk := chunk, line := line } with
    | .ok a m => .ok a { m with depth := m.depth - 1, chunk := callerChunk, line := callerLine }
    | .error f m =>
      .error f { m with depth := m.depth - 1, chunk := callerChunk, line := callerLine }

/-- Make a table. -/
def newTable (t : Table) : Eval ν Value := fun _ m =>
  .ok (.table ⟨m.tables.size⟩) { m with tables := m.tables.push t }

/-- Make a function that remembers an environment. -/
def newClosure (definition : Function ν) (env : Env) : Eval ν Value := fun _ m =>
  .ok (.function ⟨m.closures.size⟩) { m with closures := m.closures.push ⟨definition, env⟩ }

/-- The function at a place. -/
def closureAt (id : ClosureId) : Eval ν (Option (Closure ν)) := fun _ m =>
  .ok m.closures[id.index]? m

/-- Open a scope. -/
def newScope (scope : Scope) : Eval ν ScopeId := fun _ m =>
  .ok ⟨m.scopes.size⟩ { m with scopes := m.scopes.push scope }

/-- Change the innermost scope. -/
def onInnermost (env : Env) (f : Scope → Scope) : Eval ν Unit := fun _ m =>
  match env with
  | [] => .ok () m
  | id :: _ => .ok () { m with scopes := m.scopes.modify id.index f }

/-- Declare names in the innermost scope. -/
def declare (env : Env) (names : List String) (values : List Value) : Eval ν Unit :=
  onInnermost env (Scope.declareAll names values)

/-- Store the value of what was declared last in the innermost scope. -/
def setLatest (env : Env) (v : Value) : Eval ν Unit :=
  onInnermost env (Scope.store 0 v)

/-- The value of a global variable. -/
def readGlobal (name : String) : Eval ν Value := fun _ m =>
  .ok (m.global name) m

/-- The value of a variable. -/
def readVariable [Reference ν] (env : Env) (x : ν) : Eval ν Value := fun _ m =>
  .ok (m.lookup env x) m

/-- Assign to a variable. -/
def writeVariable [Reference ν] (env : Env) (x : ν) (v : Value) : Eval ν Unit := fun _ m =>
  .ok () (m.assign env x v)

/-- The table at a place. -/
def readTable (id : TableId) : Eval ν Table := fun _ m =>
  .ok (m.tables.table id) m

/-- What the tables give, or a fault. -/
def askTables {α : Type} (f : Heap → Except Cause α) : Eval ν α := fun s m =>
  orFault id (f m.tables) s m

/-- Store an entry of the table at a place. -/
def writeEntry (id : TableId) (k : Key) (v : Value) : Eval ν Unit := fun _ m =>
  .ok () { m with tables := m.tables.update id (·.set k v) }

/-- What a round of a loop says: to go on from a state, or what the loop ends with. -/
inductive Turn (σ α : Type)
  | again (state : σ)
  | done (result : α)

/-- Rounds that go on until one is done, at most `fuel` of them. A round after which the loop goes on
    is noted. -/
def loop {σ α : Type} (round : σ → Eval ν (Turn σ α)) : Nat → σ → Eval ν α
  | 0, _ => fault .outOfFuel
  | fuel + 1, state => do
    match ← round state with
    | .again state =>
      mark .round
      loop round fuel state
    | .done result => pure result

/-- Rounds that go on until one is done, each but the last with a step. There are no more of them
    than steps, and one. -/
def rounds {σ α : Type} (round : σ → Eval ν (Turn σ α)) (state : σ) : Eval ν α := fun s m =>
  loop round (s.limits.maxSteps + 1) state s m

end Script

end PixelEffects
