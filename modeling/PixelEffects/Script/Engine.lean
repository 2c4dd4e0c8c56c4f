import PixelEffects.Script.ChunkCache
import PixelEffects.Script.Evaluator
import PixelEffects.Script.HostValue

/-!
# Engines

A machine with a setting, and what a host can do with it.

A host loads sources, binds globals, calls global functions and asks what a global is. Each
operation starts with fresh counts, and each keeps what the machine has become, also after a
fault.

## Main definitions

* `Engine`: A machine and its setting.
* `Engine.load`, `Engine.bind`, `Engine.call`: The operations.
* `EntryPoint`, `Engine.entryPoint`: What a global is.
-/

namespace PixelEffects

namespace Script

/-- What a global is when it is to be called. -/
inductive EntryPoint
  | missing
  | notCallable (type : TypeName)
  | function (params : Nat)
  | native
deriving Repr, DecidableEq

/-- A machine and its setting. -/
structure Engine (ν : Type := String) where
  setting : Setting
  machine : Machine ν

variable {ν : Type}

/-- A machine that has run nothing, with the library in place. It keeps no record. -/
def Machine.initial : Machine ν where
  tables := Library.initialTables
  closures := #[]
  scopes := #[]
  steps := 0
  depth := 0
  nesting := 0
  chunk := ""
  line := 0
  record := none

/-- Run the statements of a chunk from its beginning. -/
def execChunk [Reference ν] (chunk : Chunk ν) : Eval ν Unit := fun s m =>
  (do
    match ← block callWithin [] chunk.body with
    | .broken => fault .breakOutside
    | _ => pure () : Eval ν Unit) s { m.restarted with chunk := chunk.name, line := 0 }

/-- Call a global function with fresh counts. -/
def callGlobal [Reference ν] (name : String) (args : List Value) : Eval ν (List Value) := fun s m =>
  let m := m.restarted
  match m.global name with
  | .nil => .error (.unplaced (.notCallable .nil (.global name))) m
  | f => callValue callWithin .none f args s m

namespace Engine

/-- An engine that has run nothing. -/
def new (setting : Setting) : Engine ν :=
  ⟨setting, .initial⟩

/-- Run a computation on the machine of an engine. -/
def run {α : Type} (e : Engine ν) (body : Eval ν α) : Except Fault α × Engine ν :=
  let ⟨setting, machine⟩ := e
  match body setting machine with
  | .ok a machine => (.ok a, ⟨setting, machine⟩)
  | .error f machine => (.error f, ⟨setting, machine⟩)

/-- Run a parsed chunk. -/
def runChunk [Reference ν] (e : Engine ν) (chunk : Chunk ν) : Except Fault Unit × Engine ν :=
  e.run (execChunk chunk)

/-- Parse a source, by way of a cache if there is one, and run it. -/
def load (e : Engine) (cache : Option ChunkCache) (name source : String) :
    Except Fault Unit × Engine × Option ChunkCache :=
  match fetchChunk cache name source with
  | (.error f, cache) => (.error f, e, cache)
  | (.ok chunk, cache) =>
    let (result, e) := e.runChunk chunk
    (result, e, cache)

/-- Store a host value in a global. -/
def bind (e : Engine ν) (name : String) (v : HostValue) : Engine ν :=
  let ⟨setting, machine⟩ := e
  let (v, machine) := machine.onTables v.toScript
  ⟨setting, machine.setGlobal name v⟩

/-- Call a global function with host values. The first result is taken out, `nil` when there is
    none. -/
def call [Reference ν] (e : Engine ν) (name : String) (args : List HostValue) :
    Except Fault HostValue × Engine ν :=
  let ⟨setting, machine⟩ := e
  let (args, machine) := machine.onTables (HostValue.allToScript args)
  match run ⟨setting, machine⟩ (callGlobal name args) with
  | (.ok vs, e) => (.ok (HostValue.ofScript e.machine.tables (vs.headD .nil)), e)
  | (.error f, e) => (.error f, e)

/-- What a global is. -/
def entryPoint (e : Engine ν) (name : String) : EntryPoint :=
  match e.machine.global name with
  | .nil => .missing
  | .function id =>
    match e.machine.closures[id.index]? with
    | some c => .function c.definition.params.length
    | none => .missing
  | .builtin _ => .native
  | v => .notCallable v.type

end Engine

end Script

end PixelEffects
