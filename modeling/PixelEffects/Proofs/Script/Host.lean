import PixelEffects.Script.Engine

/-!
# Hosts

What a host asks of an engine, one thing after the other.

A statement about every run of an engine is a statement about every list of operations. The answers
are all that a host gets to see, so two engines are the same to a host when they give the same
answers to the same operations.

## Main definitions

* `HostOp`, `HostAnswer`: What a host asks, and what it is told.
* `Engine.answer`, `Engine.answers`: One operation, and a list of them.

## Theorems

* `Engine.call_eq`: A call by a host as a run.
-/

namespace PixelEffects

namespace Script

variable {ν : Type}

/-- What a host asks of an engine. -/
inductive HostOp (ν : Type := String)
  | run (chunk : Chunk ν)
  | bind (name : String) (v : HostValue)
  | call (name : String) (args : List HostValue)
  | entryPoint (name : String)

/-- What a host is told. -/
inductive HostAnswer
  | ran (result : Except Fault Unit)
  | bound
  | called (result : Except Fault HostValue)
  | entry (point : EntryPoint)

namespace Engine

variable [Reference ν]

/-- A call with host values is a run that begins when these are script values, and of which the
    first result is taken out. -/
theorem call_eq (e : Engine ν) (name : String) (args : List HostValue) :
    e.call name args =
      let passed := e.machine.onTables (HostValue.allToScript args)
      let r := Engine.run ⟨e.setting, passed.2⟩ (callGlobal name passed.1)
      (r.1.map fun vs => HostValue.ofScript r.2.machine.tables (vs.headD .nil), r.2) := by
  unfold Engine.call
  dsimp only
  rcases Engine.run ⟨e.setting, (e.machine.onTables (HostValue.allToScript args)).2⟩
    (callGlobal name (e.machine.onTables (HostValue.allToScript args)).1) with ⟨r, e'⟩
  cases r <;> rfl

/-- Do what a host asks. -/
def answer (e : Engine ν) : HostOp ν → HostAnswer × Engine ν
  | .run chunk => ((.ran (e.runChunk chunk).1), (e.runChunk chunk).2)
  | .bind name v => (.bound, e.bind name v)
  | .call name args => (.called (e.call name args).1, (e.call name args).2)
  | .entryPoint name => (.entry (e.entryPoint name), e)

/-- Do what a host asks, one thing after the other. -/
def answers (e : Engine ν) : List (HostOp ν) → List HostAnswer × Engine ν
  | [] => ([], e)
  | op :: ops =>
    let (answer, e) := e.answer op
    let (rest, e) := e.answers ops
    (answer :: rest, e)

end Engine

end Script

end PixelEffects
