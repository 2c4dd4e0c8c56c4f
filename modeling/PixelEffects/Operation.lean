import PixelEffects.Error
import PixelEffects.Script.Engine

/-!
# Operations

What works on a library, and what it shares with other operations.

Two things outlive an operation: the chunks that were parsed, and the flag by which a caller stops
a run. The flag can be set at any moment, but a run only looks at it at certain points, and once
set it stays set. So all that matters about the moment is the number of checks before it.

An operation that fails keeps what it did to the cache until then.

## Main definitions

* `CancelFlag`: When a run is to be stopped.
* `Session`: What operations share.
* `Operation`: A computation that ends with a result or an error.
* `Operation.checkCancel`: Stop if the flag is set.
* `Operation.attempt`, `Operation.mapError`: Computations whose errors are looked at.
-/

namespace PixelEffects

/-- A flag by which a caller stops a run: the number of checks after which it is found set, if it is
    ever set. -/
structure CancelFlag where
  after : Option Nat
deriving Repr, DecidableEq

namespace CancelFlag

/-- Whether the next check finds the flag set. -/
def isSet (f : CancelFlag) : Bool :=
  f.after == some 0

/-- The flag as later checks find it. A flag that is set stays set. -/
def next (f : CancelFlag) : CancelFlag :=
  ⟨f.after.map (· - 1)⟩

end CancelFlag

/-- What changes while an operation on a library runs: the chunks that are kept, and the flag. -/
structure Session where
  cache : Option Script.ChunkCache
  cancel : Option CancelFlag

/-- A computation that ends with a result or an error. -/
abbrev Operation (α : Type) := EStateM Error Session α

namespace Operation

/-- Stop with an error. -/
def fail {α : Type} (e : Error) : Operation α := fun s =>
  .error e s

/-- Take a result, or stop with its error. -/
def ofExcept {α : Type} : Except Error α → Operation α
  | .ok a => pure a
  | .error e => fail e

/-- Stop if the flag is set. -/
def checkCancel : Operation Unit := fun s =>
  match s.cancel with
  | none => .ok () s
  | some flag =>
    if flag.isSet then .error .cancelled s else .ok () { s with cancel := some flag.next }

/-- What a computation ends with, as a result. -/
def attempt {α : Type} (op : Operation α) : Operation (Except Error α) := fun s =>
  match op s with
  | .ok a s => .ok (.ok a) s
  | .error e s => .ok (.error e) s

/-- Change the error of a computation. -/
def mapError {α : Type} (f : Error → Error) (op : Operation α) : Operation α := fun s =>
  match op s with
  | .ok a s => .ok a s
  | .error e s => .error (f e) s

/-- Compute with the flag, and keep what it has become. -/
def sharing {α : Type} (f : Option CancelFlag → Except Error α × Option CancelFlag) :
    Operation α := fun s =>
  match f s.cancel with
  | (.ok a, cancel) => .ok a { s with cancel := cancel }
  | (.error e, cancel) => .error e { s with cancel := cancel }

end Operation

end PixelEffects
