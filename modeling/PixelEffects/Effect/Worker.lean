import PixelEffects.Image
import PixelEffects.Operation

/-!
# Workers

Rows of an image that are transformed by several workers at once.

Each worker has a sandbox of its own and a list of rows. What the workers share is the image that
is made, the flag that stops them, the failures, and the lowest row that has failed so far. A
worker does not begin a row above that one, because a failure there could not be the first one of
the image; a row that was begun is carried on.

A worker moves in steps, and a step looks at what is shared at most once. So every way in which
the workers can run is a list of numbers that says which worker takes the next step, and what
holds for all lists holds for all ways. A worker whose sandbox could not be made reports that for
the first of its rows.

When all workers are done, there is an image if nobody reported a failure. Otherwise a stop counts
more than any failure, and of the failures the one in the lowest row counts. Within a row there is
only the first one, since the worker leaves the row there. So the error that is reported does not
depend on which worker was faster.

## Main definitions

* `Task`: What is done to a pixel, and of which image.
* `Worker`, `Worker.step`: One worker and its steps.
* `Shared`, `Shared.result`: What workers share, and what comes out.
* `Crew`, `Crew.run`, `Crew.finish`: Several workers.
-/

namespace PixelEffects

/-- An image and what is to be done to each pixel of it, with sandboxes of a type. -/
structure Task (ρ : Type) where
  effectId : String
  source : Image
  invoke : ρ → Pixel → Except Error Pixel × ρ

/-- Where a worker is: between two rows, in front of a pixel, at a pixel after the flag was found
    not set, or about to report why it left a row. -/
inductive Position
  | between
  | before (x y : Nat)
  | inside (x y : Nat)
  | leaving (y : Nat) (error : Error)

/-- A worker: its sandbox or why there is none, the rows that it has not begun, and where it is. -/
structure Worker (ρ : Type) where
  sandbox : Except Error ρ
  rows : List Nat
  position : Position

/-- What workers share. -/
structure Shared where
  image : Image
  cancel : Option CancelFlag
  failedRow : Option Nat
  failures : List (Nat × Error)

namespace Error

/-- Whether an error is a stop that the caller asked for. -/
def isCancelled : Error → Bool
  | cancelled => true
  | _ => false

end Error

namespace Shared

/-- Before the first step. -/
def initial (image : Image) (cancel : Option CancelFlag) : Shared :=
  ⟨.blank image.width image.height, cancel, none, []⟩

/-- Whether a row need not be begun, since a lower one has failed. -/
def skips (s : Shared) (y : Nat) : Bool :=
  s.failedRow.any (· < y)

/-- Take in a failure. -/
def report (s : Shared) (y : Nat) (e : Error) : Shared :=
  { s with
    failedRow := some (s.failedRow.elim y (min y))
    failures := s.failures ++ [(y, e)] }

/-- Whether the flag is found set, and what is shared after having looked at it. -/
def checkFlag (s : Shared) : Bool × Shared :=
  let ⟨image, cancel, failedRow, failures⟩ := s
  match cancel with
  | none => (false, ⟨image, none, failedRow, failures⟩)
  | some flag => (flag.isSet, ⟨image, some flag.next, failedRow, failures⟩)

/-- Write a pixel. -/
def put (s : Shared) (x y : Nat) (c : Rgba) : Shared :=
  let ⟨image, cancel, failedRow, failures⟩ := s
  ⟨image.set x y c, cancel, failedRow, failures⟩

/-- The failure in the lowest row, the earlier one if there are two. -/
def leastFailure : List (Nat × Error) → Option (Nat × Error)
  | [] => none
  | f :: fs =>
    match leastFailure fs with
    | none => some f
    | some g => some (if g.1 < f.1 then g else f)

/-- What comes out when all workers are done. -/
def result (s : Shared) : Except Error Image :=
  if s.failures.any (·.2.isCancelled) then .error .cancelled
  else
    match leastFailure s.failures with
    | some (_, e) => .error e
    | none => .ok s.image

end Shared

namespace Worker

/-- A worker that has begun nothing. -/
def ready {ρ : Type} (sandbox : Except Error ρ) (rows : List Nat) : Worker ρ :=
  ⟨sandbox, rows, .between⟩

/-- Whether a worker has nothing left to do. -/
def isDone {ρ : Type} (w : Worker ρ) : Bool :=
  match w.rows, w.position with
  | [], .between => true
  | _, _ => false

/-- What a worker without a sandbox reports after it has reported why. -/
def notStarted (id : String) : Error :=
  .invalidEffect id .workerNotStarted

/-- Begin a row, unless it is skipped. -/
def begin {ρ : Type} (task : Task ρ) (sandbox : Except Error ρ) (rows : List Nat) (y : Nat)
    (s : Shared) : Worker ρ × Shared :=
  if s.skips y then (⟨sandbox, rows, .between⟩, s)
  else
    match sandbox with
    | .ok sandbox => (⟨.ok sandbox, rows, .before 0 y⟩, s)
    | .error e => (⟨.error (notStarted task.effectId), rows, .leaving y e⟩, s)

/-- Look at the flag in front of a pixel, or leave the row at its end. -/
def approach {ρ : Type} (task : Task ρ) (sandbox : Except Error ρ) (rows : List Nat) (x y : Nat)
    (s : Shared) : Worker ρ × Shared :=
  if x < task.source.width then
    match s.checkFlag with
    | (true, s) => (⟨sandbox, rows, .leaving y .cancelled⟩, s)
    | (false, s) => (⟨sandbox, rows, .inside x y⟩, s)
  else (⟨sandbox, rows, .between⟩, s)

/-- Transform a pixel. -/
def transform {ρ : Type} (task : Task ρ) (sandbox : Except Error ρ) (rows : List Nat) (x y : Nat)
    (s : Shared) : Worker ρ × Shared :=
  match sandbox with
  | .error e => (⟨.error e, rows, .leaving y e⟩, s)
  | .ok sandbox =>
    match task.invoke sandbox (task.source.pixel x y) with
    | (.ok p, sandbox) => (⟨.ok sandbox, rows, .before (x + 1) y⟩, s.put x y p.rgba)
    | (.error e, sandbox) => (⟨.ok sandbox, rows, .leaving y e⟩, s)

/-- One step of a worker. -/
def step {ρ : Type} (task : Task ρ) (w : Worker ρ) (s : Shared) : Worker ρ × Shared :=
  match w with
  | ⟨sandbox, [], .between⟩ => (⟨sandbox, [], .between⟩, s)
  | ⟨sandbox, y :: rows, .between⟩ => begin task sandbox rows y s
  | ⟨sandbox, rows, .before x y⟩ => approach task sandbox rows x y s
  | ⟨sandbox, rows, .inside x y⟩ => transform task sandbox rows x y s
  | ⟨sandbox, rows, .leaving y e⟩ => (⟨sandbox, rows, .between⟩, s.report y e)

/-- Steps that are enough for a worker with so many rows to be done with an image of a width. -/
def enoughSteps (width rows : Nat) : Nat :=
  (rows + 1) * (2 * width + 3)

end Worker

/-- Several workers and what they share. -/
structure Crew (ρ : Type) where
  workers : List (Worker ρ)
  shared : Shared

namespace Crew

/-- Workers that have begun nothing, each with its sandbox and its rows. -/
def start {ρ : Type} (task : Task ρ) (cancel : Option CancelFlag)
    (workers : List (Except Error ρ × List Nat)) : Crew ρ :=
  ⟨workers.map fun w => .ready w.1 w.2, .initial task.source cancel⟩

/-- Let one of the workers take a step. -/
def stepAmong {ρ : Type} (task : Task ρ) :
    Nat → List (Worker ρ) → Shared → List (Worker ρ) × Shared
  | _, [], s => ([], s)
  | 0, w :: ws, s =>
    let (w, s) := w.step task s
    (w :: ws, s)
  | i + 1, w :: ws, s =>
    let (ws, s) := stepAmong task i ws s
    (w :: ws, s)

/-- Let a worker take a step. -/
def step {ρ : Type} (task : Task ρ) (crew : Crew ρ) (i : Nat) : Crew ρ :=
  let ⟨workers, shared⟩ := crew
  let (workers, shared) := stepAmong task i workers shared
  ⟨workers, shared⟩

/-- Let workers take steps in an order. -/
def run {ρ : Type} (task : Task ρ) (crew : Crew ρ) (order : List Nat) : Crew ρ :=
  order.foldl (step task) crew

/-- Whether all workers are done. -/
def isDone {ρ : Type} (crew : Crew ρ) : Bool :=
  crew.workers.all (·.isDone)

/-- Let one worker take several steps. -/
def runAlone {ρ : Type} (task : Task ρ) (i : Nat) : Nat → Crew ρ → Crew ρ
  | 0, crew => crew
  | n + 1, crew => runAlone task i n (crew.step task i)

/-- Let the first workers finish, one after the other. -/
def finishFirst {ρ : Type} (task : Task ρ) (steps : Nat) : Nat → Crew ρ → Crew ρ
  | 0, crew => crew
  | n + 1, crew => runAlone task n steps (finishFirst task steps n crew)

/-- Let all workers finish, one after the other. No worker has more rows than the image. -/
def finish {ρ : Type} (task : Task ρ) (crew : Crew ρ) : Crew ρ :=
  let steps := Worker.enoughSteps task.source.width task.source.height
  let count := crew.workers.length
  finishFirst task steps count crew

end Crew

end PixelEffects
