import PixelEffects.Effect
import PixelEffects.Effect.Worker

/-!
# Applying an Effect

An effect transforms an image pixel by pixel, on one sandbox or on several.

On one sandbox the pixels are taken row by row, and the first failure ends it. With workers, a
pool of threads is built for them first, and the rows are divided among them. Whether there can be a
pool with so many threads, how the rows are divided, and in which order the workers then take their
steps, is up to the machine; here it is a parameter, the plan, and its default is a pool whenever one
is asked for and one worker for all rows. Where there is a pool, the image and the error do not depend
on the plan as long as what the script does to a pixel does not depend on the pixels before it.

In both cases there is an image of the same size, or there is none.

## Main definitions

* `Plan`, `ApplyOptions`: What can be chosen.
* `Effect.sweep`: Transforming pixels on one sandbox.
* `Effect.runWorkers`: Dividing the rows among workers.
* `Effect.applySequential`, `Effect.applyParallel`, `Effect.apply`: An effect on an image.
-/

namespace PixelEffects

/-- What is up to the machine when there are workers. A pool is built for a number of threads, or for
    as many as the machine takes by itself, unless there is a reason why it cannot be. Rows are
    divided for an image with so many of them, and workers take steps in an order before they finish
    one after the other. -/
structure Plan where
  pool : Option Nat → Except String Unit
  rows : Nat → List (List Nat)
  order : List Nat

namespace Plan

/-- A pool whenever one is asked for, and rows and steps as they are given. -/
def pooled (rows : Nat → List (List Nat)) (order : List Nat) : Plan :=
  ⟨fun _ => .ok (), rows, order⟩

/-- One worker for all rows. -/
def single : Plan :=
  pooled (fun height => [List.range height]) []

/-- Build a pool. -/
def buildPool (plan : Plan) (threads : Option Nat) : Except Error Unit :=
  (plan.pool threads).mapError fun cause => .config (.noThreadPool cause)

end Plan

/-- What can be chosen when an effect is applied. -/
structure ApplyOptions where
  parallel : Bool := false
  threads : Option Nat := none
  plan : Plan := .single

namespace Image

/-- The coordinates of an image, row by row. -/
def coordinates (width height : Nat) : List (Nat × Nat) :=
  (List.range height).flatMap fun y => (List.range width).map fun x => (x, y)

end Image

namespace Effect

/-- What an effect does to a pixel of an image. -/
def task (effect : Effect) (source : Image) : Task Sandbox where
  effectId := effect.id
  source := source
  invoke sandbox p :=
    let (result, sandbox) := sandbox.invoke p
    (result.mapError .script, sandbox)

/-- Transform pixels one after the other, and write them into an image. -/
def sweep {ρ : Type} (task : Task ρ) : List (Nat × Nat) → ρ → Image → Operation Image
  | [], _, out => pure out
  | (x, y) :: rest, sandbox, out => do
    Operation.checkCancel
    match task.invoke sandbox (task.source.pixel x y) with
    | (.ok p, sandbox) => sweep task rest sandbox (out.set x y p.rgba)
    | (.error e, _) => Operation.fail e

/-- Apply an effect on one sandbox. -/
def applySequential (effect : Effect) (source : Image) : Operation Image := do
  let sandbox ← effect.spawn
  sweep (effect.task source) (Image.coordinates source.width source.height) sandbox
    (.blank source.width source.height)

/-- Make a sandbox for each list of rows. -/
def spawnAll (effect : Effect) :
    List (List Nat) → Operation (List (Except Error Sandbox × List Nat))
  | [] => pure []
  | rows :: rest => do
    let sandbox ← Operation.attempt effect.spawn
    let others ← spawnAll effect rest
    pure ((sandbox, rows) :: others)

/-- Let workers transform the rows of an image. -/
def runWorkers (effect : Effect) (plan : Plan) (source : Image) : Operation Image := do
  let workers ← spawnAll effect (plan.rows source.height)
  let task := effect.task source
  Operation.sharing fun cancel =>
    let crew := ((Crew.start task cancel workers).run task plan.order).finish task
    (crew.shared.result, crew.shared.cancel)

/-- Apply an effect with workers. Before any of them is made, there has to be a pool of threads. -/
def applyParallel (effect : Effect) (threads : Option Nat) (plan : Plan) (source : Image) :
    Operation Image := do
  Operation.ofExcept (plan.buildPool threads)
  runWorkers effect plan source

/-- Apply an effect to an image. An image without pixels needs no sandbox. -/
def apply (effect : Effect) (options : ApplyOptions) (source : Image) : Operation Image :=
  if options.threads == some 0 then Operation.fail (.config .noThreads)
  else if source.isEmpty then pure (.blank source.width source.height)
  else if options.parallel then applyParallel effect options.threads options.plan source
  else applySequential effect source

end Effect

end PixelEffects
