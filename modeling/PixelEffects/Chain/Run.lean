import PixelEffects.Effect.Application

/-!
# Running a Chain

The stages of a chain are run one after the other, each on the image that the one before it has
made.

The effect of a stage is loaded when it is its turn, so a stage that cannot be loaded is found out
only when all stages before it have run. An error says in which stage it arose, counted from one.
A stop that the caller asked for is no error of a stage, and stays what it is.

## Main definitions

* `Stage.run`: One stage.
* `Stage.runAll`: Stages with the number of the first one.
* `Chain.run`: A chain.
-/

namespace PixelEffects

namespace Stage

/-- Load the effect of a stage and apply it. -/
def run (loader : EffectLoader) (options : ApplyOptions) (stage : Stage) (image : Image) :
    Operation Image := do
  let effect ← loader.load stage.effectId stage.params
  effect.apply options image

/-- An error as an error of a stage with a number. -/
def wrap (stage : Stage) (index : Nat) : Error → Error
  | .cancelled => .cancelled
  | e => .stage index stage.effectId e

/-- Run stages, of which the first has a number. -/
def runAll (loader : EffectLoader) (options : ApplyOptions) :
    Nat → List Stage → Image → Operation Image
  | _, [], image => pure image
  | index, stage :: rest, image => do
    Operation.checkCancel
    let out ← Operation.mapError (stage.wrap index) (stage.run loader options image)
    runAll loader options (index + 1) rest out

end Stage

namespace Chain

/-- Run the stages of a chain on an image. -/
def run (loader : EffectLoader) (options : ApplyOptions) (chain : Chain) (image : Image) :
    Operation Image :=
  Stage.runAll loader options 1 chain.stages image

end Chain

end PixelEffects
