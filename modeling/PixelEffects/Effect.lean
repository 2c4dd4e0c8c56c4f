import PixelEffects.Effect.Preload

/-!
# Effects

An effect that was loaded, and what loads it.

Loading resolves the package of the effect and the libs that it needs, and makes a sandbox once to
see that it can be made. That sandbox is thrown away: every run of the effect makes its own.
Nothing is kept between two loads except parsed chunks, so a changed file is seen by the next
load.

## Main definitions

* `Effect`: A package with its libs and parameters, ready to make sandboxes.
* `Effect.spawn`: A new sandbox.
* `EffectLoader`, `EffectLoader.load`: What effects are loaded with, and loading one.
-/

namespace PixelEffects

/-- An effect with the libs that it needs in the order in which they are run, and its parameters. -/
structure Effect where
  package : Package
  libs : List Package
  params : Params
  engines : EngineSettings
  missing : MissingChannel

namespace Effect

/-- The id of an effect. -/
def id (effect : Effect) : String :=
  effect.package.id

/-- A new sandbox for an effect. -/
def spawn (effect : Effect) : Operation Sandbox :=
  Sandbox.spawn effect.engines effect.missing effect.package effect.libs effect.params

end Effect

/-- What effects are loaded with. -/
structure EffectLoader where
  library : PackageLibrary
  config : SandboxConfig
  engines : EngineSettings

namespace EffectLoader

/-- A loader whose engines have the limits of the sandbox. -/
def ofLibrary (library : PackageLibrary) (config : SandboxConfig) (caching : Bool)
    (address : Script.Addressing) : EffectLoader :=
  ⟨library, config, ⟨config.limits, caching, address⟩⟩

/-- An effect and its libs, not yet tried out. -/
def find (loader : EffectLoader) (id : String) (params : Params) : Except Error Effect := do
  let package ← loader.library.resolve .effect id
  let libs ← loader.library.preloads loader.config.shadowing package
  pure ⟨package, libs, params, loader.engines, loader.config.missing⟩

/-- Load an effect. That its scripts run and define the entry is found out now, not at the first
    pixel. -/
def load (loader : EffectLoader) (id : String) (params : Params) : Operation Effect := do
  let effect ← Operation.ofExcept (loader.find id params)
  let _ ← effect.spawn
  pure effect

end EffectLoader

end PixelEffects
