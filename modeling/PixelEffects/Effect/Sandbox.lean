import PixelEffects.Chain
import PixelEffects.Operation
import PixelEffects.Package

/-!
# Sandboxes

An engine that has one effect loaded.

A sandbox is made in three steps: the libs are run one after the other, then the parameters are
bound, then the effect itself is run. What has to come out is a global function named `effect`
with at least one parameter, and a lib must not define one. Parameters are bound last before the
effect, so a lib does not see them when it is loaded, but its functions do when they are called.

To transform a pixel, the function is called with a record of the coordinate and the channels, and
gives a record of channels. A channel that it leaves out is kept or cleared, as the policy says;
one that is there is rounded to the nearest integer, halves away from zero, and held inside the
range of a channel.

## Main definitions

* `Shadowing`, `MissingChannel`, `SandboxConfig`: What can be chosen.
* `Sandbox`: An engine with an effect.
* `EngineSettings`: How engines are made.
* `Sandbox.spawn`: The three steps.
* `Sandbox.invoke`: One pixel.
-/

namespace PixelEffects

/-- Which definition wins when two libs define the same global. -/
inductive Shadowing
  | lastWins
  | firstWins
deriving Repr, DecidableEq

/-- What a channel is that an effect leaves out. -/
inductive MissingChannel
  | preserve
  | zero
deriving Repr, DecidableEq

/-- What can be chosen about sandboxes. -/
structure SandboxConfig where
  shadowing : Shadowing := .lastWins
  missing : MissingChannel := .preserve
  limits : Script.Limits := {}
deriving Repr, DecidableEq

/-- How engines are made: with which limits, and whether they share the cache. -/
structure EngineSettings where
  limits : Script.Limits
  caching : Bool
  address : Script.Addressing

/-- An engine with one effect. -/
structure Sandbox where
  effectId : String
  missing : MissingChannel
  caching : Bool
  engine : Script.Engine

namespace Sandbox

/-- The global function that every effect has. -/
def entryName : String := "effect"

/-- The global that the parameters are bound to. -/
def paramsName : String := "params"

/-- Run a script of a package. -/
def loadScript (sandbox : Sandbox) (p : Package) (s : ScriptFile) : Operation Sandbox :=
  fun session =>
    let ⟨effectId, missing, caching, engine⟩ := sandbox
    let cache := if caching then session.cache else none
    match engine.load cache (p.chunkName s) s.source with
    | (result, engine, cache) =>
      let session := if caching then { session with cache := cache } else session
      match result with
      | .ok _ => .ok ⟨effectId, missing, caching, engine⟩ session
      | .error f => .error (.script ⟨effectId, none, .fault f⟩) session

/-- Run all scripts of a package. -/
def loadScripts (sandbox : Sandbox) (p : Package) : Operation Sandbox :=
  p.scripts.foldlM (fun sandbox s => sandbox.loadScript p s) sandbox

/-- Run a lib, which must not define the entry. -/
def injectLib (sandbox : Sandbox) (lib : Package) : Operation Sandbox := do
  let sandbox ← sandbox.loadScripts lib
  if sandbox.engine.entryPoint entryName == .missing then pure sandbox
  else Operation.fail (.invalidEffect sandbox.effectId (.reservedByLib lib.id))

/-- Bind the parameters, as texts. -/
def bindParams (sandbox : Sandbox) (params : Params) : Sandbox :=
  { sandbox with
    engine := sandbox.engine.bind paramsName
      (.record (params.toList.map fun p => (p.1, .text p.2))) }

/-- Why what an effect defined is no entry. -/
def entryCause : Script.EntryPoint → Option EffectCause
  | .function 0 => some .withoutParameter
  | .function _ => none
  | .native => some .builtinEntry
  | .missing => some .withoutEntry
  | .notCallable type => some (.notAFunction type)

/-- Run the effect, which has to define the entry. -/
def loadEffect (sandbox : Sandbox) (effect : Package) : Operation Sandbox := do
  let sandbox ← sandbox.loadScripts effect
  match entryCause (sandbox.engine.entryPoint entryName) with
  | none => pure sandbox
  | some cause => Operation.fail (.invalidEffect sandbox.effectId cause)

/-- A new sandbox for an effect: its libs, its parameters, and itself. -/
def spawn (engines : EngineSettings) (missing : MissingChannel) (effect : Package)
    (libs : List Package) (params : Params) : Operation Sandbox := do
  let engine := Script.Engine.new ⟨engines.limits, engines.address⟩
  let bare : Sandbox := ⟨effect.id, missing, engines.caching, engine⟩
  let sandbox ← libs.foldlM injectLib bare
  (sandbox.bindParams params).loadEffect effect

/-- A pixel as an effect gets it. -/
def pixelRecord (p : Pixel) : Script.HostValue :=
  .record
    [("a", .number (Float.ofNat p.rgba.a.toNat)), ("b", .number (Float.ofNat p.rgba.b.toNat)),
     ("g", .number (Float.ofNat p.rgba.g.toNat)), ("r", .number (Float.ofNat p.rgba.r.toNat)),
     ("x", .number (Float.ofNat p.x)), ("y", .number (Float.ofNat p.y))]

/-- A channel of a result. -/
def channel? (missing : MissingChannel) (result : Script.HostValue) (name : String)
    (current : UInt8) : Except ScriptCause UInt8 :=
  match result.field? name with
  | none | some .nil =>
    .ok (match missing with
      | .preserve => current
      | .zero => 0)
  | some (.number x) =>
    if x.isNaN then .error (.channelNaN name)
    else .ok (UInt8.ofNat (Number.clampedNearest 0 255 x).toNat)
  | some v => .error (.channelType name v.type)

/-- The channels that the result of an effect gives for a pixel. -/
def coerce (missing : MissingChannel) (p : Pixel) (result : Script.HostValue) :
    Except ScriptCause Pixel :=
  match result with
  | .record _ => do
    let r ← channel? missing result "r" p.rgba.r
    let g ← channel? missing result "g" p.rgba.g
    let b ← channel? missing result "b" p.rgba.b
    let a ← channel? missing result "a" p.rgba.a
    pure ⟨p.x, p.y, ⟨r, g, b, a⟩⟩
  | v => .error (.notATable v.type)

/-- Transform one pixel. The sandbox keeps what the script did, also after a fault. -/
def invoke (sandbox : Sandbox) (p : Pixel) : Except ScriptError Pixel × Sandbox :=
  let ⟨effectId, missing, caching, engine⟩ := sandbox
  let (result, engine) := engine.call entryName [pixelRecord p]
  let outcome : Except ScriptCause Pixel :=
    match result with
    | .error f => .error (.fault f)
    | .ok v => coerce missing p v
  (outcome.mapError fun cause => ⟨effectId, some (p.x, p.y), cause⟩,
    ⟨effectId, missing, caching, engine⟩)

end Sandbox

end PixelEffects
