import PixelEffects.Effect.Application
import PixelEffects.Proofs.Effect.Spawn
import PixelEffects.Proofs.Package

/-!
# What Effects Fail With

Which errors there are when a package is looked for, an effect is loaded, and an effect is applied.

A package that is not found, or is not read, fails with one of four errors. A walk through preloads
fails with one of those, or it reports a cycle. Scripts add two more. None of all these is a stop
that the caller asked for, and none is an error of a stage, so who wraps an error of an effect wraps
it once.

## Main definitions

* `Error.OfPackage`: An error of a package that was looked for.
* `Error.OfEffect`: An error of one effect that was not stopped.

## Theorems

* `PackageLibrary.ofPackage_of_resolve`: What looking for a package fails with.
* `Preload.error_cases`: What a walk through preloads fails with.
* `EffectLoader.load_failsWith`, `Effect.apply_failsWith`: What loading and applying fail with.
-/

namespace PixelEffects

namespace Error

/-- An error of a package that was looked for: it is not there, or it was not read. -/
inductive OfPackage : Error → Prop
  | notFound (kind : PackageKind) (id : String) : OfPackage (.notFound kind id)
  | malformed (id : String) (cause : PackageCause) : OfPackage (.malformedPackage id cause)
  | missingScript (id file : String) : OfPackage (.missingScript id file)
  | io (path : Path) (cause : OsError) : OfPackage (.io path cause)

/-- An error of one effect: neither a stop that the caller asked for nor an error of a stage. -/
def OfEffect : Error → Prop
  | .cancelled => False
  | .stage _ _ _ => False
  | _ => True

theorem OfPackage.ofEffect {e : Error} (h : OfPackage e) : OfEffect e := by
  cases h <;> trivial

end Error

/-! ## Packages -/

theorem Metadata.ofPackage_of_parse {id text : String} {e : Error} (h : parse id text = .error e) :
    e.OfPackage := by
  unfold parse at h
  split at h
  · cases h
  · cases h
    exact .malformed _ _

namespace PackageLibrary

variable {lib : PackageLibrary} {kind : PackageKind} {id : String} {dir : Path} {e : Error}

theorem eq_of_findDir_error (h : lib.findDir kind id = .error e) : e = .notFound kind id := by
  unfold findDir at h
  split at h
  · cases h
    rfl
  · dsimp only at h
    split at h
    · cases h
    · split at h
      · cases h
        rfl
      · split at h
        · cases h
        · cases h
          rfl

theorem ofPackage_of_readMetadata (h : lib.readMetadata kind id dir = .error e) :
    e.OfPackage := by
  unfold readMetadata at h
  split at h
  · exact Metadata.ofPackage_of_parse h
  · cases h
    exact .malformed _ _

theorem ofPackage_of_scriptsOf {metadata : Metadata}
    (h : lib.scriptsOf metadata kind dir = .error e) : e.OfPackage := by
  unfold scriptsOf at h
  split at h
  · cases h
  · cases h
  · unfold scriptNames at h
    rcases bind_eq_error h with h | ⟨_, _, h⟩
    · unfold orIo at h
      split at h
      · cases h
      · cases h
        exact .io _ _
    · cases h

theorem ofPackage_of_readScript {file : String} (h : lib.readScript id dir file = .error e) :
    e.OfPackage := by
  unfold readScript at h
  split at h
  · cases h
    exact .malformed _ _
  · split at h
    · cases h
    · cases h
      exact .missingScript _ _
    · cases h
      exact .io _ _

/-- A package that cannot be found fails with an error of a package. -/
theorem ofPackage_of_resolve (h : lib.resolve kind id = .error e) : e.OfPackage := by
  unfold resolve at h
  rcases bind_eq_error h with h | ⟨name, _, h⟩
  · rw [eq_of_findDir_error h]
    exact .notFound _ _
  rcases bind_eq_error h with h | ⟨metadata, _, h⟩
  · exact ofPackage_of_readMetadata h
  rcases bind_eq_error h with h | ⟨files, _, h⟩
  · exact ofPackage_of_scriptsOf h
  rcases bind_eq_error h with h | ⟨scripts, _, h⟩
  · rcases error_of_mapM h with ⟨file, _, hfile⟩
    exact ofPackage_of_readScript hfile
  · cases h

end PackageLibrary

/-! ## Preloads -/

namespace Preload

variable {find : String → Except Error Package} {shadowing : Shadowing}

/-- A walk fails with a cycle, or as a name fails that is looked for. -/
theorem error_cases {depth : Nat} {path : List String} {order : List Package} {names : List String}
    {e : Error} (h : visit find shadowing depth path order names = .error e) :
    (∃ cycle, e = .cyclicPreload cycle) ∨ ∃ name, find name = .error e := by
  induction depth generalizing path order names with
  | zero =>
      cases h
      exact .inl ⟨path, rfl⟩
  | succ depth ih =>
      rcases error_of_foldlM h with ⟨order, name, _, h⟩
      unfold visitLib at h
      split at h
      · next e' hfind =>
          cases h
          exact .inr ⟨name, hfind⟩
      · split at h
        · cases h
          exact .inl ⟨_, rfl⟩
        · split at h
          · cases h
          · split at h
            · next e' hbelow =>
                cases h
                exact ih hbelow
            · cases h

end Preload

/-! ## Effects -/

namespace Sandbox

open Error Operation

theorem loadScript_failsWith (sandbox : Sandbox) (p : Package) (s : ScriptFile) :
    (sandbox.loadScript p s).FailsWith OfEffect := by
  refine (loadScript_keepsFlag sandbox p s).failsWith fun session e session' h => ?_
  rcases sandbox with ⟨effectId, missing, caching, engine⟩
  unfold loadScript at h
  dsimp only at h
  split at h
  · cases h
  · cases h
    trivial

theorem loadScripts_failsWith (sandbox : Sandbox) (p : Package) :
    (sandbox.loadScripts p).FailsWith OfEffect :=
  failsWith_foldlM (fun sandbox s => sandbox.loadScript_failsWith p s) p.scripts sandbox

theorem injectLib_failsWith (sandbox : Sandbox) (lib : Package) :
    (sandbox.injectLib lib).FailsWith OfEffect := by
  refine failsWith_bind (loadScripts_failsWith sandbox lib) fun sandbox => ?_
  split
  · exact failsWith_pure sandbox
  · exact failsWith_fail trivial

theorem loadEffect_failsWith (sandbox : Sandbox) (effect : Package) :
    (sandbox.loadEffect effect).FailsWith OfEffect := by
  refine failsWith_bind (loadScripts_failsWith sandbox effect) fun sandbox => ?_
  split
  · exact failsWith_pure sandbox
  · exact failsWith_fail trivial

theorem spawn_failsWith (engines : EngineSettings) (missing : MissingChannel) (effect : Package)
    (libs : List Package) (params : Params) :
    (spawn engines missing effect libs params).FailsWith OfEffect :=
  failsWith_bind (failsWith_foldlM injectLib_failsWith libs _)
    fun sandbox => loadEffect_failsWith (sandbox.bindParams params) effect

end Sandbox

namespace EffectLoader

open Error Operation

theorem ofEffect_of_find {loader : EffectLoader} {id : String} {params : Params} {e : Error}
    (h : loader.find id params = .error e) : e.OfEffect := by
  unfold find at h
  rcases bind_eq_error h with h | ⟨package, _, h⟩
  · exact (PackageLibrary.ofPackage_of_resolve h).ofEffect
  rcases bind_eq_error h with h | ⟨libs, _, h⟩
  · rcases Preload.error_cases h with ⟨cycle, rfl⟩ | ⟨name, hname⟩
    · trivial
    · exact (PackageLibrary.ofPackage_of_resolve hname).ofEffect
  · cases h

/-- What cannot be found cannot be loaded, and nothing else happens. -/
theorem load_of_find_error {loader : EffectLoader} {id : String} {params : Params} {e : Error}
    (h : loader.find id params = .error e) (session : Session) :
    loader.load id params session = .error e session := by
  unfold load
  rw [h]
  rfl

/-- Loading an effect leaves the flag unset, and fails with an error of the effect. -/
theorem load_failsWith (loader : EffectLoader) (id : String) (params : Params) :
    (loader.load id params).FailsWith OfEffect := by
  refine failsWith_bind (failsWith_ofExcept fun e he => ofEffect_of_find he) fun effect => ?_
  refine failsWith_bind ?_ fun _ => failsWith_pure effect
  exact Sandbox.spawn_failsWith effect.engines effect.missing effect.package effect.libs
    effect.params

end EffectLoader

namespace Effect

open Error Operation

theorem sweep_failsWith (effect : Effect) (source : Image) (coordinates : List (Nat × Nat))
    (sandbox : Sandbox) (out : Image) :
    (sweep (effect.task source) coordinates sandbox out).FailsWith OfEffect := by
  induction coordinates generalizing sandbox out with
  | nil => exact failsWith_pure out
  | cons coordinate rest ih =>
      rcases coordinate with ⟨x, y⟩
      refine failsWith_bind failsWith_checkCancel fun _ => ?_
      have hinvoke : (effect.task source).invoke sandbox (source.pixel x y) =
          ((sandbox.invoke (source.pixel x y)).1.mapError .script,
            (sandbox.invoke (source.pixel x y)).2) := rfl
      have hsource : (effect.task source).source = source := rfl
      rw [hsource, hinvoke]
      cases (sandbox.invoke (source.pixel x y)).1 with
      | ok p => exact ih _ _
      | error e => exact failsWith_fail trivial

/-- Applying an effect on one sandbox leaves the flag unset, and fails with an error of the
    effect. -/
theorem apply_failsWith (effect : Effect) {options : ApplyOptions} (h : options.parallel = false)
    (source : Image) : (effect.apply options source).FailsWith OfEffect := by
  unfold apply
  split
  · exact failsWith_fail trivial
  · split
    · exact failsWith_pure _
    · rw [h]
      refine failsWith_bind ?_ fun sandbox => sweep_failsWith effect source _ sandbox _
      exact Sandbox.spawn_failsWith effect.engines effect.missing effect.package effect.libs
        effect.params

end Effect

end PixelEffects
