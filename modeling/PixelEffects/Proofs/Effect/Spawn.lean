import PixelEffects.Effect
import PixelEffects.Proofs.Operation

/-!
# Making Sandboxes

What making a sandbox does to the session.

It loads scripts and looks at what they define, and only loading has to do with the session: chunks
are taken from the cache and put there. So the flag stays as it is. An effect that does not use the
cache has nothing to do with the session at all, and its sandboxes are all the same.

## Main definitions

* `Sandbox.Uncached`: A sandbox that does not use the cache.

## Theorems

* `Sandbox.spawn_keepsFlag`: Making a sandbox leaves the flag as it is.
* `Sandbox.spawn_detached`: Without a cache, making a sandbox has nothing to do with the session.
-/

namespace PixelEffects

namespace Sandbox

theorem loadScript_keepsFlag (sandbox : Sandbox) (p : Package) (s : ScriptFile) :
    (sandbox.loadScript p s).KeepsFlag := by
  intro session
  rcases sandbox with ⟨effectId, missing, caching, engine⟩
  unfold Operation.sessionAfter loadScript
  dsimp only
  rcases engine.load (if caching then session.cache else none) (p.chunkName s) s.source with
    ⟨result, engine', cache⟩
  -- Whether the script loads or not, only the cache is put back.
  cases result <;> cases caching <;> rfl

theorem loadScripts_keepsFlag (sandbox : Sandbox) (p : Package) :
    (sandbox.loadScripts p).KeepsFlag :=
  Operation.keepsFlag_foldlM (fun sandbox s => sandbox.loadScript_keepsFlag p s) p.scripts sandbox

theorem injectLib_keepsFlag (sandbox : Sandbox) (lib : Package) :
    (sandbox.injectLib lib).KeepsFlag := by
  refine Operation.keepsFlag_bind (loadScripts_keepsFlag sandbox lib) fun sandbox => ?_
  split
  · exact Operation.keepsFlag_pure sandbox
  · exact Operation.keepsFlag_fail _

theorem loadEffect_keepsFlag (sandbox : Sandbox) (effect : Package) :
    (sandbox.loadEffect effect).KeepsFlag := by
  refine Operation.keepsFlag_bind (loadScripts_keepsFlag sandbox effect) fun sandbox => ?_
  split
  · exact Operation.keepsFlag_pure sandbox
  · exact Operation.keepsFlag_fail _

theorem spawn_keepsFlag (engines : EngineSettings) (missing : MissingChannel) (effect : Package)
    (libs : List Package) (params : Params) :
    (spawn engines missing effect libs params).KeepsFlag :=
  Operation.keepsFlag_bind (Operation.keepsFlag_foldlM injectLib_keepsFlag libs _)
    fun sandbox => loadEffect_keepsFlag (sandbox.bindParams params) effect

/-- A sandbox without a cache. -/
def Uncached (sandbox : Sandbox) : Prop :=
  sandbox.caching = false

theorem loadScript_detached {sandbox : Sandbox} (h : sandbox.Uncached) (p : Package)
    (s : ScriptFile) : (sandbox.loadScript p s).Detached Uncached := by
  rcases sandbox with ⟨effectId, missing, caching, engine⟩
  have hcaching : caching = false := h
  subst hcaching
  rcases hload : engine.load none (p.chunkName s) s.source with ⟨result, engine', cache⟩
  cases result with
  | ok u =>
      refine ⟨.ok ⟨effectId, missing, false, engine'⟩, funext fun session => ?_, fun a ha => ?_⟩
      · -- The engine is asked to load without a cache, so the session is not looked at.
        unfold loadScript
        simp only [Bool.false_eq_true, if_false]
        rw [hload]
        rfl
      · cases ha
        rfl
  | error f =>
      refine ⟨.error (.script ⟨effectId, none, .fault f⟩), funext fun session => ?_,
        fun _ ha => by cases ha⟩
      unfold loadScript
      simp only [Bool.false_eq_true, if_false]
      rw [hload]
      rfl

theorem loadScripts_detached {sandbox : Sandbox} (h : sandbox.Uncached) (p : Package) :
    (sandbox.loadScripts p).Detached Uncached :=
  Operation.detached_foldlM (fun _ s hb => loadScript_detached hb p s) p.scripts h

theorem injectLib_detached {sandbox : Sandbox} (h : sandbox.Uncached) (lib : Package) :
    (sandbox.injectLib lib).Detached Uncached := by
  refine Operation.detached_bind (loadScripts_detached h lib) fun sandbox h => ?_
  split
  · exact Operation.detached_pure h
  · exact Operation.detached_fail _

theorem loadEffect_detached {sandbox : Sandbox} (h : sandbox.Uncached) (effect : Package) :
    (sandbox.loadEffect effect).Detached Uncached := by
  refine Operation.detached_bind (loadScripts_detached h effect) fun sandbox h => ?_
  split
  · exact Operation.detached_pure h
  · exact Operation.detached_fail _

/-- Without a cache, making a sandbox has nothing to do with the session. -/
theorem spawn_detached {engines : EngineSettings} (h : engines.caching = false)
    (missing : MissingChannel) (effect : Package) (libs : List Package) (params : Params) :
    (spawn engines missing effect libs params).Detached Uncached := by
  refine Operation.detached_bind
    (Operation.detached_foldlM (fun _ lib hb => injectLib_detached hb lib) libs h)
    fun sandbox hb => ?_
  have hbound : (sandbox.bindParams params).Uncached := hb
  exact loadEffect_detached hbound effect

end Sandbox

end PixelEffects
