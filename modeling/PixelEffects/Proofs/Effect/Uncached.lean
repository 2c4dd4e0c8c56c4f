import PixelEffects.Chain.Run
import PixelEffects.Proofs.Effect.History
import PixelEffects.Proofs.Effect.Preload
import PixelEffects.Proofs.Effect.Spawn
import PixelEffects.Proofs.Script.ChunkCache

/-!
# Operations Without a Cache

Every operation does with a cache what it does without one.

For a session, a sandbox and an effect there is the same one that does not use the cache. An
operation *mirrors* another one if both come out alike when the second one runs in the session
without the cache, and if the cache that the first one leaves is faithful again. Scripts are loaded by
way of the cache and nothing else uses it. So loading a script is the only thing to look at, and it
mirrors itself when the name of its chunk has no NUL. Everything else is put together from that.

The scripts of a package that was found do have such names. It is enough to know this of an effect
that was loaded, and of its libs.

## Main definitions

* `Session.uncached`, `Sandbox.uncached`, `Effect.uncached`: The same without a cache.
* `Operation.Mirrors`: Two operations that differ by the cache only.
* `Effect.WellNamed`: No script of an effect or its libs has a NUL in its name.

## Theorems

* `Operation.mirrors_bind`, `Operation.mirrors_foldlM`: Sequences of operations.
* `Effect.spawn_mirrors`, `Effect.apply_mirrors`: Making sandboxes, and applying an effect.
* `EffectLoader.load_mirrors`: Loading an effect.
* `Chain.run_mirrors`: Running a chain.
-/

namespace PixelEffects

open Script

namespace Session

/-- A session without a cache. -/
def uncached (session : Session) : Session :=
  { session with cache := none }

/-- A session whose cache, if there is one, is faithful. -/
def Faithful (session : Session) : Prop :=
  FaithfulIfAny session.cache

end Session

namespace Operation

variable {α α' β β' γ : Type}

/-- The second operation ends without a cache like the first one, up to a view of results, and the
    first one leaves a faithful cache. -/
def Mirrors (view : α → α') (good : α → Prop) (op : Operation α) (op' : Operation α') : Prop :=
  ∀ session, session.Faithful →
    match op session with
    | .ok a session' =>
      op' session.uncached = .ok (view a) session'.uncached ∧ session'.Faithful ∧ good a
    | .error e session' => op' session.uncached = .error e session'.uncached ∧ session'.Faithful

/-- Two operations that come out the same, with a cache and without. -/
abbrev Alike (op op' : Operation α) : Prop :=
  Mirrors (fun a => a) (fun _ => True) op op'

variable {view : α → α'} {good : α → Prop} {view' : β → β'} {better : β → Prop}

theorem mirrors_pure {a : α} (h : good a) :
    Mirrors view good (pure a : Operation α) (pure (view a)) :=
  fun _ hsession => ⟨rfl, hsession, h⟩

theorem mirrors_fail (e : Error) :
    Mirrors view good (fail e : Operation α) (fail e : Operation α') :=
  fun _ hsession => ⟨rfl, hsession⟩

theorem mirrors_ofExcept {result : Except Error α} (h : ∀ a, result = .ok a → good a) :
    Mirrors view good (ofExcept result) (ofExcept (result.map view)) := by
  cases result with
  | ok a => exact mirrors_pure (h a rfl)
  | error e => exact mirrors_fail e

theorem mirrors_bind {op : Operation α} {op' : Operation α'} {next : α → Operation β}
    {next' : α' → Operation β'} (hop : Mirrors view good op op')
    (hnext : ∀ a, good a → Mirrors view' better (next a) (next' (view a))) :
    Mirrors view' better (op >>= next) (op' >>= next') := by
  intro session hsession
  have hfirst := hop session hsession
  simp only [bind, EStateM.bind]
  cases hrun : op session with
  | error e s =>
      rw [hrun] at hfirst
      rcases hfirst with ⟨hsame, hs⟩
      rw [hsame]
      exact ⟨rfl, hs⟩
  | ok a s =>
      rw [hrun] at hfirst
      rcases hfirst with ⟨hsame, hs, ha⟩
      rw [hsame]
      exact hnext a ha s hs

theorem mirrors_foldlM {op : β → γ → Operation β} {op' : β' → γ → Operation β'} {items : List γ}
    (hop : ∀ b, better b → ∀ c ∈ items, Mirrors view' better (op b c) (op' (view' b) c)) {b : β}
    (hb : better b) : Mirrors view' better (items.foldlM op b) (items.foldlM op' (view' b)) := by
  induction items generalizing b with
  | nil => exact mirrors_pure hb
  | cons c items ih =>
      rw [List.foldlM_cons, List.foldlM_cons]
      refine mirrors_bind (hop b hb c List.mem_cons_self) fun b' hb' => ?_
      exact ih (fun b hb c hc => hop b hb c (List.mem_cons_of_mem _ hc)) hb'

theorem mirrors_attempt {op : Operation α} {op' : Operation α'} (hop : Mirrors view good op op') :
    Mirrors (Except.map view) (fun _ => True) (attempt op) (attempt op') := by
  intro session hsession
  have hrun := hop session hsession
  unfold attempt
  cases hop : op session with
  | error e s =>
      rw [hop] at hrun
      rw [hrun.1]
      exact ⟨rfl, hrun.2, trivial⟩
  | ok a s =>
      rw [hop] at hrun
      rw [hrun.1]
      exact ⟨rfl, hrun.2.1, trivial⟩

theorem mirrors_mapError {op : Operation α} {op' : Operation α'} (f : Error → Error)
    (hop : Mirrors view good op op') : Mirrors view good (mapError f op) (mapError f op') := by
  intro session hsession
  have hrun := hop session hsession
  unfold mapError
  cases hop : op session with
  | error e s =>
      rw [hop] at hrun
      rw [hrun.1]
      exact ⟨rfl, hrun.2⟩
  | ok a s =>
      rw [hop] at hrun
      rw [hrun.1]
      exact ⟨rfl, hrun.2⟩

theorem outcome_of_alike {op op' : Operation α} (hop : Alike op op') {session : Session}
    (hsession : session.Faithful) : op.outcome session = op'.outcome session.uncached := by
  have hrun := hop session hsession
  unfold outcome
  cases hop : op session with
  | error e s =>
      rw [hop] at hrun
      rw [hrun.1]
  | ok a s =>
      rw [hop] at hrun
      rw [hrun.1]

/-- A look at the flag has nothing to do with the cache. -/
theorem mirrors_checkCancel : Alike checkCancel checkCancel := by
  intro session hsession
  rcases session with ⟨cache, cancel⟩
  cases cancel with
  | none => exact ⟨rfl, hsession, trivial⟩
  | some flag =>
      unfold checkCancel Session.uncached
      cases hset : flag.isSet with
      | true =>
          simp only [hset, if_true]
          exact ⟨trivial, hsession⟩
      | false =>
          simp only [hset, Bool.false_eq_true, if_false]
          exact ⟨trivial, hsession, trivial⟩

theorem mirrors_sharing (body : Option CancelFlag → Except Error α × Option CancelFlag) :
    Alike (sharing body) (sharing body) := by
  intro session hsession
  rcases session with ⟨cache, cancel⟩
  unfold sharing Session.uncached
  dsimp only
  rcases body cancel with ⟨result, cancel'⟩
  cases result with
  | ok a => exact ⟨rfl, hsession, trivial⟩
  | error e => exact ⟨rfl, hsession⟩

end Operation

open Operation

/-- No script of a package has a NUL in the name of its chunk. -/
def Package.WellNamed (p : Package) : Prop :=
  ∀ s ∈ p.scripts, '\x00' ∉ (p.chunkName s).toList

theorem PackageLibrary.wellNamed_of_resolve {lib : PackageLibrary} {kind : PackageKind}
    {id : String} {p : Package} (h : lib.resolve kind id = .ok p) : p.WellNamed :=
  fun _ hs => nul_not_mem_chunkName h hs

/-! ## Sandboxes -/

namespace Sandbox

/-- A sandbox that does not use the cache. -/
def uncached (sandbox : Sandbox) : Sandbox :=
  { sandbox with caching := false }

/-- Anything that is known of every sandbox. -/
abbrev Any : Sandbox → Prop :=
  fun _ => True

theorem loadScript_mirrors (sandbox : Sandbox) {p : Package} {s : ScriptFile}
    (h : '\x00' ∉ (p.chunkName s).toList) :
    Mirrors uncached Any (sandbox.loadScript p s) (sandbox.uncached.loadScript p s) := by
  intro session hsession
  rcases sandbox with ⟨effectId, missing, caching, engine⟩
  -- The cache that is used, if any, is faithful.
  have hused : FaithfulIfAny (if caching then session.cache else none) := by
    cases caching with
    | true => exact hsession
    | false => exact fun c hc => absurd hc (Option.not_mem_none c)
  rcases Engine.load_faithful hused h s.source engine with ⟨cache', hload, hcache'⟩
  unfold loadScript uncached Session.uncached
  simp only [Bool.false_eq_true, if_false]
  rw [hload]
  rcases engine.load none (p.chunkName s) s.source with ⟨result, engine', cache⟩
  have hafter : Session.Faithful
      (if caching then { session with cache := cache' } else session) := by
    cases caching with
    | true => exact hcache'
    | false => exact hsession
  have hforget : (if caching then { session with cache := cache' } else session).uncached =
      session.uncached := by
    cases caching <;> rfl
  cases result with
  | ok u => exact ⟨congrArg _ hforget.symm, hafter, trivial⟩
  | error f => exact ⟨congrArg _ hforget.symm, hafter⟩

theorem loadScripts_mirrors (sandbox : Sandbox) {p : Package} (h : p.WellNamed) :
    Mirrors uncached Any (sandbox.loadScripts p) (sandbox.uncached.loadScripts p) :=
  mirrors_foldlM (fun sandbox _ s hs => sandbox.loadScript_mirrors (h s hs)) trivial

theorem injectLib_mirrors (sandbox : Sandbox) {lib : Package} (h : lib.WellNamed) :
    Mirrors uncached Any (sandbox.injectLib lib) (sandbox.uncached.injectLib lib) := by
  refine mirrors_bind (sandbox.loadScripts_mirrors h) fun sandbox _ => ?_
  unfold uncached
  dsimp only
  split
  · exact mirrors_pure trivial
  · exact mirrors_fail _

theorem loadEffect_mirrors (sandbox : Sandbox) {effect : Package} (h : effect.WellNamed) :
    Mirrors uncached Any (sandbox.loadEffect effect) (sandbox.uncached.loadEffect effect) := by
  refine mirrors_bind (sandbox.loadScripts_mirrors h) fun sandbox _ => ?_
  unfold uncached
  dsimp only
  split
  · exact mirrors_pure trivial
  · exact mirrors_fail _

/-- What is done to a pixel has nothing to do with the cache. -/
theorem invoke_uncached (sandbox : Sandbox) (p : Pixel) :
    sandbox.uncached.invoke p = ((sandbox.invoke p).1, (sandbox.invoke p).2.uncached) :=
  rfl

end Sandbox

/-! ## Tasks that do not see a change -/

section Changes

variable {ρ : Type} {task : Task ρ} {f : ρ → ρ}

/-- What a task does to a pixel does not depend on what a change of sandboxes changes, and
    what becomes of the sandbox is changed the same way. -/
def Task.Respects (task : Task ρ) (f : ρ → ρ) : Prop :=
  ∀ r p, task.invoke (f r) p = ((task.invoke r p).1, f (task.invoke r p).2)

/-- A worker whose sandbox is changed. -/
def Worker.mapSandbox (f : ρ → ρ) (w : Worker ρ) : Worker ρ :=
  ⟨w.sandbox.map f, w.rows, w.position⟩

theorem Worker.step_mapSandbox (h : task.Respects f) (w : Worker ρ) (s : Shared) :
    (w.mapSandbox f).step task s = ((w.step task s).1.mapSandbox f, (w.step task s).2) := by
  rcases w with ⟨sandbox, rows, position⟩
  cases position with
  | between =>
      cases rows with
      | nil => rfl
      | cons y rows =>
          by_cases hskips : s.skips y = true
          · simp only [Worker.mapSandbox, step, begin, if_pos hskips]
          · cases sandbox <;> simp only [Worker.mapSandbox, step, begin, if_neg hskips] <;> rfl
  | before x y =>
      have hstep : ∀ sandbox : Except Error ρ,
          step task ⟨sandbox, rows, .before x y⟩ s = approach task sandbox rows x y s :=
        fun sandbox => step_before task sandbox rows x y s
      unfold Worker.mapSandbox
      dsimp only
      rw [hstep, hstep]
      unfold approach
      split
      · split <;> rfl
      · rfl
  | inside x y =>
      unfold Worker.mapSandbox
      dsimp only
      rw [step_inside, step_inside]
      cases sandbox with
      | error e => rfl
      | ok sandbox =>
          simp only [transform, Except.map]
          rw [h sandbox]
          rcases task.invoke sandbox (task.source.pixel x y) with ⟨result, sandbox'⟩
          cases result <;> rfl
  | leaving y e =>
      unfold Worker.mapSandbox
      dsimp only
      rw [step_leaving, step_leaving]

/-- A crew whose sandboxes are changed. -/
def Crew.mapSandbox (f : ρ → ρ) (crew : Crew ρ) : Crew ρ :=
  ⟨crew.workers.map (Worker.mapSandbox f), crew.shared⟩

theorem Crew.step_mapSandbox (h : task.Respects f) (crew : Crew ρ) (i : Nat) :
    (crew.mapSandbox f).step task i = (crew.step task i).mapSandbox f := by
  cases hw : crew.workers[i]? with
  | none =>
      have hw' : (crew.mapSandbox f).workers[i]? = none := by
        unfold Crew.mapSandbox
        rw [List.getElem?_map, hw]
        rfl
      rw [step_of_none hw, step_of_none hw']
  | some w =>
      have hw' : (crew.mapSandbox f).workers[i]? = some (w.mapSandbox f) := by
        unfold Crew.mapSandbox
        rw [List.getElem?_map, hw]
        rfl
      rw [step_of_some hw, step_of_some hw']
      unfold Crew.mapSandbox
      dsimp only
      rw [Worker.step_mapSandbox h, List.map_set]

theorem Crew.run_mapSandbox (h : task.Respects f) (crew : Crew ρ) (order : List Nat) :
    (crew.mapSandbox f).run task order = (crew.run task order).mapSandbox f := by
  unfold run
  induction order generalizing crew with
  | nil => rfl
  | cons i order ih =>
      rw [List.foldl_cons, List.foldl_cons, step_mapSandbox h]
      exact ih (crew.step task i)

theorem Crew.finish_mapSandbox (h : task.Respects f) (crew : Crew ρ) :
    (crew.mapSandbox f).finish task = (crew.finish task).mapSandbox f := by
  have horder : finishingOrder task (crew.mapSandbox f) = finishingOrder task crew := by
    unfold finishingOrder Crew.mapSandbox
    rw [List.length_map]
  rw [finish_eq_run, finish_eq_run, horder, run_mapSandbox h]

end Changes

/-! ## Effects -/

namespace EngineSettings

/-- Settings for engines that do not use the cache. -/
def uncached (engines : EngineSettings) : EngineSettings :=
  { engines with caching := false }

end EngineSettings

namespace Effect

/-- An effect that does not use the cache. -/
def uncached (effect : Effect) : Effect :=
  { effect with engines := effect.engines.uncached }

/-- No script of an effect or of its libs has a NUL in the name of its chunk. -/
structure WellNamed (effect : Effect) : Prop where
  package : effect.package.WellNamed
  libs : ∀ lib ∈ effect.libs, lib.WellNamed

variable {effect : Effect}

theorem spawn_mirrors (h : effect.WellNamed) :
    Mirrors Sandbox.uncached Sandbox.Any effect.spawn effect.uncached.spawn := by
  have hlibs : ∀ bare : Sandbox, Mirrors Sandbox.uncached Sandbox.Any
      (effect.libs.foldlM Sandbox.injectLib bare)
      (effect.libs.foldlM Sandbox.injectLib bare.uncached) := by
    intro bare
    refine mirrors_foldlM (fun sandbox _ lib hlib => ?_) trivial
    exact sandbox.injectLib_mirrors (h.libs lib hlib)
  refine mirrors_bind (hlibs _) fun sandbox _ => ?_
  exact (sandbox.bindParams effect.params).loadEffect_mirrors h.package

theorem task_respects (effect : Effect) (source : Image) :
    (effect.task source).Respects Sandbox.uncached := by
  intro sandbox p
  unfold task
  dsimp only
  rw [Sandbox.invoke_uncached]

theorem sweep_mirrors {task : Task Sandbox} (h : task.Respects Sandbox.uncached)
    (todo : List (Nat × Nat)) (sandbox : Sandbox) (out : Image) :
    Alike (sweep task todo sandbox out)
      (sweep task todo sandbox.uncached out) := by
  induction todo generalizing sandbox out with
  | nil => exact mirrors_pure trivial
  | cons coordinate rest ih =>
      rcases coordinate with ⟨x, y⟩
      refine mirrors_bind mirrors_checkCancel fun _ _ => ?_
      rw [h]
      rcases task.invoke sandbox (task.source.pixel x y) with ⟨result, sandbox'⟩
      cases result with
      | ok p => exact ih sandbox' (out.set x y p.rgba)
      | error e => exact mirrors_fail e

theorem applySequential_mirrors (h : effect.WellNamed) (source : Image) :
    Alike (effect.applySequential source)
      (effect.uncached.applySequential source) :=
  mirrors_bind (spawn_mirrors h) fun sandbox _ =>
    sweep_mirrors (effect.task_respects source) _ sandbox _

/-- A worker as it is started, with a sandbox that does not use the cache. -/
def startUncached (start : Except Error Sandbox × List Nat) : Except Error Sandbox × List Nat :=
  (start.1.map Sandbox.uncached, start.2)

theorem spawnAll_mirrors (h : effect.WellNamed) (rows : List (List Nat)) :
    Mirrors (List.map startUncached) (fun _ => True) (effect.spawnAll rows)
      (effect.uncached.spawnAll rows) := by
  induction rows with
  | nil => exact mirrors_pure trivial
  | cons row rows ih =>
      refine mirrors_bind (mirrors_attempt (spawn_mirrors h)) fun sandbox _ => ?_
      exact mirrors_bind ih fun others _ => mirrors_pure trivial

theorem runWorkers_mirrors (h : effect.WellNamed) (plan : Plan) (source : Image) :
    Alike (effect.runWorkers plan source)
      (effect.uncached.runWorkers plan source) := by
  refine mirrors_bind (spawnAll_mirrors h _) fun workers _ => ?_
  have hrespects := effect.task_respects source
  have hcrew : ∀ cancel, Crew.start (effect.task source) cancel (workers.map startUncached) =
      (Crew.start (effect.task source) cancel workers).mapSandbox Sandbox.uncached := by
    intro cancel
    unfold Crew.start Crew.mapSandbox
    rw [List.map_map, List.map_map]
    rfl
  have hshared : ∀ cancel, (((Crew.start (effect.task source) cancel
        (workers.map startUncached)).run (effect.task source) plan.order).finish
          (effect.task source)).shared =
      (((Crew.start (effect.task source) cancel workers).run (effect.task source)
        plan.order).finish (effect.task source)).shared := by
    intro cancel
    rw [hcrew, Crew.run_mapSandbox hrespects, Crew.finish_mapSandbox hrespects]
    rfl
  have hsame : effect.uncached.task source = effect.task source := rfl
  dsimp only
  rw [hsame]
  simp only [hshared]
  exact mirrors_sharing _

theorem applyParallel_mirrors (h : effect.WellNamed) (threads : Option Nat) (plan : Plan)
    (source : Image) : Alike (effect.applyParallel threads plan source)
      (effect.uncached.applyParallel threads plan source) := by
  -- The pool has nothing to do with the cache, and what building it gives is no part of a session.
  have hpool : Alike (Operation.ofExcept (plan.buildPool threads))
      (Operation.ofExcept (plan.buildPool threads)) := by
    cases plan.buildPool threads with
    | ok u => exact mirrors_pure trivial
    | error e => exact mirrors_fail e
  exact mirrors_bind hpool fun _ _ => runWorkers_mirrors h plan source

theorem apply_mirrors (h : effect.WellNamed) (options : ApplyOptions) (source : Image) :
    Alike (effect.apply options source)
      (effect.uncached.apply options source) := by
  unfold apply
  split
  · exact mirrors_fail _
  · split
    · exact mirrors_pure trivial
    · split
      · exact applyParallel_mirrors h options.threads options.plan source
      · exact applySequential_mirrors h source

end Effect

/-! ## Loading and chains -/

namespace EffectLoader

/-- A loader whose engines do not use the cache. -/
def uncached (loader : EffectLoader) : EffectLoader :=
  { loader with engines := loader.engines.uncached }

theorem find_uncached (loader : EffectLoader) (id : String) (params : Params) :
    loader.uncached.find id params = (loader.find id params).map Effect.uncached := by
  unfold find uncached
  dsimp only
  cases loader.library.resolve .effect id with
  | error e => rfl
  | ok package =>
      simp only [bind, Except.bind]
      cases loader.library.preloads loader.config.shadowing package <;> rfl

theorem wellNamed_of_find {loader : EffectLoader} {id : String} {params : Params}
    {effect : Effect} (h : loader.find id params = .ok effect) : effect.WellNamed := by
  unfold find at h
  rcases bind_eq_ok h with ⟨package, hpackage, h⟩
  rcases bind_eq_ok h with ⟨libs, hlibs, h⟩
  cases h
  refine ⟨PackageLibrary.wellNamed_of_resolve hpackage, fun lib hlib => ?_⟩
  rcases PackageLibrary.found_of_preloads hlibs lib hlib with ⟨name, hname⟩
  exact PackageLibrary.wellNamed_of_resolve hname

theorem load_mirrors (loader : EffectLoader) (id : String) (params : Params) :
    Mirrors Effect.uncached Effect.WellNamed (loader.load id params)
      (loader.uncached.load id params) := by
  unfold load
  rw [find_uncached]
  refine mirrors_bind (mirrors_ofExcept fun effect => wellNamed_of_find) fun effect h => ?_
  exact mirrors_bind (Effect.spawn_mirrors h) fun _ _ => mirrors_pure h

end EffectLoader

theorem Stage.runAll_mirrors (loader : EffectLoader) (options : ApplyOptions) (index : Nat)
    (stages : List Stage) (image : Image) :
    Alike (runAll loader options index stages image)
      (runAll loader.uncached options index stages image) := by
  induction stages generalizing index image with
  | nil => exact mirrors_pure trivial
  | cons stage rest ih =>
      have hstage : Alike (stage.run loader options image)
          (stage.run loader.uncached options image) :=
        mirrors_bind (loader.load_mirrors stage.effectId stage.params) fun effect h =>
          Effect.apply_mirrors h options image
      refine mirrors_bind mirrors_checkCancel fun _ _ => ?_
      exact mirrors_bind (mirrors_mapError (stage.wrap index) hstage) fun out _ => ih _ out

theorem Chain.run_mirrors (loader : EffectLoader) (options : ApplyOptions) (chain : Chain)
    (image : Image) :
    Alike (chain.run loader options image)
      (chain.run loader.uncached options image) :=
  Stage.runAll_mirrors loader options 1 chain.stages image

end PixelEffects
