import PixelEffects.Proofs.Effect.Uncached

/-!
# Clients of a Library

What a client is told does not depend on whether parsed chunks are kept.

A client loads effects, makes sandboxes, has pixels transformed in them, applies effects to images and
runs chains, in any order and any number of times. Between two requests the files may become
whatever somebody makes of them. All that a client has is kept from one request to the next: the
effects that were loaded, the sandboxes that were made, and the cache.

The client without a cache is the one with a cache, as long as one does not look at the cache. One
request keeps it that way, and keeps the cache faithful, so any number of them do.

## Main definitions

* `Request`, `Answer`: What a client may ask for, and what it is told.
* `Client`, `Client.answer`, `Client.answers`: What a client has, and one request or several.
* `Client.uncached`, `Client.Faithful`: The client without a cache, and what is known of the cache.

## Theorems

* `Client.answer_uncached`, `Client.answers_uncached`: One request, and several.
* `Client.answers_withCache`: With an empty cache at first, the answers are those without one.
-/

namespace PixelEffects

open Script Operation

/-- What a client may ask for, and what may happen to the files in between. Effects and sandboxes are
    named by their number. -/
inductive Request
  | edit (tree : FileTree)
  | load (id : String) (params : Params)
  | spawn (effect : Nat)
  | invoke (sandbox : Nat) (p : Pixel)
  | apply (effect : Nat) (options : ApplyOptions) (cancel : Option CancelFlag) (source : Image)
  | run (chain : Chain) (options : ApplyOptions) (cancel : Option CancelFlag) (source : Image)

/-- What a client is told. A request on an effect or a sandbox that is not there is unknown. -/
inductive Answer
  | edited
  | unknown
  | effect (result : Except Error (Package × List Package × Params))
  | sandbox (result : Except Error Unit)
  | pixel (result : Except ScriptError Pixel)
  | image (result : Except Error Image)

/-- What a client has: what effects are loaded with, the cache, and what was loaded and made. -/
structure Client where
  loader : EffectLoader
  cache : Option ChunkCache
  effects : List Effect
  sandboxes : List Sandbox

namespace EffectLoader

/-- A loader whose engines use the cache. -/
def cached (loader : EffectLoader) : EffectLoader :=
  { loader with engines := { loader.engines with caching := true } }

/-- A loader that finds other files. -/
def onTree (loader : EffectLoader) (tree : FileTree) : EffectLoader :=
  { loader with library := { loader.library with tree := tree } }

end EffectLoader

namespace Client

/-- A client that has nothing, but may keep parsed chunks. -/
def withCache (digest : Digest) (loader : EffectLoader) : Client :=
  ⟨loader.cached, some (.empty digest), [], []⟩

/-- A client that has nothing and keeps no chunks. -/
def withoutCache (loader : EffectLoader) : Client :=
  ⟨loader.uncached, none, [], []⟩

/-- Perform an operation, and keep what it did to the cache. -/
def perform {α : Type} (c : Client) (cancel : Option CancelFlag) (op : Operation α) :
    Except Error α × Client :=
  match op ⟨c.cache, cancel⟩ with
  | .ok a session => (.ok a, { c with cache := session.cache })
  | .error e session => (.error e, { c with cache := session.cache })

/-- Keep an effect that was loaded. -/
def keepEffect (effect : Effect) (c : Client) : Client :=
  { c with effects := c.effects ++ [effect] }

/-- Keep a sandbox that was made. -/
def keepSandbox (sandbox : Sandbox) (c : Client) : Client :=
  { c with sandboxes := c.sandboxes ++ [sandbox] }

/-- What a client is told, and what it then has. -/
def answer (c : Client) : Request → Answer × Client
  | .edit tree => (.edited, { c with loader := c.loader.onTree tree })
  | .load id params =>
    match c.perform none (c.loader.load id params) with
    | (.ok effect, c) =>
      (.effect (.ok (effect.package, effect.libs, effect.params)), c.keepEffect effect)
    | (.error e, c) => (.effect (.error e), c)
  | .spawn i =>
    match c.effects[i]? with
    | none => (.unknown, c)
    | some effect =>
      match c.perform none effect.spawn with
      | (.ok sandbox, c) => (.sandbox (.ok ()), c.keepSandbox sandbox)
      | (.error e, c) => (.sandbox (.error e), c)
  | .invoke i p =>
    match c.sandboxes[i]? with
    | none => (.unknown, c)
    | some sandbox =>
      let (result, sandbox) := sandbox.invoke p
      (.pixel result, { c with sandboxes := c.sandboxes.set i sandbox })
  | .apply i options cancel source =>
    match c.effects[i]? with
    | none => (.unknown, c)
    | some effect =>
      let (result, c) := c.perform cancel (effect.apply options source)
      (.image result, c)
  | .run chain options cancel source =>
    let (result, c) := c.perform cancel (chain.run c.loader options source)
    (.image result, c)

/-- What a client is told in the course of several requests, and what it then has. -/
def answers (c : Client) : List Request → List Answer × Client
  | [] => ([], c)
  | request :: requests =>
    let (first, c) := c.answer request
    let (others, c) := answers c requests
    (first :: others, c)

/-- A client without the cache. -/
def uncached (c : Client) : Client :=
  ⟨c.loader.uncached, none, c.effects.map Effect.uncached, c.sandboxes.map Sandbox.uncached⟩

/-- A client with a faithful cache, if it has one, and effects whose scripts have names without a
    NUL. -/
structure Faithful (c : Client) : Prop where
  cache : FaithfulIfAny c.cache
  effects : ∀ effect ∈ c.effects, effect.WellNamed

theorem faithful_withCache {digest : Digest} (h : Function.Injective digest)
    (loader : EffectLoader) : (withCache digest loader).Faithful := by
  refine ⟨fun cache hcache => ?_, fun effect heffect => absurd heffect List.not_mem_nil⟩
  cases hcache
  exact ChunkCache.faithful_empty h

variable {c : Client}

/-- An operation that mirrors another one gives the client without the cache the same. -/
theorem perform_uncached {α α' : Type} {view : α → α'} {good : α → Prop} {op : Operation α}
    {op' : Operation α'} (h : c.Faithful) (cancel : Option CancelFlag)
    (hop : Mirrors view good op op') :
    ∃ result c', c.perform cancel op = (result, c') ∧
      c.uncached.perform cancel op' = (result.map view, c'.uncached) ∧ c'.Faithful ∧
      ∀ a, result = .ok a → good a := by
  have hrun := hop ⟨c.cache, cancel⟩ h.cache
  have hsession : (⟨c.cache, cancel⟩ : Session).uncached = ⟨none, cancel⟩ := rfl
  rw [hsession] at hrun
  cases hresult : op ⟨c.cache, cancel⟩ with
  | ok a session =>
      rw [hresult] at hrun
      rcases hrun with ⟨hsame, hcache, ha⟩
      refine ⟨.ok a, { c with cache := session.cache }, ?_, ?_, ⟨hcache, h.effects⟩, fun b hb => ?_⟩
      · unfold perform
        rw [hresult]
      · unfold perform uncached
        dsimp only
        rw [hsame]
        rfl
      · cases hb
        exact ha
  | error e session =>
      rw [hresult] at hrun
      rcases hrun with ⟨hsame, hcache⟩
      refine ⟨.error e, { c with cache := session.cache }, ?_, ?_, ⟨hcache, h.effects⟩,
        fun b hb => by cases hb⟩
      · unfold perform
        rw [hresult]
      · unfold perform uncached
        dsimp only
        rw [hsame]
        rfl

theorem uncached_keepEffect (effect : Effect) :
    (c.keepEffect effect).uncached = c.uncached.keepEffect effect.uncached := by
  unfold keepEffect uncached
  rw [List.map_append, List.map_singleton]

theorem uncached_keepSandbox (sandbox : Sandbox) :
    (c.keepSandbox sandbox).uncached = c.uncached.keepSandbox sandbox.uncached := by
  unfold keepSandbox uncached
  rw [List.map_append, List.map_singleton]

theorem Faithful.keepEffect (h : c.Faithful) {effect : Effect} (heffect : effect.WellNamed) :
    (c.keepEffect effect).Faithful := by
  refine ⟨h.cache, fun e he => ?_⟩
  rcases List.mem_append.mp he with he | he
  · exact h.effects e he
  · rw [List.mem_singleton.mp he]
    exact heffect

theorem uncached_effects (i : Nat) :
    c.uncached.effects[i]? = (c.effects[i]?).map Effect.uncached :=
  List.getElem?_map

theorem uncached_sandboxes (i : Nat) :
    c.uncached.sandboxes[i]? = (c.sandboxes[i]?).map Sandbox.uncached :=
  List.getElem?_map

/-- Without the cache a request is answered the same, and what the client then has is the same, but
    for the cache. With it, the cache stays faithful. -/
theorem answer_uncached (h : c.Faithful) (request : Request) :
    c.uncached.answer request = ((c.answer request).1, (c.answer request).2.uncached) ∧
      (c.answer request).2.Faithful := by
  cases request with
  | edit tree => exact ⟨rfl, h.cache, h.effects⟩
  | load id params =>
      rcases perform_uncached h none (c.loader.load_mirrors id params) with
        ⟨result, c', hrun, hsame, hafter, hgood⟩
      have hloader : c.uncached.loader = c.loader.uncached := rfl
      unfold answer
      dsimp only
      rw [hloader, hsame, hrun]
      cases result with
      | ok effect =>
          dsimp only [Except.map]
          rw [uncached_keepEffect]
          exact ⟨rfl, hafter.keepEffect (hgood effect rfl)⟩
      | error e => exact ⟨rfl, hafter⟩
  | spawn i =>
      unfold answer
      dsimp only
      rw [uncached_effects]
      cases heffect : c.effects[i]? with
      | none => exact ⟨rfl, h⟩
      | some effect =>
          have hnamed := h.effects effect (List.mem_of_getElem? heffect)
          rcases perform_uncached h none (Effect.spawn_mirrors hnamed) with
            ⟨result, c', hrun, hsame, hafter, _⟩
          dsimp only [Option.map]
          rw [hsame, hrun]
          cases result with
          | ok sandbox =>
              dsimp only [Except.map]
              rw [uncached_keepSandbox]
              exact ⟨rfl, hafter.cache, hafter.effects⟩
          | error e => exact ⟨rfl, hafter⟩
  | invoke i p =>
      unfold answer
      dsimp only
      rw [uncached_sandboxes]
      cases hsandbox : c.sandboxes[i]? with
      | none => exact ⟨rfl, h⟩
      | some sandbox =>
          dsimp only [Option.map]
          rw [Sandbox.invoke_uncached]
          refine ⟨?_, h.cache, h.effects⟩
          unfold uncached
          rw [List.map_set]
  | apply i options cancel source =>
      unfold answer
      dsimp only
      rw [uncached_effects]
      cases heffect : c.effects[i]? with
      | none => exact ⟨rfl, h⟩
      | some effect =>
          have hnamed := h.effects effect (List.mem_of_getElem? heffect)
          rcases perform_uncached h cancel (Effect.apply_mirrors hnamed options source) with
            ⟨result, c', hrun, hsame, hafter, _⟩
          dsimp only [Option.map]
          rw [hsame, hrun]
          cases result <;> exact ⟨rfl, hafter⟩
  | run chain options cancel source =>
      rcases perform_uncached h cancel (chain.run_mirrors c.loader options source) with
        ⟨result, c', hrun, hsame, hafter, _⟩
      have hloader : c.uncached.loader = c.loader.uncached := rfl
      unfold answer
      dsimp only
      rw [hloader, hsame, hrun]
      cases result <;> exact ⟨rfl, hafter⟩

/-- Without the cache all requests are answered the same. -/
theorem answers_uncached (h : c.Faithful) (requests : List Request) :
    (c.uncached.answers requests).1 = (c.answers requests).1 ∧
      (c.answers requests).2.Faithful := by
  induction requests generalizing c with
  | nil => exact ⟨rfl, h⟩
  | cons request requests ih =>
      rcases answer_uncached h request with ⟨hsame, hafter⟩
      rcases ih hafter with ⟨hrest, hfaithful⟩
      unfold answers
      dsimp only
      rw [hsame, hrest]
      exact ⟨rfl, hfaithful⟩

/-- A client that keeps parsed chunks is told what a client is told that does not. At the end, what is
    fetched for a script that can have been loaded is what parsing it gives, be it a chunk or a
    fault. -/
theorem answers_withCache {digest : Digest} (h : Function.Injective digest)
    (loader : EffectLoader) (requests : List Request) :
    ((withCache digest loader).answers requests).1 =
        ((withoutCache loader).answers requests).1 ∧
      ∀ name source, '\x00' ∉ name.toList →
        (fetchChunk ((withCache digest loader).answers requests).2.cache name source).1 =
          parseChunk name source := by
  rcases answers_uncached (faithful_withCache h loader) requests with ⟨hsame, hfaithful⟩
  refine ⟨hsame.symm, fun name source hname => ?_⟩
  exact (fetchChunk_faithful hfaithful.cache hname source).1

/-- Files with one effect, which has one script. -/
def treeOf (source : String) : FileTree :=
  ⟨.dir [("effects", .dir [("fx",
    EffectLoader.packageNode .effect "" Package.effectScript source)])], []⟩

/-- A loader for the effect of such files. -/
def loaderOf (source : String) : EffectLoader :=
  .ofLibrary ⟨treeOf source, ⟨"/"⟩⟩ {} true .spaced

/-- Load an effect, break its script, try to load it two times, mend it, load it again, and make
    sandboxes for the effect as it was and as it is. -/
def edits : List Request :=
  [.load "fx" ∅, .edit (treeOf "function effect(p)"), .load "fx" ∅, .load "fx" ∅,
    .edit (treeOf "function effect(p) return {} end"), .load "fx" ∅, .spawn 0, .spawn 1]

/-- How often chunks were found in the cache of a client, and how often not. -/
def counts (c : Client) : Option (Nat × Nat) :=
  c.cache.map fun cache => (cache.hits, cache.misses)

/-- Both sandboxes are made from chunks that were kept. -/
theorem answers_withCache_edits :
    ((withCache byteDigest (loaderOf "function effect(q) return {} end")).answers edits).2.counts =
        some (2, 2) ∧
      ((withCache byteDigest (loaderOf "function effect(q) return {} end")).answers edits).1 =
        ((withoutCache (loaderOf "function effect(q) return {} end")).answers edits).1 ∧
      ∀ name source, '\x00' ∉ name.toList →
        (fetchChunk ((withCache byteDigest
            (loaderOf "function effect(q) return {} end")).answers edits).2.cache name source).1 =
          parseChunk name source := by
  refine ⟨?_, answers_withCache byteDigest_injective _ edits⟩
  decide +kernel

end Client

end PixelEffects
