import Mathlib.Data.Finset.Card
import PixelEffects.Proofs.Script.SharedCache

/-!
# Counts of a Cache

What the counts of a cache say about what was asked of it.

A fetch that gives a chunk is counted, once, and one that fails leaves no trace. Which count it goes to
is decided by the past: the cache has a chunk for a text exactly if the text was parsed since the
chunks were last forgotten. Nothing of this looks at the cache, only at what was fetched, and at what of
it can be parsed.

A chunk is kept when a miss is counted and at no other time, so there are never more chunks than misses.

## Main definitions

* `CacheOp`, `ChunkCache.serve`: What is asked of a cache, and what it gives.
* `sinceClear`, `parsedTexts`: What was fetched since the last clear, and what was parsed of it.
* `ChunkCache.Counts`: The counts of a cache after some operations.
* `ChunkCache.FetchCounts`: What a fetch does to them.

## Theorems

* `KeepsFirst.isSome_find?`: The texts that a cache has chunks for.
* `ChunkCache.Counts.fetch`, `ChunkCache.Counts.serve`: One fetch, and all operations.
-/

namespace PixelEffects

namespace Script

open ChunkCache (content)

/-- What is asked of a cache. -/
inductive CacheOp
  | fetch (name source : String)
  | clear

/-- The names and sources that are fetched. -/
def fetchesIn : List CacheOp → List (String × String)
  | [] => []
  | .clear :: ops => fetchesIn ops
  | .fetch name source :: ops => (name, source) :: fetchesIn ops

/-- What was fetched since the chunks were last forgotten, with what had been fetched before. -/
def sinceClear (past : List (String × String)) : List CacheOp → List (String × String)
  | [] => past
  | .clear :: ops => sinceClear [] ops
  | .fetch name source :: ops => sinceClear (past ++ [(name, source)]) ops

/-- The texts to digest of those names and sources that can be parsed. -/
def parsedTexts (past : List (String × String)) : List String :=
  (past.filter fun p => (parseChunk p.1 p.2).toOption.isSome).map fun p => content p.1 p.2

variable {all past : List (String × String)} {p : String × String} {cache : ChunkCache}
variable {results : List (Except Fault Chunk)}

theorem parsedTexts_concat_of_ok {chunk : Chunk} (h : parseChunk p.1 p.2 = .ok chunk) :
    parsedTexts (past ++ [p]) = parsedTexts past ++ [content p.1 p.2] := by
  simp [parsedTexts, h, Except.toOption]

theorem parsedTexts_concat_of_error {f : Fault} (h : parseChunk p.1 p.2 = .error f) :
    parsedTexts (past ++ [p]) = parsedTexts past := by
  simp [parsedTexts, h, Except.toOption]

/-- A text that was parsed before is no new one, whether it can be parsed from this source or not. -/
theorem toFinset_parsedTexts_of_mem (h : content p.1 p.2 ∈ parsedTexts past) :
    (parsedTexts (past ++ [p])).toFinset = (parsedTexts past).toFinset := by
  cases hparse : parseChunk p.1 p.2 with
  | error f => rw [parsedTexts_concat_of_error hparse]
  | ok chunk =>
      rw [parsedTexts_concat_of_ok hparse, List.toFinset_append]
      exact Finset.union_eq_left.mpr (by simpa using h)

theorem card_parsedTexts_of_ok {chunk : Chunk} (h : content p.1 p.2 ∉ parsedTexts past)
    (hparse : parseChunk p.1 p.2 = .ok chunk) :
    (parsedTexts (past ++ [p])).toFinset.card = (parsedTexts past).toFinset.card + 1 := by
  rw [parsedTexts_concat_of_ok hparse, List.toFinset_append]
  exact Finset.card_union_of_disjoint (by simpa using h)

/-- The texts that something is kept for are those that were parsed. -/
theorem isSome_find?_serves :
    (past.find? (serves p)).isSome = true ↔ content p.1 p.2 ∈ parsedTexts past := by
  rw [List.find?_isSome]
  unfold parsedTexts
  simp only [serves, List.mem_map, List.mem_filter, Bool.and_eq_true, beq_iff_eq]
  exact exists_congr fun q => by rw [and_assoc, and_comm (a := content _ _ = _)]

/-- A cache has a chunk for the texts that were parsed, and for no others. -/
theorem KeepsFirst.isSome_find? (h : KeepsFirst all past cache) (hp : p ∈ all) :
    (cache.find? (cache.key p.1 p.2)).isSome = true ↔ content p.1 p.2 ∈ parsedTexts past := by
  rw [h.found p hp, ← isSome_find?_serves]
  cases hfind : past.find? (serves p) with
  | none => rfl
  | some q =>
      have hq := List.find?_some hfind
      simp only [serves, Bool.and_eq_true] at hq
      simp only [Option.bind_some, hq.2, Option.isSome_some]

namespace ChunkCache

/-! ## One fetch -/

theorem fetch_of_found {name source : String} {chunk : Chunk}
    (h : cache.find? (cache.key name source) = some chunk) :
    cache.fetch name source = (.ok chunk, cache.countHit) := by
  unfold fetch
  dsimp only
  rw [h]

theorem fetch_of_error {name source : String} {f : Fault}
    (h : cache.find? (cache.key name source) = none) (hparse : parseChunk name source = .error f) :
    cache.fetch name source = (.error f, cache) := by
  unfold fetch
  dsimp only
  rw [h, hparse]

theorem fetch_of_ok {name source : String} {chunk : Chunk}
    (h : cache.find? (cache.key name source) = none) (hparse : parseChunk name source = .ok chunk) :
    cache.fetch name source =
      (.ok chunk, cache.countMiss.keep (cache.key name source) chunk) := by
  unfold fetch
  dsimp only
  rw [h, hparse]

/-- Under a number that nothing is kept under, there is one chunk more afterwards. -/
theorem size_keep {k : Nat} (h : cache.find? k = none) (chunk : Chunk) :
    (cache.keep k chunk).size = cache.size + 1 := by
  have hnew : k ∉ cache.chunks := by
    rw [← Std.TreeMap.isSome_getElem?_iff_mem]
    exact Option.not_isSome_iff_eq_none.mpr h
  unfold size keep
  rw [Std.TreeMap.size_insertIfNew, if_neg hnew]

/-- What a fetch does to a cache after some others: which count it goes to, and that nothing remains of
    one that fails. -/
structure FetchCounts (past : List (String × String)) (p : String × String) (cache : ChunkCache) :
    Prop where
  hit : (cache.fetch p.1 p.2).2.hits = cache.hits + 1 ↔ content p.1 p.2 ∈ parsedTexts past
  failed : ∀ f, (cache.fetch p.1 p.2).1 = .error f → (cache.fetch p.1 p.2).2 = cache

theorem fetchCounts (h : KeepsFirst all past cache) (hp : p ∈ all) : FetchCounts past p cache := by
  have hparsed := h.isSome_find? hp
  cases hfind : cache.find? (cache.key p.1 p.2) with
  | some chunk =>
      rw [hfind] at hparsed
      refine ⟨?_, ?_⟩ <;> rw [fetch_of_found hfind]
      · exact iff_of_true rfl (hparsed.mp rfl)
      · exact fun f hf => by cases hf
  | none =>
      rw [hfind] at hparsed
      have hnew : content p.1 p.2 ∉ parsedTexts past := fun hmem => by cases hparsed.mpr hmem
      cases hparse : parseChunk p.1 p.2 with
      | error f =>
          refine ⟨?_, ?_⟩ <;> rw [fetch_of_error hfind hparse]
          · exact iff_of_false (Nat.ne_add_one _) hnew
          · exact fun _ _ => rfl
      | ok chunk =>
          refine ⟨?_, ?_⟩ <;> rw [fetch_of_ok hfind hparse]
          · exact iff_of_false (Nat.ne_add_one _) hnew
          · exact fun f hf => by cases hf

/-! ## All operations -/

/-- What the counts say after some results of fetches, of which the last ones are not forgotten. -/
structure Counts (past : List (String × String)) (results : List (Except Fault Chunk))
    (cache : ChunkCache) : Prop where
  total : cache.hits + cache.misses = results.countP Except.isOk
  size : cache.size = (parsedTexts past).toFinset.card
  size_le : cache.size ≤ cache.misses

theorem Counts.empty (digest : Digest) : Counts [] [] (.empty digest) :=
  ⟨rfl, rfl, Nat.le_refl 0⟩

theorem Counts.clear (h : Counts past results cache) : Counts [] results cache.clear :=
  ⟨h.total, rfl, Nat.zero_le _⟩

/-- A fetch is counted if it gives a chunk, and a chunk is kept if its text is new. -/
theorem Counts.fetch (h : Counts past results cache) (hkeeps : KeepsFirst all past cache)
    (hp : p ∈ all) :
    Counts (past ++ [p]) (results ++ [(cache.fetch p.1 p.2).1]) (cache.fetch p.1 p.2).2 := by
  have hparsed := hkeeps.isSome_find? hp
  rcases h with ⟨htotal, hsize, hle⟩
  cases hfind : cache.find? (cache.key p.1 p.2) with
  | some chunk =>
      rw [hfind] at hparsed
      rw [fetch_of_found hfind]
      refine ⟨?_, ?_, hle⟩
      · rw [List.countP_append, ← htotal]
        exact Nat.add_right_comm ..
      · rw [toFinset_parsedTexts_of_mem (hparsed.mp rfl)]
        exact hsize
  | none =>
      rw [hfind] at hparsed
      have hnew : content p.1 p.2 ∉ parsedTexts past := fun hmem => by cases hparsed.mpr hmem
      cases hparse : parseChunk p.1 p.2 with
      | error f =>
          rw [fetch_of_error hfind hparse]
          refine ⟨?_, ?_, hle⟩
          · rw [List.countP_append, htotal]
            rfl
          · rw [parsedTexts_concat_of_error hparse, hsize]
      | ok chunk =>
          have hmiss : cache.countMiss.find? (cache.key p.1 p.2) = none := hfind
          have hkeep : (cache.countMiss.keep (cache.key p.1 p.2) chunk).size = cache.size + 1 :=
            size_keep hmiss chunk
          rw [fetch_of_ok hfind hparse]
          refine ⟨?_, ?_, ?_⟩
          · rw [List.countP_append, ← htotal]
            rfl
          · rw [hkeep, card_parsedTexts_of_ok hnew hparse, hsize]
          · rw [hkeep]
            exact Nat.succ_le_succ hle

/-- Do what is asked of a cache, one thing after the other: what the fetches give, and the cache
    afterwards. -/
def serve (cache : ChunkCache) : List CacheOp → List (Except Fault Chunk) × ChunkCache
  | [] => ([], cache)
  | .clear :: ops => cache.clear.serve ops
  | .fetch name source :: ops =>
    let (result, cache) := cache.fetch name source
    let (results, cache) := cache.serve ops
    (result :: results, cache)

/-- The counts are right after all operations. The induction is on these, over what was asked
    before. -/
theorem Counts.serve (h : Counts past results cache) (hkeeps : KeepsFirst all past cache)
    (ops : List CacheOp) (hops : ∀ p ∈ fetchesIn ops, p ∈ all) :
    KeepsFirst all (sinceClear past ops) (cache.serve ops).2 ∧
      Counts (sinceClear past ops) (results ++ (cache.serve ops).1) (cache.serve ops).2 := by
  induction ops generalizing past results cache with
  | nil =>
      rw [ChunkCache.serve, List.append_nil]
      exact ⟨hkeeps, h⟩
  | cons op ops ih =>
      cases op with
      | clear =>
          have hcleared : KeepsFirst all [] cache.clear := by
            refine ⟨hkeeps.digests, fun p _ => ?_⟩
            simp [find?, ChunkCache.clear]
          exact ih h.clear hcleared hops
      | fetch name source =>
          simp only [fetchesIn, List.forall_mem_cons] at hops
          have hnext := ih (h.fetch hkeeps hops.1) (hkeeps.fetch hops.1).2 hops.2
          rw [List.append_assoc] at hnext
          exact hnext

end ChunkCache

end Script

end PixelEffects
