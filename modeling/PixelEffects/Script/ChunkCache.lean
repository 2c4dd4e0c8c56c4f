import PixelEffects.Script.Syntax.Parser
import Std.Data.TreeMap

/-!
# Parsed Chunks, Kept

A source that was parsed before need not be parsed again.

A cache keeps parsed chunks under a digest of their name and source. The name belongs to it because
faults carry it. A source that does not parse is not kept and not counted: it fails the same way the
next time. Looking up, counting and keeping are separate steps, as they are for callers that share a
cache; a chunk that another caller kept in between stays.

## Main definitions

* `Digest`: A summary of a text.
* `ChunkCache`: Parsed chunks under their digests, and how often they were found.
* `ChunkCache.content`: What is digested.
* `ChunkCache.fetch`: The chunk of a source, from the cache or parsed.
-/

namespace PixelEffects

namespace Script

/-- A summary of a text as a number. -/
abbrev Digest := String → Nat

/-- The bytes of a text as the digits of a number, with a one in front. No two texts share it. -/
def byteDigest : Digest := fun s =>
  s.toUTF8.foldl (fun n b => 256 * n + b.toNat) 1

/-- Parsed chunks under their digests, with the numbers of fetches that found one and that did
    not. -/
structure ChunkCache where
  digest : Digest
  chunks : Std.TreeMap Nat Chunk
  hits : Nat
  misses : Nat

namespace ChunkCache

/-- A cache that holds nothing. -/
def empty (digest : Digest) : ChunkCache :=
  ⟨digest, ∅, 0, 0⟩

/-- The text that is digested for a chunk. -/
def content (name source : String) : String :=
  name ++ "\x00" ++ source

/-- The number that a chunk is kept under. -/
def key (cache : ChunkCache) (name source : String) : Nat :=
  cache.digest (content name source)

/-- The chunk that is kept under a number. -/
def find? (cache : ChunkCache) (k : Nat) : Option Chunk :=
  cache.chunks[k]?

/-- Count a fetch that found its chunk. -/
def countHit (cache : ChunkCache) : ChunkCache :=
  { cache with hits := cache.hits + 1 }

/-- Count a fetch that did not. -/
def countMiss (cache : ChunkCache) : ChunkCache :=
  { cache with misses := cache.misses + 1 }

/-- Keep a chunk, unless there is one under the number already. -/
def keep (cache : ChunkCache) (k : Nat) (chunk : Chunk) : ChunkCache :=
  { cache with chunks := cache.chunks.insertIfNew k chunk }

/-- How many chunks are kept. -/
def size (cache : ChunkCache) : Nat :=
  cache.chunks.size

/-- Forget the chunks, but not the counts. -/
def clear (cache : ChunkCache) : ChunkCache :=
  { cache with chunks := ∅ }

/-- The chunk of a source: the one that is kept, or else the parsed one, which is kept from now
    on. -/
def fetch (cache : ChunkCache) (name source : String) : Except Fault Chunk × ChunkCache :=
  let k := cache.key name source
  match cache.find? k with
  | some chunk => (.ok chunk, cache.countHit)
  | none =>
    match parseChunk name source with
    | .error f => (.error f, cache)
    | .ok chunk => (.ok chunk, cache.countMiss.keep k chunk)

end ChunkCache

/-- The chunk of a source, by way of a cache if there is one. -/
def fetchChunk (cache : Option ChunkCache) (name source : String) :
    Except Fault Chunk × Option ChunkCache :=
  match cache with
  | none => (parseChunk name source, none)
  | some cache =>
    let (chunk, cache) := cache.fetch name source
    (chunk, some cache)

end Script

end PixelEffects
