import PixelEffects.Proofs.Script.ChunkCache.Counts

/-!
# Callers of One Cache

What a cache counts and keeps when several callers take turns at it, in any order.

A fetch is not one step then. A caller looks its source up, counts a hit if something is kept for it,
and else parses the source, counts a miss and keeps the chunk. Between any two of these, others may do
the same or make the cache forget everything. Two of them may miss the same source, so that there are
more misses than chunks were ever kept, and a chunk may come to be kept after the chunks were forgotten.

Two things stay true nevertheless. A result that is given was counted, and what is counted beyond the
results belongs to callers that have yet to keep their chunk. And what a caller keeps is what it has
parsed, so every chunk was parsed from a source that is asked for under its number.

## Main definitions

* `CacheCaller`, `CallerGroup`: Callers on their way, and those of one cache.
* `CallerGroup.Accounted`: What stays true, in whatever order they take turns.

## Theorems

* `CacheCaller.step_counts`, `CacheCaller.step_honest`: What one step of a caller does.
* `CallerGroup.Accounted.run`: What any number of steps do.
* `CallerGroup.exists_run_alone`: A caller that nobody interrupts does one thing after the other.
* `cache_accounts`: What the counts and the chunks are, for one caller and for several.
-/

namespace PixelEffects

namespace Script

open ChunkCache (content)

/-- How far a caller is with a fetch. -/
inductive FetchStage
  | idle
  | found (chunk : Chunk)
  | absent (name source : String)
  | parsed (name source : String) (chunk : Chunk)
  | counted (name source : String) (chunk : Chunk)

/-- A caller of a cache: how far it is, and what it asks for after that. -/
structure CacheCaller where
  stage : FetchStage
  todo : List CacheOp

namespace CacheCaller

/-- Take a step: where the caller is then, what becomes of the cache, and the result of a fetch if one
    is over. -/
def step (c : CacheCaller) (cache : ChunkCache) :
    CacheCaller × ChunkCache × Option (Except Fault Chunk) :=
  match c.stage with
  | .idle =>
    match c.todo with
    | [] => (c, cache, none)
    | .clear :: todo => (⟨.idle, todo⟩, cache.clear, none)
    | .fetch name source :: todo =>
      match cache.find? (cache.key name source) with
      | some chunk => (⟨.found chunk, todo⟩, cache, none)
      | none => (⟨.absent name source, todo⟩, cache, none)
  | .found chunk => (⟨.idle, c.todo⟩, cache.countHit, some (.ok chunk))
  | .absent name source =>
    match parseChunk name source with
    | .error f => (⟨.idle, c.todo⟩, cache, some (.error f))
    | .ok chunk => (⟨.parsed name source chunk, c.todo⟩, cache, none)
  | .parsed name source chunk => (⟨.counted name source chunk, c.todo⟩, cache.countMiss, none)
  | .counted name source chunk =>
    (⟨.idle, c.todo⟩, cache.keep (cache.key name source) chunk, some (.ok chunk))

/-- The caller has no fetch that is not over. -/
def isIdle (c : CacheCaller) : Bool :=
  match c.stage with
  | .idle => true
  | _ => false

/-- The caller has counted a fetch that is not over. -/
def isCounted (c : CacheCaller) : Bool :=
  match c.stage with
  | .counted .. => true
  | _ => false

/-- Among these names and sources are all that a caller has to fetch and keep, and what it has parsed
    is what they are parsed to. -/
structure Honest (all : List (String × String)) (c : CacheCaller) : Prop where
  todo : ∀ p ∈ fetchesIn c.todo, p ∈ all
  stage : match c.stage with
    | .absent name source => (name, source) ∈ all
    | .parsed name source chunk => (name, source) ∈ all ∧ parseChunk name source = .ok chunk
    | .counted name source chunk => (name, source) ∈ all ∧ parseChunk name source = .ok chunk
    | _ => True

end CacheCaller

/-- Callers of one cache, and what their fetches have given so far. -/
structure CallerGroup where
  callers : List CacheCaller
  cache : ChunkCache
  returned : List (Except Fault Chunk)

namespace CallerGroup

/-- Callers that have not begun, each with what it is going to ask for. -/
def start (digest : Digest) (programs : List (List CacheOp)) : CallerGroup :=
  ⟨programs.map (CacheCaller.mk .idle), .empty digest, []⟩

/-- Let one of the callers take a step. -/
def step (g : CallerGroup) (i : Nat) : CallerGroup :=
  match g.callers[i]? with
  | none => g
  | some c =>
    let (c', cache, result) := c.step g.cache
    ⟨g.callers.set i c', cache, g.returned ++ result.toList⟩

/-- Let the callers take steps in some order. -/
def run (g : CallerGroup) (order : List Nat) : CallerGroup :=
  order.foldl step g

end CallerGroup

variable {all : List (String × String)} {digest : Digest}

/-- Every chunk of a cache was parsed from one of these names and sources, under its digest. -/
def KeepsParsed (all : List (String × String)) (digest : Digest) (cache : ChunkCache) : Prop :=
  cache.digest = digest ∧ ∀ k chunk, cache.find? k = some chunk →
    ∃ p ∈ all, digest (content p.1 p.2) = k ∧ parseChunk p.1 p.2 = .ok chunk

theorem keepsParsed_clear (cache : ChunkCache) : KeepsParsed all cache.digest cache.clear := by
  refine ⟨rfl, fun k chunk hfind => ?_⟩
  unfold ChunkCache.find? ChunkCache.clear at hfind
  rw [Std.TreeMap.getElem?_emptyc] at hfind
  cases hfind

theorem KeepsParsed.keep {cache : ChunkCache} (h : KeepsParsed all digest cache)
    {name source : String} {chunk : Chunk} (hp : (name, source) ∈ all)
    (hparse : parseChunk name source = .ok chunk) :
    KeepsParsed all digest (cache.keep (cache.key name source) chunk) := by
  refine ⟨h.1, fun k found hfind => ?_⟩
  unfold ChunkCache.find? ChunkCache.keep at hfind
  rw [Std.TreeMap.getElem?_insertIfNew] at hfind
  split at hfind
  next hnew =>
    cases hfind
    refine ⟨(name, source), hp, ?_, hparse⟩
    rw [← h.1]
    exact Std.LawfulEqCmp.compare_eq_iff_eq.mp hnew.1
  next => exact h.2 k found hfind

/-! ## One step -/

namespace CacheCaller

/-- What a step counts is a result that it gives, or one that is still to be given. -/
theorem step_counts (c : CacheCaller) (cache : ChunkCache) :
    (c.step cache).2.1.hits + (c.step cache).2.1.misses + c.isCounted.toNat =
      cache.hits + cache.misses + (c.step cache).2.2.toList.countP Except.isOk +
        (c.step cache).1.isCounted.toNat := by
  rcases c with ⟨stage, todo⟩
  cases stage with
  | idle =>
      rcases todo with - | ⟨- | -, todo⟩
      · rfl
      · unfold step
        dsimp only
        split <;> rfl
      · rfl
  | found chunk => exact congrArg (· + 0) (Nat.add_right_comm ..)
  | absent name source =>
      unfold step
      dsimp only
      split <;> rfl
  | parsed name source chunk => rfl
  | counted name source chunk => rfl

/-- A caller keeps nothing but what it has parsed. -/
theorem step_honest {c : CacheCaller} {cache : ChunkCache} (hc : c.Honest all)
    (hcache : KeepsParsed all digest cache) :
    (c.step cache).1.Honest all ∧ KeepsParsed all digest (c.step cache).2.1 := by
  rcases c with ⟨stage, todo⟩
  rcases hc with ⟨htodo, hstage⟩
  cases stage with
  | idle =>
      rcases todo with - | ⟨⟨name, source⟩ | -, todo⟩
      · exact ⟨⟨htodo, hstage⟩, hcache⟩
      · simp only [fetchesIn, List.forall_mem_cons] at htodo
        unfold step
        dsimp only
        split
        · exact ⟨⟨htodo.2, trivial⟩, hcache⟩
        · exact ⟨⟨htodo.2, htodo.1⟩, hcache⟩
      · exact ⟨⟨htodo, trivial⟩, hcache.1 ▸ keepsParsed_clear cache⟩
  | found chunk => exact ⟨⟨htodo, trivial⟩, hcache⟩
  | absent name source =>
      unfold step
      dsimp only
      split
      next => exact ⟨⟨htodo, trivial⟩, hcache⟩
      next chunk hparse => exact ⟨⟨htodo, hstage, hparse⟩, hcache⟩
  | parsed name source chunk => exact ⟨⟨htodo, hstage⟩, hcache⟩
  | counted name source chunk => exact ⟨⟨htodo, trivial⟩, hcache.keep hstage.1 hstage.2⟩

end CacheCaller

/-! ## All steps -/

namespace CallerGroup

/-- What is counted was given or is still to be given, the callers go on as they have to, and every
    chunk was parsed from a source. -/
structure Accounted (all : List (String × String)) (digest : Digest) (g : CallerGroup) : Prop where
  total : g.cache.hits + g.cache.misses =
    g.returned.countP Except.isOk + g.callers.countP CacheCaller.isCounted
  callers : ∀ c ∈ g.callers, c.Honest all
  parsed : KeepsParsed all digest g.cache

/-- Nobody who has no fetch on the way has counted one. -/
theorem countP_isCounted_of_idle {callers : List CacheCaller}
    (h : ∀ c ∈ callers, c.isIdle = true) : callers.countP CacheCaller.isCounted = 0 := by
  rw [List.countP_eq_zero]
  rintro ⟨stage, todo⟩ hc hcounted
  have hidle := h _ hc
  cases stage with
  | counted name source chunk => cases hidle
  | _ => cases hcounted

theorem accounted_start {programs : List (List CacheOp)}
    (h : ∀ ops ∈ programs, ∀ p ∈ fetchesIn ops, p ∈ all) :
    (start digest programs).Accounted all digest where
  total := by
    have hnone : (start digest programs).callers.countP CacheCaller.isCounted = 0 := by
      refine countP_isCounted_of_idle fun c hc => ?_
      rcases List.mem_map.mp hc with ⟨ops, -, rfl⟩
      rfl
    rw [hnone]
    rfl
  callers c hc := by
    rcases List.mem_map.mp hc with ⟨ops, hops, rfl⟩
    exact ⟨h ops hops, trivial⟩
  parsed := keepsParsed_clear (.empty digest)

/-- When one of them is replaced, those counted are fewer by the old one and more by the new one. -/
theorem countP_set_add {α : Type} (p : α → Bool) {l : List α} {i : Nat} (hi : i < l.length) (a : α) :
    (l.set i a).countP p + (p l[i]).toNat = l.countP p + (p a).toNat := by
  rw [List.countP_set hi]
  cases hold : p l[i] with
  | false => cases p a <;> rfl
  | true =>
      have hpos : 0 < l.countP p := List.countP_pos_iff.mpr ⟨_, List.getElem_mem hi, hold⟩
      cases p a <;> simp <;> omega

theorem Accounted.step {g : CallerGroup} (h : g.Accounted all digest) (i : Nat) :
    (g.step i).Accounted all digest := by
  unfold CallerGroup.step
  cases hget : g.callers[i]? with
  | none => exact h
  | some c =>
      rcases List.getElem?_eq_some_iff.mp hget with ⟨hi, hc⟩
      rcases CacheCaller.step_honest (h.callers c (List.mem_of_getElem? hget)) h.parsed with
        ⟨hhonest, hparsed⟩
      refine ⟨?_, fun c' hc' => ?_, hparsed⟩
      · -- One caller is replaced, so what is still to be given changes by what it has counted.
        have hcounts := c.step_counts g.cache
        have hset := countP_set_add CacheCaller.isCounted hi (c.step g.cache).1
        have htotal := h.total
        rw [hc] at hset
        change (c.step g.cache).2.1.hits + (c.step g.cache).2.1.misses =
          (g.returned ++ (c.step g.cache).2.2.toList).countP Except.isOk +
            (g.callers.set i (c.step g.cache).1).countP CacheCaller.isCounted
        rw [List.countP_append]
        omega
      · rcases List.mem_or_eq_of_mem_set hc' with hold | rfl
        · exact h.callers c' hold
        · exact hhonest

theorem Accounted.run {g : CallerGroup} (h : g.Accounted all digest) (order : List Nat) :
    (g.run order).Accounted all digest := by
  induction order generalizing g with
  | nil => exact h
  | cons i order ih => exact ih (h.step i)

/-- Once no caller is on its way, all that was counted was given. -/
theorem Accounted.total_of_idle {g : CallerGroup} (h : g.Accounted all digest)
    (hidle : ∀ c ∈ g.callers, c.isIdle = true) :
    g.cache.hits + g.cache.misses = g.returned.countP Except.isOk := by
  rw [h.total, countP_isCounted_of_idle hidle, Nat.add_zero]

/-! ## Nobody else -/

/-- A caller that nobody interrupts fetches like the cache does. -/
theorem exists_run_fetch (cache : ChunkCache) (name source : String) (todo : List CacheOp)
    (returned : List (Except Fault Chunk)) :
    ∃ order, (⟨[⟨.idle, .fetch name source :: todo⟩], cache, returned⟩ : CallerGroup).run order =
      ⟨[⟨.idle, todo⟩], (cache.fetch name source).2, returned ++ [(cache.fetch name source).1]⟩ := by
  cases hfind : cache.find? (cache.key name source) with
  | some chunk =>
      refine ⟨[0, 0], ?_⟩
      rw [ChunkCache.fetch_of_found hfind]
      simp [run, step, CacheCaller.step, hfind]
  | none =>
      cases hparse : parseChunk name source with
      | error f =>
          refine ⟨[0, 0], ?_⟩
          rw [ChunkCache.fetch_of_error hfind hparse]
          simp [run, step, CacheCaller.step, hfind, hparse]
      | ok chunk =>
          refine ⟨[0, 0, 0, 0], ?_⟩
          rw [ChunkCache.fetch_of_ok hfind hparse]
          simp [run, step, CacheCaller.step, hfind, hparse]
          rfl

/-- A caller that nobody interrupts does what it asks for, one thing after the other. -/
theorem exists_run_alone (cache : ChunkCache) (ops : List CacheOp)
    (returned : List (Except Fault Chunk)) :
    ∃ order, (⟨[⟨.idle, ops⟩], cache, returned⟩ : CallerGroup).run order =
      ⟨[⟨.idle, []⟩], (cache.serve ops).2, returned ++ (cache.serve ops).1⟩ := by
  induction ops generalizing cache returned with
  | nil => exact ⟨[], by simp [run, ChunkCache.serve]⟩
  | cons op ops ih =>
      cases op with
      | clear =>
          rcases ih cache.clear returned with ⟨order, horder⟩
          refine ⟨0 :: order, ?_⟩
          rw [ChunkCache.serve, ← horder, run, List.foldl_cons, ← run]
          simp [step, CacheCaller.step]
      | fetch name source =>
          rcases exists_run_fetch cache name source ops returned with ⟨first, hfirst⟩
          rcases ih (cache.fetch name source).2 (returned ++ [(cache.fetch name source).1]) with
            ⟨order, horder⟩
          refine ⟨first ++ order, ?_⟩
          rw [run, List.foldl_append, ← run, ← run, hfirst, horder, List.append_assoc]
          rfl

end CallerGroup

/-! ## The account -/

/-- What a cache counts and keeps, as long as its digest tells the texts apart that are asked for.

    Whatever was fetched and forgotten before: as many fetches were counted as gave a chunk, there is a
    chunk for each text that was parsed since the last clear, and no more chunks than misses. The next
    fetch is a hit exactly if its text is one of these, and leaves no trace if it fails. Clearing does
    not change the counts.

    In whatever order callers take turns: when all their fetches are over, as many were counted as gave
    a chunk. A chunk was parsed from a source that is asked for under its number. What else is asked for
    under that number has the same text to digest, and among names without a NUL it is parsed to the
    same chunk. A caller that is never interrupted does what the operations do. -/
theorem cache_accounts (digest : Digest) (all : List (String × String))
    (hdigest : ∀ p ∈ all, ∀ q ∈ all,
      digest (content p.1 p.2) = digest (content q.1 q.2) → content p.1 p.2 = content q.1 q.2) :
    (∀ ops : List CacheOp, (∀ p ∈ fetchesIn ops, p ∈ all) →
      let served := (ChunkCache.empty digest).serve ops
      ChunkCache.Counts (sinceClear [] ops) served.1 served.2 ∧
        (∀ p ∈ all, ChunkCache.FetchCounts (sinceClear [] ops) p served.2) ∧
        served.2.clear.hits = served.2.hits ∧ served.2.clear.misses = served.2.misses) ∧
    (∀ programs : List (List CacheOp), (∀ ops ∈ programs, ∀ p ∈ fetchesIn ops, p ∈ all) →
      ∀ order : List Nat,
        let g := (CallerGroup.start digest programs).run order
        ((∀ c ∈ g.callers, c.isIdle = true) →
          g.cache.hits + g.cache.misses = g.returned.countP Except.isOk) ∧
        ∀ k chunk, g.cache.find? k = some chunk → ∃ p ∈ all,
          digest (content p.1 p.2) = k ∧ parseChunk p.1 p.2 = .ok chunk ∧
          ∀ q ∈ all, digest (content q.1 q.2) = k → content q.1 q.2 = content p.1 p.2 ∧
            ('\x00' ∉ p.1.toList → '\x00' ∉ q.1.toList → parseChunk q.1 q.2 = .ok chunk)) ∧
    ∀ ops : List CacheOp, ∃ order, (CallerGroup.start digest [ops]).run order =
      ⟨[⟨.idle, []⟩], ((ChunkCache.empty digest).serve ops).2,
        ((ChunkCache.empty digest).serve ops).1⟩ := by
  refine ⟨fun ops hops => ?_, fun programs hprograms order => ?_, fun ops => ?_⟩
  · rcases (ChunkCache.Counts.empty digest).serve (.empty hdigest) ops hops with ⟨hkeeps, hcounts⟩
    exact ⟨hcounts, fun p hp => ChunkCache.fetchCounts hkeeps hp, rfl, rfl⟩
  · have haccounted : ((CallerGroup.start digest programs).run order).Accounted all digest :=
      (CallerGroup.accounted_start hprograms).run order
    refine ⟨haccounted.total_of_idle, fun k chunk hfind => ?_⟩
    rcases haccounted.parsed.2 k chunk hfind with ⟨p, hp, hkey, hparse⟩
    refine ⟨p, hp, hkey, hparse, fun q hq hkey' => ?_⟩
    have hcontent := hdigest q hq p hp (hkey'.trans hkey.symm)
    refine ⟨hcontent, fun hname hname' => ?_⟩
    rcases ChunkCache.content_inj hcontent hname' hname with ⟨hnames, hsources⟩
    rw [hnames, hsources, hparse]
  · exact CallerGroup.exists_run_alone (.empty digest) ops []

/-- Two callers that miss the same source, and of which one makes the cache forget it before the other
    keeps it. -/
theorem cache_accounts_racing :
    let g := (CallerGroup.start byteDigest
      [[.fetch "a.lua" "x = 1"], [.fetch "a.lua" "x = 1", .clear, .fetch "a.lua" "x = 1"]]).run
        [0, 1, 0, 1, 0, 1, 1, 1, 0, 1, 1]
    g.cache.hits + g.cache.misses = g.returned.countP Except.isOk ∧
      g.cache.hits = 1 ∧ g.cache.misses = 2 ∧ g.cache.size = 1 := by
  have htotal := fun programs order hprograms => ((cache_accounts byteDigest [("a.lua", "x = 1")]
    fun p _ q _ h => byteDigest_injective h).2.1 programs hprograms order).1
  exact ⟨htotal [[.fetch "a.lua" "x = 1"], [.fetch "a.lua" "x = 1", .clear, .fetch "a.lua" "x = 1"]]
    [0, 1, 0, 1, 0, 1, 1, 1, 0, 1, 1] (by decide) (by decide +kernel), by decide +kernel⟩

end Script

end PixelEffects
