import Mathlib.Logic.Function.Basic
import PixelEffects.Proofs.Script.ChunkCache
import PixelEffects.Proofs.Script.Host

/-!
# Engines That Share a Cache

What it comes to when several engines load by way of one cache.

A cache knows a source by the digest of its name and text, put together with a NUL between them. The
digest may tell all texts apart, and still the text that is digested does not: when a name has a NUL
itself, it can also be read as a shorter name and a longer source. Two loads with the same text to
digest are one to the cache, and the second is served with the chunk of the first, whatever it says
itself and also if it does not parse.

That is all that can go wrong. What an engine does is always what it would do without a cache if each
source was replaced by the one that it is served with, and where no two sources that are loaded are
taken for one another, nothing is replaced.

## Main definitions

* `EngineGroup`, `SharedOp`: Several engines with one cache, and what is asked of them.
* `servedBy`: The source that a load is served with.
* `KeepsFirst`: A cache after some loads.

## Theorems

* `content_eq_iff`: When a name and a source are taken for others.
* `KeepsFirst.fetch`: What a fetch gives, and what the cache keeps afterwards.
* `shared_cache_served`: What engines with a shared cache answer.
* `shared_cache_ambiguous`: Two sources of which one is served for the other.
-/

namespace PixelEffects

namespace Script

open ChunkCache (content)

/-! ## Texts that are digested -/

/-- Two lists with a mark between two parts are the same if the parts are, or if the mark of the one
    is further on than that of the other and what is between them belongs to another part. -/
theorem append_cons_eq_iff {α : Type} {x : α} {l l' r r' : List α} :
    l ++ x :: r = l' ++ x :: r' ↔ (l = l' ∧ r = r') ∨
      ∃ mid, (l' = l ++ x :: mid ∧ r = mid ++ x :: r') ∨ (l = l' ++ x :: mid ∧ r' = mid ++ x :: r) := by
  constructor
  · intro h
    rcases List.append_eq_append_iff.mp h with ⟨mid, hl, hr⟩ | ⟨mid, hl, hr⟩
    · -- What one prefix is longer by begins with the mark, unless it is empty.
      cases mid with
      | nil => simp_all
      | cons y mid =>
          rcases List.cons.inj hr with ⟨rfl, hrest⟩
          exact Or.inr ⟨mid, Or.inl ⟨hl, hrest⟩⟩
    · cases mid with
      | nil => simp_all
      | cons y mid =>
          rcases List.cons.inj hr with ⟨rfl, hrest⟩
          exact Or.inr ⟨mid, Or.inr ⟨hl, hrest⟩⟩
  · rintro (⟨rfl, rfl⟩ | ⟨mid, ⟨rfl, rfl⟩ | ⟨rfl, rfl⟩⟩) <;> simp

/-- Different pairs of a name and a source are digested as the same text exactly if one name goes on
    behind a NUL with the beginning of the other source, up to a NUL in that. -/
theorem content_eq_iff (name source name' source' : String) :
    content name source = content name' source' ↔ (name = name' ∧ source = source') ∨
      ∃ mid, (name' = name ++ "\x00" ++ mid ∧ source = mid ++ "\x00" ++ source') ∨
        (name = name' ++ "\x00" ++ mid ∧ source' = mid ++ "\x00" ++ source) := by
  have hnul : "\x00".toList = ['\x00'] := by decide
  have hlist : content name source = content name' source' ↔
      name.toList ++ '\x00' :: source.toList = name'.toList ++ '\x00' :: source'.toList := by
    rw [← String.toList_inj]
    simp only [content, String.toList_append, hnul, List.append_assoc, List.singleton_append]
  rw [hlist, append_cons_eq_iff, String.toList_inj, String.toList_inj]
  simp only [← String.toList_inj, String.toList_append, hnul, List.append_assoc,
    List.singleton_append]
  -- The part between the two marks is a text on the one side and a list on the other.
  refine or_congr Iff.rfl ⟨?_, ?_⟩
  · rintro ⟨mid, h⟩
    exact ⟨String.ofList mid, by simpa using h⟩
  · rintro ⟨mid, h⟩
    exact ⟨mid.toList, h⟩

/-! ## Engines with one cache -/

/-- What is asked of several engines: that one of them loads a source, or anything else of one. -/
inductive SharedOp
  | load (engine : Nat) (name source : String)
  | ask (engine : Nat) (op : HostOp)

/-- Several engines, and the cache by way of which they load, if there is one. -/
structure EngineGroup where
  engines : Nat → Engine
  cache : Option ChunkCache

namespace EngineGroup

/-- Do what is asked of one of the engines. -/
def answer (g : EngineGroup) : SharedOp → HostAnswer × EngineGroup
  | .load i name source =>
    let (result, e, cache) := (g.engines i).load g.cache name source
    (.ran result, ⟨Function.update g.engines i e, cache⟩)
  | .ask i op =>
    let (answer, e) := (g.engines i).answer op
    (answer, ⟨Function.update g.engines i e, g.cache⟩)

/-- Do what is asked, one thing after the other. -/
def answers (g : EngineGroup) : List SharedOp → List HostAnswer × EngineGroup
  | [] => ([], g)
  | op :: ops =>
    let (answer, g) := g.answer op
    let (rest, g) := g.answers ops
    (answer :: rest, g)

end EngineGroup

/-- The names and sources that are loaded. -/
def loadsOf : List SharedOp → List (String × String)
  | [] => []
  | .load _ name source :: ops => (name, source) :: loadsOf ops
  | .ask .. :: ops => loadsOf ops

/-- A name and a source are kept for others: they can be parsed, and the text to digest is the same. -/
def serves (p q : String × String) : Bool :=
  content q.1 q.2 == content p.1 p.2 && (parseChunk q.1 q.2).toOption.isSome

/-- What is loaded for a name and a source after others were loaded: the first one of these that is
    kept for it, or itself if there is none. -/
def servedBy (past : List (String × String)) (p : String × String) : String × String :=
  (past.find? (serves p)).getD p

/-- The operations with each load replaced by the one that it is served with. -/
def served (past : List (String × String)) : List SharedOp → List SharedOp
  | [] => []
  | .load i name source :: ops =>
    let q := servedBy past (name, source)
    .load i q.1 q.2 :: served (past ++ [(name, source)]) ops
  | .ask i op :: ops => .ask i op :: served past ops

/-! ## What is kept -/

/-- What a cache has for some sources after some loads: for each the chunk of the first one that was
    loaded and is kept for it. Among these sources the digest tells texts apart. -/
structure KeepsFirst (all past : List (String × String)) (cache : ChunkCache) : Prop where
  digests : ∀ p ∈ all, ∀ q ∈ all, cache.key p.1 p.2 = cache.key q.1 q.2 →
    content p.1 p.2 = content q.1 q.2
  found : ∀ p ∈ all, cache.find? (cache.key p.1 p.2) =
    (past.find? (serves p)).bind fun q => (parseChunk q.1 q.2).toOption

/-- A source that is kept for the same ones as another can be looked for in its place. -/
theorem serves_congr {p q : String × String} (h : content p.1 p.2 = content q.1 q.2) :
    serves p = serves q := by
  funext r
  simp only [serves, h]

theorem serves_self (p : String × String) :
    serves p p = (parseChunk p.1 p.2).toOption.isSome := by
  simp [serves]

theorem serves_eq_false {p q : String × String} (h : content q.1 q.2 ≠ content p.1 p.2) :
    serves p q = false := by
  simp [serves, h]

namespace KeepsFirst

variable {all past : List (String × String)} {cache : ChunkCache}

theorem empty {digest : Digest} (h : ∀ p ∈ all, ∀ q ∈ all,
    digest (content p.1 p.2) = digest (content q.1 q.2) → content p.1 p.2 = content q.1 q.2) :
    KeepsFirst all [] (.empty digest) := by
  refine ⟨h, fun p _ => ?_⟩
  simp [ChunkCache.find?, ChunkCache.empty]

/-- Where nothing is kept for a source, none of the earlier ones was. -/
theorem find?_eq_none (h : KeepsFirst all past cache) {p : String × String} (hp : p ∈ all)
    (hfind : cache.find? (cache.key p.1 p.2) = none) : past.find? (serves p) = none := by
  rw [h.found p hp] at hfind
  cases hserves : past.find? (serves p) with
  | none => rfl
  | some q =>
      have hq := List.find?_some hserves
      simp only [serves, Bool.and_eq_true] at hq
      simp only [hserves, Option.bind_some] at hfind
      rw [hfind] at hq
      cases hq.2

/-- A source that is not kept for anything changes nothing. -/
theorem skip (h : KeepsFirst all past cache) {p : String × String}
    (hskip : ∀ p' ∈ all, past.find? (serves p') = none → serves p' p = false) :
    KeepsFirst all (past ++ [p]) cache := by
  refine ⟨h.digests, fun p' hp' => ?_⟩
  rw [h.found p' hp', List.find?_append]
  cases hfind : past.find? (serves p') with
  | some q => rfl
  | none => simp [hskip p' hp' hfind]

/-- A new source is kept for all that have the same text to digest. -/
theorem keep (h : KeepsFirst all past cache) {p : String × String} (hp : p ∈ all) {chunk : Chunk}
    (hfind : cache.find? (cache.key p.1 p.2) = none)
    (hparse : parseChunk p.1 p.2 = .ok chunk) :
    KeepsFirst all (past ++ [p]) (cache.countMiss.keep (cache.key p.1 p.2) chunk) := by
  refine ⟨h.digests, fun p' hp' => ?_⟩
  have hkeep : (cache.countMiss.keep (cache.key p.1 p.2) chunk).find? (cache.key p'.1 p'.2) =
      if cache.key p.1 p.2 = cache.key p'.1 p'.2 then some chunk
      else cache.find? (cache.key p'.1 p'.2) := by
    -- The key is new, so it is this chunk that stays.
    have hnew : cache.key p.1 p.2 ∉ cache.chunks := by
      rw [← Std.TreeMap.isSome_getElem?_iff_mem]
      simpa [ChunkCache.find?] using hfind
    simp [ChunkCache.find?, ChunkCache.keep, ChunkCache.countMiss, Std.TreeMap.getElem?_insertIfNew,
      hnew]
  change ChunkCache.find? _ (cache.key p'.1 p'.2) = _
  rw [hkeep, List.find?_append]
  -- For the same text there was nothing before, and for another one nothing changes.
  by_cases hsame : content p.1 p.2 = content p'.1 p'.2
  · have hnone : past.find? (serves p') = none := by
      rw [← serves_congr hsame]
      exact h.find?_eq_none hp hfind
    have hserves : serves p' p = true := by
      rw [← serves_congr hsame, serves_self, hparse]
      rfl
    have hkey : cache.key p.1 p.2 = cache.key p'.1 p'.2 := congrArg cache.digest hsame
    simp [hkey, hnone, hserves, hparse]
    rfl
  · have hkey : cache.key p.1 p.2 ≠ cache.key p'.1 p'.2 := fun hkey =>
      hsame (h.digests p hp p' hp' hkey)
    simp [hkey, serves_eq_false hsame, h.found p' hp']

/-- A fetch gives what the source that serves it is parsed to. -/
theorem fetch (h : KeepsFirst all past cache) {p : String × String} (hp : p ∈ all) :
    (cache.fetch p.1 p.2).1 = parseChunk (servedBy past p).1 (servedBy past p).2 ∧
      KeepsFirst all (past ++ [p]) (cache.fetch p.1 p.2).2 := by
  unfold ChunkCache.fetch servedBy
  dsimp only
  cases hfind : cache.find? (cache.key p.1 p.2) with
  | some chunk =>
      have hfound := h.found p hp
      rw [hfind] at hfound
      cases hserves : past.find? (serves p) with
      | none =>
          rw [hserves] at hfound
          cases hfound
      | some q =>
          -- What is kept for the source was loaded before, and has what it was parsed to.
          have hparse : parseChunk q.1 q.2 = .ok chunk := by
            rw [hserves, Option.bind_some] at hfound
            cases hq : parseChunk q.1 q.2 with
            | error f =>
                rw [hq] at hfound
                cases hfound
            | ok chunk' =>
                rw [hq] at hfound
                cases hfound
                rfl
          have hhit : KeepsFirst all past cache.countHit := ⟨h.digests, h.found⟩
          refine ⟨hparse.symm, hhit.skip fun p' _ hnone => ?_⟩
          by_cases hsame : content p.1 p.2 = content p'.1 p'.2
          · rw [← serves_congr hsame, hserves] at hnone
            cases hnone
          · exact serves_eq_false hsame
  | none =>
      have hnone := h.find?_eq_none hp hfind
      rw [hnone]
      cases hparse : parseChunk p.1 p.2 with
      | error f =>
          refine ⟨hparse.symm, h.skip fun p' _ _ => ?_⟩
          simp [serves, hparse, Except.toOption]
      | ok chunk => exact ⟨hparse.symm, h.keep hp hfind hparse⟩

end KeepsFirst

/-! ## What engines answer -/

/-- Without a cache there is none afterwards. -/
theorem Engine.load_none (e : Engine) (name source : String) :
    (e.load none name source).2.2 = none := by
  simp only [load, fetchChunk]
  cases parseChunk name source <;> rfl

/-- Loading by way of a cache is loading without one what the cache serves. -/
theorem Engine.load_served {all past : List (String × String)} {cache : ChunkCache}
    (h : KeepsFirst all past cache) {p : String × String} (hp : p ∈ all) (e : Engine) :
    ∃ cache', e.load (some cache) p.1 p.2 =
        ((e.load none (servedBy past p).1 (servedBy past p).2).1,
          (e.load none (servedBy past p).1 (servedBy past p).2).2.1, some cache') ∧
      KeepsFirst all (past ++ [p]) cache' := by
  rcases h.fetch hp with ⟨hresult, hkeeps⟩
  refine ⟨(cache.fetch p.1 p.2).2, ?_, hkeeps⟩
  simp only [load, fetchChunk, ← hresult]
  rcases cache.fetch p.1 p.2 with ⟨result, cache'⟩
  cases result <;> rfl

/-- Engines with a cache answer as without one, once each load is replaced by the one that serves it.
    The induction is on the operations, over all that was loaded before. -/
theorem EngineGroup.answers_served {all past : List (String × String)} (g : EngineGroup)
    {cache : ChunkCache} (hcache : g.cache = some cache) (h : KeepsFirst all past cache)
    (ops : List SharedOp) (hops : ∀ p ∈ loadsOf ops, p ∈ all) :
    (g.answers ops).1 = (EngineGroup.answers ⟨g.engines, none⟩ (served past ops)).1 ∧
      (g.answers ops).2.engines =
        (EngineGroup.answers ⟨g.engines, none⟩ (served past ops)).2.engines := by
  induction ops generalizing g past cache with
  | nil => exact ⟨rfl, rfl⟩
  | cons op ops ih =>
      rcases g with ⟨engines, _⟩
      cases hcache
      cases op with
      | load i name source =>
          simp only [loadsOf, List.forall_mem_cons] at hops
          rcases (engines i).load_served h hops.1 with ⟨cache', hload, hkeeps⟩
          generalize hq : servedBy past (name, source) = q at hload
          have hcached : answer ⟨engines, some cache⟩ (.load i name source) =
              (.ran ((engines i).load none q.1 q.2).1,
                ⟨Function.update engines i ((engines i).load none q.1 q.2).2.1, some cache'⟩) := by
            simp only [answer, hload]
          have hplain : answer ⟨engines, none⟩ (.load i q.1 q.2) =
              (.ran ((engines i).load none q.1 q.2).1,
                ⟨Function.update engines i ((engines i).load none q.1 q.2).2.1, none⟩) := by
            simp only [answer, Engine.load_none]
          rcases ih ⟨Function.update engines i ((engines i).load none q.1 q.2).2.1, some cache'⟩ rfl
            hkeeps hops.2 with ⟨hanswers, hengines⟩
          simp only [answers, served, hq, hcached, hplain]
          exact ⟨congrArg _ hanswers, hengines⟩
      | ask i op =>
          rcases ih ⟨Function.update engines i ((engines i).answer op).2, some cache⟩ rfl h hops with
            ⟨hanswers, hengines⟩
          simp only [answers, served, answer]
          exact ⟨congrArg _ hanswers, hengines⟩

/-- Where no two different sources are digested as the same text, each is served with itself. -/
theorem served_eq {past : List (String × String)} {ops : List SharedOp}
    (h : ∀ p ∈ past ++ loadsOf ops, ∀ q ∈ past ++ loadsOf ops,
      content p.1 p.2 = content q.1 q.2 → p = q) : served past ops = ops := by
  induction ops generalizing past with
  | nil => rfl
  | cons op ops ih =>
      cases op with
      | load i name source =>
          -- A source is served with itself or with one from before, which then is the same.
          have hself : servedBy past (name, source) = (name, source) := by
            unfold servedBy
            cases hfind : past.find? (serves (name, source)) with
            | none => rfl
            | some q =>
                have hq := List.find?_some hfind
                simp only [serves, Bool.and_eq_true, beq_iff_eq] at hq
                exact h q (by simp [List.mem_of_find?_eq_some hfind]) (name, source)
                  (by simp [loadsOf]) hq.1
          have hrest : served (past ++ [(name, source)]) ops = ops :=
            ih (by simpa [loadsOf] using h)
          simp [served, hself, hrest]
      | ask i op => simp [served, ih h]

/-- What engines with one cache answer.

    If the digest tells apart the texts that are digested, then they answer, and become, what they would
    without a cache if each source was replaced by the one that the cache serves for it: the first one
    with the same text to digest that could be parsed. So they answer as without a cache where no two
    sources that are loaded have the same text, which is so if no name has a NUL. Two of them have the
    same text exactly if one name goes on behind a NUL with what the other source begins with. -/
theorem shared_cache_served (digest : Digest) (engines : Nat → Engine) (ops : List SharedOp)
    (hdigest : ∀ p ∈ loadsOf ops, ∀ q ∈ loadsOf ops,
      digest (content p.1 p.2) = digest (content q.1 q.2) → content p.1 p.2 = content q.1 q.2) :
    let shared := EngineGroup.answers ⟨engines, some (.empty digest)⟩ ops
    let alone (ops : List SharedOp) := EngineGroup.answers ⟨engines, none⟩ ops
    (shared.1 = (alone (served [] ops)).1 ∧
      shared.2.engines = (alone (served [] ops)).2.engines) ∧
    ((∀ p ∈ loadsOf ops, ∀ q ∈ loadsOf ops, content p.1 p.2 = content q.1 q.2 → p = q) →
      shared.1 = (alone ops).1 ∧ shared.2.engines = (alone ops).2.engines) ∧
    ((∀ p ∈ loadsOf ops, '\x00' ∉ p.1.toList) →
      shared.1 = (alone ops).1 ∧ shared.2.engines = (alone ops).2.engines) ∧
    ∀ name source name' source',
      content name source = content name' source' ↔ (name = name' ∧ source = source') ∨
        ∃ mid, (name' = name ++ "\x00" ++ mid ∧ source = mid ++ "\x00" ++ source') ∨
          (name = name' ++ "\x00" ++ mid ∧ source' = mid ++ "\x00" ++ source) := by
  intro shared alone
  have hserved := EngineGroup.answers_served ⟨engines, some (.empty digest)⟩ rfl
    (KeepsFirst.empty hdigest) ops fun p hp => hp
  have htold : (∀ p ∈ loadsOf ops, ∀ q ∈ loadsOf ops, content p.1 p.2 = content q.1 q.2 → p = q) →
      shared.1 = (alone ops).1 ∧ shared.2.engines = (alone ops).2.engines := by
    intro h
    have hsame : served [] ops = ops := served_eq (by simpa using h)
    rw [hsame] at hserved
    exact hserved
  refine ⟨hserved, htold, fun hnul => htold fun p hp q hq hcontent => ?_, content_eq_iff⟩
  exact Prod.ext_iff.mpr (ChunkCache.content_inj hcontent (hnul p hp) (hnul q hq))

/-- Whether an answer is a fault. -/
def HostAnswer.isFault : HostAnswer → Bool
  | .ran (.error _) => true
  | .called (.error _) => true
  | _ => false

/-- Two engines, of which the second one is refused a source and then gets one that the first one
    loaded. -/
theorem shared_cache_served_two :
    let ops : List SharedOp := [.load 0 "a.lua" "x = true", .load 1 "b.lua" "x = ",
      .load 1 "a.lua" "x = true", .ask 1 (.entryPoint "x")]
    let engines : Nat → Engine := fun _ => .new ⟨⟨10, 2⟩, .spaced⟩
    (EngineGroup.answers ⟨engines, some (.empty byteDigest)⟩ ops).1 =
        (EngineGroup.answers ⟨engines, none⟩ ops).1 ∧
      (EngineGroup.answers ⟨engines, none⟩ ops).1.map HostAnswer.isFault =
        [false, true, false, false] := by
  intro ops engines
  have hshared := shared_cache_served byteDigest engines ops
    fun p _ q _ h => byteDigest_injective h
  refine ⟨(hshared.2.2.1 ?_).1, by decide +kernel⟩
  decide

/-- The text that is digested does not tell all names and sources apart, and engines with one cache do
    not always answer as without it: what is not a source at all is accepted for the end of another
    one. -/
theorem shared_cache_ambiguous :
    (¬ ∀ name source name' source', (name, source) ≠ (name', source') →
      content name source ≠ content name' source') ∧
    ¬ ∀ (engines : Nat → Engine) (ops : List SharedOp),
      (EngineGroup.answers ⟨engines, some (.empty byteDigest)⟩ ops).1 =
        (EngineGroup.answers ⟨engines, none⟩ ops).1 := by
  constructor
  · intro h
    exact h "a" "--\x00x =" "a\x00--" "x =" (by decide) (by decide)
  · intro h
    have hsame := congrArg (List.map HostAnswer.isFault) (h (fun _ => .new ⟨⟨10, 2⟩, .spaced⟩)
      [.load 0 "a" "--\x00x =", .load 0 "a\x00--" "x ="])
    revert hsame
    decide +kernel

end Script

end PixelEffects
