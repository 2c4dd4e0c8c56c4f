import PixelEffects.Script.Engine

/-!
# Caches Do Not Show

A fetch that goes by way of a cache gives what parsing gives.

A cache is *faithful* if everything that it keeps is the parsed chunk of a name and a source, under
their digest. Two things have to be true of digests for that to help. Different texts must have
different ones, and a name and a source must be told apart in the text that is digested. The second
is so for names without a NUL, since the first NUL of the text is then the one between them.

Only chunks that were parsed are kept, and those that are found are not changed. So a cache that is
faithful stays so, whatever is fetched.

## Main definitions

* `ChunkCache.Faithful`: What is kept is what parsing gives.

## Theorems

* `ChunkCache.content_inj`: A name without a NUL and a source can be told apart.
* `ChunkCache.Faithful.fetch`: A faithful cache answers like the parser, and stays faithful.
* `byteDigest_injective`: There are digests that tell all texts apart.
* `Engine.load_faithful`: Loading by way of a faithful cache is loading without one.
-/

namespace PixelEffects

namespace Script

/-! ### A digest that tells texts apart -/

/-- What the loop of a fold over bytes does from one place on. -/
theorem byteFold_loop {β : Type} (f : β → UInt8 → β) (bytes : ByteArray) (stop : Nat)
    (h : stop ≤ bytes.size) (i j : Nat) (b : β) (hij : i + j = stop) :
    ByteArray.foldlM.loop (m := Id) (fun b x => pure (f b x)) bytes stop h i j b =
      ((bytes.data.toList.drop j).take i).foldl f b := by
  induction i generalizing j b with
  | zero =>
      rw [ByteArray.foldlM.loop]
      split <;> rfl
  | succ i ih =>
      have hlt : j < stop := by omega
      have hget : j < bytes.data.toList.length := by
        rw [Array.length_toList]
        exact Nat.lt_of_lt_of_le hlt h
      rw [ByteArray.foldlM.loop, dif_pos hlt, List.drop_eq_getElem_cons hget, List.take_succ_cons]
      exact ih (j + 1) _ (by omega)

/-- A fold over bytes is one over the list of them. -/
theorem byteFold_eq {β : Type} (f : β → UInt8 → β) (bytes : ByteArray) (b : β) :
    bytes.foldl f b = bytes.data.toList.foldl f b := by
  have hloop := byteFold_loop f bytes bytes.size (Nat.le_refl _) bytes.size 0 b rfl
  unfold ByteArray.foldl ByteArray.foldlM
  rw [dif_pos (Nat.le_refl _)]
  refine Eq.trans hloop ?_
  have hlength : bytes.data.toList.length = bytes.size := Array.length_toList
  rw [List.drop_zero, ← hlength, List.take_length]

/-- A number tells which bytes it was made of, from the last one on. -/
theorem digits_inj {l l' : List UInt8}
    (h : l.foldr (fun b n => 256 * n + b.toNat) 1 = l'.foldr (fun b n => 256 * n + b.toNat) 1) :
    l = l' := by
  have hpos : ∀ l : List UInt8, 0 < l.foldr (fun b n => 256 * n + b.toNat) 1 := by
    intro l
    induction l with
    | nil => exact Nat.one_pos
    | cons b l ih =>
        rw [List.foldr_cons]
        omega
  induction l generalizing l' with
  | nil =>
      cases l' with
      | nil => rfl
      | cons b l' =>
          have := hpos l'
          simp only [List.foldr_nil, List.foldr_cons] at h
          omega
  | cons b l ih =>
      cases l' with
      | nil =>
          have := hpos l
          simp only [List.foldr_nil, List.foldr_cons] at h
          omega
      | cons b' l' =>
          have hb := b.toNat_lt
          have hb' := b'.toNat_lt
          simp only [List.foldr_cons] at h
          have hbyte : b = b' := UInt8.toNat_inj.mp (by omega)
          have hrest : l = l' := ih (by omega)
          rw [hbyte, hrest]

/-- There are digests that tell all texts apart. -/
theorem byteDigest_injective : Function.Injective byteDigest := by
  intro s s' h
  unfold byteDigest at h
  rw [byteFold_eq, byteFold_eq, ← List.reverse_reverse s.toUTF8.data.toList,
    ← List.reverse_reverse s'.toUTF8.data.toList, List.foldl_reverse, List.foldl_reverse] at h
  have hlists := List.reverse_inj.mp (digits_inj h)
  have hbytes : s.toUTF8 = s'.toUTF8 := ByteArray.ext (Array.toList_inj.mp hlists)
  exact String.toByteArray_inj.mp hbytes

/-! ### Faithful caches -/

namespace ChunkCache

/-- Lists that are put together at an item that the first ones do not have can be taken apart. -/
theorem append_cons_inj {α : Type} {x : α} {l l' r r' : List α} (h : l ++ x :: r = l' ++ x :: r')
    (hl : x ∉ l) (hl' : x ∉ l') : l = l' ∧ r = r' := by
  induction l generalizing l' with
  | nil =>
      cases l' with
      | nil => exact ⟨rfl, (List.cons.inj h).2⟩
      | cons y l' =>
          rw [(List.cons.inj h).1] at hl'
          exact absurd List.mem_cons_self hl'
  | cons y l ih =>
      cases l' with
      | nil =>
          rw [(List.cons.inj h).1] at hl
          exact absurd List.mem_cons_self hl
      | cons z l' =>
          rcases List.cons.inj h with ⟨rfl, htail⟩
          rcases ih htail (List.not_mem_of_not_mem_cons hl) (List.not_mem_of_not_mem_cons hl')
            with ⟨rfl, hr⟩
          exact ⟨rfl, hr⟩

/-- The text that is digested tells names without a NUL and sources apart. -/
theorem content_inj {name name' source source' : String}
    (h : content name source = content name' source') (hname : '\x00' ∉ name.toList)
    (hname' : '\x00' ∉ name'.toList) : name = name' ∧ source = source' := by
  have hlist : name.toList ++ '\x00' :: source.toList = name'.toList ++ '\x00' :: source'.toList := by
    have hnul : "\x00".toList = ['\x00'] := by decide
    have hchars := congrArg String.toList h
    unfold content at hchars
    simp only [String.toList_append, hnul, List.append_assoc] at hchars
    exact hchars
  rcases append_cons_inj hlist hname hname' with ⟨hn, hs⟩
  exact ⟨String.toList_inj.mp hn, String.toList_inj.mp hs⟩

/-- A cache that keeps nothing but chunks as they are parsed, under digests that tell all texts
    apart. -/
structure Faithful (cache : ChunkCache) : Prop where
  digests : Function.Injective cache.digest
  parsed : ∀ k chunk, cache.find? k = some chunk → ∃ name source, '\x00' ∉ name.toList ∧
    cache.key name source = k ∧ parseChunk name source = .ok chunk

theorem faithful_empty {digest : Digest} (h : Function.Injective digest) :
    (empty digest).Faithful := by
  refine ⟨h, fun k chunk hfind => ?_⟩
  unfold find? empty at hfind
  rw [Std.TreeMap.getElem?_emptyc] at hfind
  cases hfind

namespace Faithful

variable {cache : ChunkCache}

/-- What is found under the digest of a name and a source is what parsing them gives. -/
theorem parse_of_find (h : cache.Faithful) {name source : String} {chunk : Chunk}
    (hname : '\x00' ∉ name.toList) (hfind : cache.find? (cache.key name source) = some chunk) :
    parseChunk name source = .ok chunk := by
  rcases h.parsed _ _ hfind with ⟨name', source', hname', hkey, hparse⟩
  rcases content_inj (h.digests hkey) hname' hname with ⟨rfl, rfl⟩
  exact hparse

theorem keep (h : cache.Faithful) {name source : String} {chunk : Chunk}
    (hname : '\x00' ∉ name.toList) (hparse : parseChunk name source = .ok chunk) :
    (cache.countMiss.keep (cache.key name source) chunk).Faithful := by
  refine ⟨h.digests, fun k found hfind => ?_⟩
  unfold find? ChunkCache.keep countMiss at hfind
  rw [Std.TreeMap.getElem?_insertIfNew] at hfind
  split at hfind
  next hnew =>
    cases hfind
    exact ⟨name, source, hname, Std.LawfulEqCmp.compare_eq_iff_eq.mp hnew.1, hparse⟩
  next => exact h.parsed k found hfind

/-- A faithful cache gives what parsing gives, and stays faithful. -/
theorem fetch (h : cache.Faithful) {name : String} (hname : '\x00' ∉ name.toList)
    (source : String) :
    (cache.fetch name source).1 = parseChunk name source ∧
      (cache.fetch name source).2.Faithful := by
  unfold ChunkCache.fetch
  dsimp only
  cases hfind : cache.find? (cache.key name source) with
  | some chunk => exact ⟨(h.parse_of_find hname hfind).symm, h.digests, h.parsed⟩
  | none =>
      cases hparse : parseChunk name source with
      | error f => exact ⟨rfl, h⟩
      | ok chunk => exact ⟨rfl, h.keep hname hparse⟩

end Faithful

end ChunkCache

/-- A cache that there need not be. -/
def FaithfulIfAny (cache : Option ChunkCache) : Prop :=
  ∀ c ∈ cache, c.Faithful

theorem fetchChunk_faithful {cache : Option ChunkCache} (h : FaithfulIfAny cache) {name : String}
    (hname : '\x00' ∉ name.toList) (source : String) :
    (fetchChunk cache name source).1 = parseChunk name source ∧
      FaithfulIfAny (fetchChunk cache name source).2 := by
  cases cache with
  | none => exact ⟨rfl, h⟩
  | some cache =>
      rcases (h cache rfl).fetch hname source with ⟨hresult, hfaithful⟩
      refine ⟨hresult, fun c hc => ?_⟩
      cases hc
      exact hfaithful

/-- Loading by way of a faithful cache does what loading without one does. -/
theorem Engine.load_faithful {cache : Option ChunkCache} (h : FaithfulIfAny cache) {name : String}
    (hname : '\x00' ∉ name.toList) (source : String) (e : Engine) :
    ∃ cache', e.load cache name source =
        ((e.load none name source).1, (e.load none name source).2.1, cache') ∧
      FaithfulIfAny cache' := by
  rcases fetchChunk_faithful h hname source with ⟨hresult, hfaithful⟩
  refine ⟨(fetchChunk cache name source).2, ?_, hfaithful⟩
  unfold load
  rw [show fetchChunk none name source = (parseChunk name source, none) from rfl, ← hresult]
  rcases fetchChunk cache name source with ⟨result, cache'⟩
  cases result <;> rfl

end Script

end PixelEffects
