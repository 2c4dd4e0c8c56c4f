import PixelEffects.Proofs.Effect.Spawn
import PixelEffects.Proofs.Script.Host
import PixelEffects.Proofs.Script.Plain

/-!
# Steady Effects

Effects for which it does not matter how the pixels of an image are divided.

A script can remember things between pixels, and then what it makes of a pixel depends on those that
were there before. An effect is *steady* if this never shows: a sandbox can always be made, and one
that has already been used does to a pixel what a fresh one does.

Sandboxes are made one after the other in a session, and each one may leave parsed chunks in the
cache for the next. So the sessions in which a sandbox may be made are the given one and all that
come from it by making sandboxes, and being steady is about all of them.

That an effect is steady is shown by an invariant of its engine. `keepEffect` is one that gives a
record without channels for every pixel, and so keeps it. What such an engine needs to go on like
that is its entry in the globals and room for one call. A call leaves both alone, though it makes two
tables and two scopes.

## Main definitions

* `Effect.After`, `Effect.Fresh`, `Effect.Reachable`: Sessions and sandboxes that there can be.
* `Effect.Steady`: An effect that does not show what it remembers.
* `Effect.GivesBack`: An effect that gives back every pixel.
* `Sandbox.Keeps`: A sandbox that keeps every pixel.
* `keepEffect`: An effect that does.

## Theorems

* `Sandbox.Keeps.invoke`: What keeps one pixel keeps the next one.
* `Effect.GivesBack.steady`: An effect that gives back every pixel is steady.
* `Effect.givesBack_of_spawn`, `Effect.keepEffect_steady`: There are such effects.
-/

namespace PixelEffects

namespace Effect

/-- Sessions that come from a given one by making sandboxes. -/
inductive After (effect : Effect) (session : Session) : Session → Prop
  | here : After effect session session
  | spawned {s : Session} : After effect session s →
      After effect session (effect.spawn.sessionAfter s)

/-- Sandboxes as they are made. -/
def Fresh (effect : Effect) (session : Session) (sandbox : Sandbox) : Prop :=
  ∃ s s', effect.After session s ∧ effect.spawn s = .ok sandbox s'

/-- Sandboxes that were made and then used, for any pixels. -/
inductive Reachable (effect : Effect) (session : Session) : Sandbox → Prop
  | fresh {sandbox : Sandbox} : effect.Fresh session sandbox → Reachable effect session sandbox
  | used {sandbox : Sandbox} (p : Pixel) : Reachable effect session sandbox →
      Reachable effect session (sandbox.invoke p).2

/-- An effect for which sandboxes can be made, and which does to a pixel in any sandbox what it does
    in a fresh one. -/
structure Steady (effect : Effect) (session : Session) : Prop where
  spawns : ∀ s, effect.After session s → ∃ sandbox s', effect.spawn s = .ok sandbox s'
  same : ∀ fresh used p, effect.Fresh session fresh → effect.Reachable session used →
    (used.invoke p).1 = (fresh.invoke p).1

end Effect

/-! ### An effect that keeps every pixel -/

namespace Script

/-- Whether a function gives a new table and does nothing else. -/
def Closure.givesTable (c : Closure) : Bool :=
  match c.definition.body with
  | [.mk _ (.returnValues [.table []])] => true
  | _ => false

/-- Such a body, run in a call. -/
theorem run_returnTable (call : Caller String) (env : Env) (stmtLine : Nat) (address : Addressing)
    (tables : Heap) (closures : Array (Closure String)) (scopes : Array Scope) (chunk : String)
    (line : Nat) :
    block call env [.mk stmtLine (.returnValues [.table []])] ⟨{}, address⟩
      ⟨tables, closures, scopes, 0, 1, 0, chunk, line, none⟩ =
      .ok (.returned [.table ⟨tables.size⟩])
        ⟨tables.push .empty, closures, scopes.push [], 1, 1, 0, chunk, stmtLine, none⟩ :=
  rfl

/-- A call whose body ends undoes the counting, and is back where it was made. -/
theorem run_framed {α : Type} {chunk : String} {line : Nat} {body : Eval String α} {s : Setting}
    {m m' : Machine} {a : α} (hdepth : m.depth < s.limits.maxCallDepth)
    (h : body s { m with depth := m.depth + 1, chunk := chunk, line := line } = .ok a m') :
    framed chunk line body s m =
      .ok a { m' with depth := m'.depth - 1, chunk := m.chunk, line := m.line } := by
  unfold framed
  rw [if_neg (Nat.not_le.mpr hdepth)]
  dsimp only
  rw [h]

/-- A call of a function with such a body. -/
theorem run_callTable (called : String) (params : List String) (stmtLine : Nat)
    (definedIn : String) (definedAt : Nat) (env : Env) (args : List Value) (address : Addressing)
    (tables : Heap) (closures : Array (Closure String)) (scopes : Array Scope) (chunk : String)
    (line : Nat) :
    callWithin ⟨⟨called, params, [.mk stmtLine (.returnValues [.table []])], definedIn, definedAt⟩, env⟩
      args ⟨{}, address⟩ ⟨tables, closures, scopes, 0, 0, 0, chunk, line, none⟩ =
      .ok [.table ⟨tables.size⟩] ⟨tables.push .empty, closures,
        (scopes.push (Scope.declareAll params args [])).push [], 1, 0, 0, chunk, line, none⟩ := by
  have hbody : (newScope (Scope.declareAll params args []) >>= fun frame =>
      block (callClosure 64) (frame :: env) [.mk stmtLine (.returnValues [.table []])])
        ⟨{}, address⟩ ⟨tables, closures, scopes, 0, 1, 0, definedIn, definedAt, none⟩ = _ :=
    run_returnTable (callClosure 64) (⟨scopes.size⟩ :: env) stmtLine address tables closures
      (scopes.push (Scope.declareAll params args [])) definedIn definedAt
  have hcall := run_framed (m := ⟨tables, closures, scopes, 0, 0, 0, chunk, line, none⟩)
    (Nat.zero_lt_succ 63) hbody
  show ((framed definedIn definedAt (newScope (Scope.declareAll params args []) >>= fun frame =>
    block (callClosure 64) (frame :: env) [.mk stmtLine (.returnValues [.table []])])) >>= fun flow =>
      _ : Eval String (List Value)) ⟨{}, address⟩ _ = _
  rw [run_bind, hcall]
  rfl

/-- A call of a global function, on a machine whose counts start anew. -/
theorem callGlobal_function {m : Machine} {name : String} {id : ClosureId} {c : Closure}
    (hglobal : m.global name = .function id) (hclosure : m.closures[id.index]? = some c)
    (args : List Value) (setting : Setting) :
    callGlobal name args setting m = callWithin c args setting m.restarted := by
  -- A call starts the counters anew and leaves the globals.
  have hrestarted : m.restarted.global name = .function id := hglobal
  have hthere : m.restarted.closures[id.index]? = some c := hclosure
  unfold callGlobal
  dsimp only
  rw [hrestarted]
  dsimp only [callValue]
  rw [run_closureAt_bind, hthere]

/-- A call of such a function ends with a new table, behind all others. -/
theorem callGlobal_givesTable {setting : Setting} (hlimits : setting.limits = {}) {m : Machine}
    (hrecord : m.record = none) {name : String} {id : ClosureId} {c : Closure}
    (hglobal : m.global name = .function id) (hclosure : m.closures[id.index]? = some c)
    (hc : c.givesTable = true) (args : List Value) :
    ∃ scopes line, callGlobal name args setting m = .ok [.table ⟨m.tables.size⟩]
      ⟨m.tables.push .empty, m.closures, scopes, 1, 0, 0, m.chunk, line, none⟩ := by
  rw [callGlobal_function hglobal hclosure]
  rcases setting with ⟨limits, address⟩
  rcases c with ⟨⟨called, params, body, definedIn, definedAt⟩, env⟩
  rcases m with ⟨tables, closures, scopes, steps, depth, nesting, chunk, line, record⟩
  cases hlimits
  cases hrecord
  unfold Closure.givesTable at hc
  split at hc
  · rename_i hbody
    cases hbody
    exact ⟨_, _, run_callTable ..⟩
  · cases hc

/-- New tables leave the globals alone. -/
theorem global_push {m : Machine} (h : 0 < m.tables.size) (t : Table) (name : String) :
    ({ m with tables := m.tables.push t } : Machine).global name = m.global name := by
  unfold Machine.global Heap.table Machine.globals
  rw [Array.getD_eq_getD_getElem?, Array.getD_eq_getD_getElem?, Array.getElem?_push]
  -- The globals are the first table, and a new one comes last.
  rw [if_neg (Nat.ne_of_lt h)]

/-- A new table comes out as a record without fields. -/
theorem ofScript_newTable (heap : Heap) :
    HostValue.ofScript (heap.push .empty) (.table ⟨heap.size⟩) = .record [] := by
  have htable : Heap.table (heap.push .empty) ⟨heap.size⟩ = .empty := by
    unfold Heap.table
    rw [Array.getD_eq_getD_getElem?, Array.getElem?_push_size]
    rfl
  unfold HostValue.ofScript HostValue.maxDepth HostValue.ofScriptWithin
  rw [htable]
  rfl

end Script

namespace Sandbox

open Script

/-- A sandbox that gives a record without channels for each pixel, and keeps those that are missing.
    It has its usual limits and no record. -/
structure Keeps (sandbox : Sandbox) : Prop where
  missing : sandbox.missing = .preserve
  limits : sandbox.engine.setting.limits = {}
  record : sandbox.engine.machine.record = none
  globals : 0 < sandbox.engine.machine.tables.size
  entry : ∃ id c, sandbox.engine.machine.global entryName = .function id ∧
    sandbox.engine.machine.closures[id.index]? = some c ∧ c.givesTable = true

/-- A pixel is passed as one new table. -/
theorem pixelRecord_toScript (p : Pixel) (heap : Heap) :
    ∃ t, HostValue.allToScript [pixelRecord p] heap = ([.table ⟨heap.size⟩], heap.push t) :=
  ⟨_, rfl⟩

/-- What becomes of a pixel when the call with its record ends with a value. -/
theorem invoke_of_call (effectId : String) (missing : MissingChannel) (caching : Bool)
    {setting : Setting} {m m' : Machine} {p : Pixel} {t : Table} {v : Value}
    (hpassed : HostValue.allToScript [pixelRecord p] m.tables =
      ([.table ⟨m.tables.size⟩], m.tables.push t))
    (hcall : callGlobal entryName [.table ⟨m.tables.size⟩] setting
      { m with tables := m.tables.push t } = .ok [v] m') :
    invoke ⟨effectId, missing, caching, ⟨setting, m⟩⟩ p =
      ((coerce missing p (HostValue.ofScript m'.tables v)).mapError
          fun cause => ⟨effectId, some (p.x, p.y), cause⟩,
        ⟨effectId, missing, caching, ⟨setting, m'⟩⟩) := by
  have hrun : Engine.call ⟨setting, m⟩ entryName [pixelRecord p] =
      (.ok (HostValue.ofScript m'.tables v), ⟨setting, m'⟩) := by
    rw [Engine.call_eq]
    unfold Machine.onTables
    dsimp only
    rw [hpassed]
    unfold Engine.run
    dsimp only
    rw [hcall]
    rfl
  unfold invoke
  dsimp only
  rw [hrun]

/-- A sandbox that keeps pixels keeps each one, and goes on to keep them. -/
theorem Keeps.invoke {sandbox : Sandbox} (h : sandbox.Keeps) (p : Pixel) :
    (sandbox.invoke p).1 = .ok p ∧ (sandbox.invoke p).2.Keeps := by
  rcases sandbox with ⟨effectId, missing, caching, ⟨setting, m⟩⟩
  rcases h with ⟨hmissing, hlimits, hrecord, hglobals, id, c, hid, hclosure, hc⟩
  dsimp only at hmissing hlimits hrecord hglobals hid hclosure
  subst hmissing
  rcases pixelRecord_toScript p m.tables with ⟨t, hpassed⟩
  -- The machine as the call finds it has one table more, and so has the same entry.
  have hentry := (global_push hglobals t entryName).trans hid
  rcases callGlobal_givesTable hlimits (m := { m with tables := m.tables.push t }) hrecord hentry
    hclosure hc [.table ⟨m.tables.size⟩] with ⟨scopes, line, hcall⟩
  -- The call makes a second table and gives it back, which comes out as a record without fields.
  rw [invoke_of_call effectId .preserve caching hpassed hcall, ofScript_newTable]
  -- Neither of the two tables touches the globals, so the entry is still the same function.
  have hpushed : 0 < (m.tables.push t).size := by
    rw [Array.size_push]
    exact Nat.succ_pos _
  have hkept := (global_push (m := ⟨m.tables.push t, m.closures, scopes, 1, 0, 0, m.chunk, line,
    none⟩) hpushed .empty entryName).trans hentry
  refine ⟨rfl, rfl, hlimits, rfl, ?_, id, c, hkept, hclosure, hc⟩
  rw [Array.size_push]
  exact Nat.succ_pos _

/-- Whether an entry gives a new table, to be computed. -/
def entryGivesTable (engine : Engine) : Bool :=
  match engine.machine.global entryName with
  | .function id => engine.machine.closures[id.index]?.any Closure.givesTable
  | _ => false

theorem entry_of_givesTable {engine : Engine} (h : entryGivesTable engine = true) :
    ∃ id c, engine.machine.global entryName = .function id ∧
      engine.machine.closures[id.index]? = some c ∧ c.givesTable = true := by
  unfold entryGivesTable at h
  split at h
  · rename_i id hid
    rcases Option.any_eq_true_iff_get .. |>.mp h with ⟨hsome, hc⟩
    exact ⟨id, _, hid, Option.eq_some_of_isSome hsome, hc⟩
  · cases h

/-- Whether a sandbox keeps every pixel, to be computed. -/
def keepsPixels (sandbox : Sandbox) : Bool :=
  sandbox.missing == .preserve && sandbox.engine.setting.limits == {} &&
    sandbox.engine.machine.record.isNone && decide (0 < sandbox.engine.machine.tables.size) &&
    entryGivesTable sandbox.engine

theorem keeps_of_keepsPixels {sandbox : Sandbox} (h : sandbox.keepsPixels = true) :
    sandbox.Keeps := by
  simp only [keepsPixels, Bool.and_eq_true, beq_iff_eq, decide_eq_true_eq,
    Option.isNone_iff_eq_none] at h
  rcases h with ⟨⟨⟨⟨hmissing, hlimits⟩, hrecord⟩, hglobals⟩, hentry⟩
  exact ⟨hmissing, hlimits, hrecord, hglobals, entry_of_givesTable hentry⟩

end Sandbox

namespace Effect

/-- An effect that gives back every pixel, as an invariant of its sandboxes says: it holds of each
    one that is made, and a sandbox of which it holds gives back any pixel and keeps it. Making one
    does not use the cache. -/
structure GivesBack (effect : Effect) (I : Sandbox → Prop) : Prop where
  spawns : ∀ session, ∃ sandbox, effect.spawn session = .ok sandbox session ∧ I sandbox
  invokes : ∀ sandbox p, I sandbox → (sandbox.invoke p).1 = .ok p ∧ I (sandbox.invoke p).2

namespace GivesBack

variable {effect : Effect} {I : Sandbox → Prop} {session : Session} {sandbox : Sandbox}

theorem of_fresh (h : effect.GivesBack I) (hfresh : effect.Fresh session sandbox) : I sandbox := by
  rcases hfresh with ⟨s, s', _, hspawn⟩
  rcases h.spawns s with ⟨made, hmade, hinv⟩
  rw [hmade] at hspawn
  cases hspawn
  exact hinv

theorem of_reachable (h : effect.GivesBack I) (hused : effect.Reachable session sandbox) :
    I sandbox := by
  induction hused with
  | fresh hfresh => exact h.of_fresh hfresh
  | used p _ ih => exact (h.invokes _ p ih).2

theorem steady (h : effect.GivesBack I) (session : Session) : effect.Steady session := by
  refine ⟨fun s _ => ?_, fun fresh used p hfresh hused => ?_⟩
  · rcases h.spawns s with ⟨sandbox, hspawn, _⟩
    exact ⟨sandbox, s, hspawn⟩
  · -- Both sandboxes give the pixel back.
    rw [(h.invokes used p (h.of_reachable hused)).1, (h.invokes fresh p (h.of_fresh hfresh)).1]

end GivesBack

/-- An effect without a cache keeps every pixel if the sandbox that is made in a session with nothing
    in it does. In every other session the same one is made. -/
theorem givesBack_of_spawn {effect : Effect} (huncached : effect.engines.caching = false)
    (hmade : (effect.spawn.outcome ⟨none, none⟩).toOption.any Sandbox.keepsPixels = true) :
    effect.GivesBack Sandbox.Keeps := by
  rcases Sandbox.spawn_detached huncached effect.missing effect.package effect.libs effect.params with
    ⟨result, hspawn, _⟩
  have hspawn : effect.spawn = Operation.ofExcept result := hspawn
  rw [hspawn] at hmade
  cases result with
  | error e => cases hmade
  | ok sandbox =>
      refine ⟨fun session => ⟨sandbox, ?_, Sandbox.keeps_of_keepsPixels hmade⟩,
        fun _ p h => h.invoke p⟩
      rw [hspawn]
      rfl

/-- An effect that gives a record without channels, and so keeps every pixel. -/
def keepEffect : Effect where
  package := ⟨⟨"keep", "", "", "", "", [], none⟩, .effect, "",
    [⟨"effect.lua", "function effect(p) return {} end"⟩]⟩
  libs := []
  params := ∅
  engines := ⟨{}, false, .spaced⟩
  missing := .preserve

/-- There are steady effects. -/
theorem keepEffect_steady (session : Session) : keepEffect.Steady session :=
  -- Making the sandbox is a computation.
  (givesBack_of_spawn rfl (by decide +kernel)).steady session

end Effect

end PixelEffects
