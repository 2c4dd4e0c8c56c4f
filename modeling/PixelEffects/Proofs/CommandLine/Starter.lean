import PixelEffects.CommandLine.Run
import PixelEffects.Proofs.Effect.Copying
import PixelEffects.Proofs.Script.Built.Host

/-!
# The Effect to Start From

What the files of a new effect are, to those who read them.

The script is one definition of a global function with one parameter, which gives the channels of
its argument. The other file names neither libs nor scripts, so it is the whole effect. When the
script is run in a new sandbox, it becomes the entry there, whatever the parameters are: these are
bound to another global. So each sandbox copies channels, and the effect gives back every image.

## Main definitions

* `EffectTemplate.tokens`, `EffectTemplate.entry`: The script as it is read.
* `EffectTemplate.description`: The other file as it is read.
* `Package.IsStarter`: A package with these files.

## Theorems

* `EffectTemplate.parseChunk_starter`, `EffectTemplate.parse_starter`: How the files are read.
* `Script.execChunk_define`: What defining a global function does.
* `Sandbox.spawn_starter`: A sandbox can be made, and it copies channels.
* `Effect.givesBack_starter`: The effect gives back every pixel.
-/

namespace PixelEffects

open Script

namespace CommandLine

namespace EffectTemplate

/-- The script as tokens. -/
def tokens : List Lexeme :=
  [⟨.mark .functionWord, 1⟩, ⟨.name "effect", 1⟩, ⟨.mark .lParen, 1⟩, ⟨.name "pixel", 1⟩,
    ⟨.mark .rParen, 1⟩, ⟨.mark .returnWord, 3⟩, ⟨.mark .lBrace, 3⟩] ++
  [⟨.mark .comma, 3⟩].intercalate (channelNames.map fun name =>
    [⟨.name name, 3⟩, ⟨.mark .assign, 3⟩, ⟨.name "pixel", 3⟩, ⟨.mark .lBracket, 3⟩,
      ⟨.text name, 3⟩, ⟨.mark .rBracket, 3⟩]) ++
  [⟨.mark .rBrace, 3⟩, ⟨.mark .endWord, 4⟩, ⟨.endOfSource, 5⟩]

/-- The function that the script defines, in a chunk with a name. -/
def entry (chunk : String) : Function :=
  .mk "effect" ["pixel"] [.mk 3 (.returnValues [copyTable "pixel"])] chunk 1

set_option maxRecDepth 100000 in
theorem lex_starter : lex starter.script = .ok tokens :=
  rfl

set_option maxRecDepth 10000 in
theorem parseTokens_starter (chunk : String) :
    parseTokens chunk tokens = .ok [.mk 1 (.define "effect" ["effect"] false (entry chunk))] :=
  rfl

/-- The script is one definition. -/
theorem parseChunk_starter (chunk : String) : parseChunk chunk starter.script =
    .ok ⟨chunk, [.mk 1 (.define "effect" ["effect"] false (entry chunk))]⟩ := by
  unfold parseChunk
  rw [lex_starter]
  dsimp only
  rw [parseTokens_starter]

/-- What the other file says about an effect with an id. -/
def description (id : String) : Metadata :=
  ⟨id, "Empty Effect", "1.0.0", "unknown <>", "pixfx generated empty effect", [], none⟩

theorem parse_starter (id : String) :
    Metadata.parse id starter.metadata = .ok (description id) :=
  rfl

end EffectTemplate

end CommandLine

open CommandLine

namespace Script

variable {s : Setting} {m : Machine} {call : Caller String} {env : Env}

/-- What a global was set to. -/
theorem global_setGlobal (h : 0 < m.tables.size) (name : String) (v : Value) :
    (m.setGlobal name v).global name = v := by
  unfold Machine.global Machine.setGlobal
  dsimp only
  rw [Heap.table_update_self m.tables (show Machine.globals.index < _ from h), Table.get_set,
    if_pos Std.ReflCmp.compare_self]

theorem size_setGlobal (name : String) (v : Value) :
    (m.setGlobal name v).tables.size = m.tables.size := by
  unfold Machine.setGlobal Heap.update
  exact Array.size_modify ..

/-- Where no declaration is in the way, a function is stored as a global. -/
theorem exec_define (hrecord : m.record = none) (hsteps : m.steps + 1 ≤ s.limits.maxSteps)
    {root : String} (hglobal : Env.slot? m.scopes env root = none) (line : Nat) (last : String)
    (isMethod : Bool) (definition : Function) :
    (Stmt.mk line (.define root [last] isMethod definition)).exec call env s m =
      .ok .normal ({ m with
        closures := m.closures.push ⟨definition, env⟩
        steps := m.steps + 1
        line := line }.setGlobal root (.function ⟨m.closures.size⟩)) := by
  have hstep := run_takeStep (s := s) (m := { m with line := line }) hrecord hsteps
  rw [Stmt.exec, run_bind]
  unfold atLine
  dsimp only
  rw [run_bind, hstep]
  dsimp only
  rw [Action.exec, run_bind]
  unfold newClosure
  dsimp only
  rw [run_bind]
  unfold defineAt writeVariable Machine.assign
  dsimp only [Reference.slot?]
  rw [hglobal]
  rfl

/-- A chunk that is one definition of a global function. -/
theorem execChunk_define (hrecord : m.record = none) (hbudget : 1 ≤ s.limits.maxSteps)
    (hglobals : 0 < m.tables.size) (chunk : String) (line : Nat) (root last : String)
    (isMethod : Bool) (definition : Function) :
    ∃ m' env, execChunk ⟨chunk, [.mk line (.define root [last] isMethod definition)]⟩ s m =
        .ok () m' ∧
      m'.record = none ∧ m'.tables.size = m.tables.size ∧
      m'.global root = .function ⟨m.closures.size⟩ ∧
      m'.closures[m.closures.size]? = some ⟨definition, env⟩ := by
  rcases m with ⟨tables, closures, scopes, steps, depth, nesting, chunk', line', record⟩
  cases hrecord
  -- Only the scope of the chunk is in sight, and it is empty.
  have hglobal : Env.slot? (scopes.push []) [⟨scopes.size⟩] root = none := by
    rw [Env.slot?]
    unfold scopeAt
    rw [Array.getD_eq_getD_getElem?, Array.getElem?_push_size]
    rfl
  have hexec : (Stmt.mk line (.define root [last] isMethod definition)).exec callWithin
      [⟨scopes.size⟩] s ⟨tables, closures, scopes.push [], 0, 0, 1, chunk, 0, none⟩ =
      .ok .normal _ :=
    exec_define rfl hbudget hglobal line last isMethod definition
  let defined : Machine := Machine.setGlobal ⟨tables, closures.push ⟨definition, [⟨scopes.size⟩]⟩,
    scopes.push [], 1, 0, 0, chunk, line, none⟩ root (.function ⟨closures.size⟩)
  have hinner : (newScope [] >>= fun scope =>
      execAll callWithin [scope] [.mk line (.define root [last] isMethod definition)]) s
        ⟨tables, closures, scopes, 0, 0, 1, chunk, 0, none⟩ =
          .ok .normal { defined with nesting := 1 } := by
    rw [run_bind]
    change (execAll callWithin _ _) s _ = _
    rw [execAll, run_bind, hexec]
    rfl
  have hblock : block callWithin [] [.mk line (.define root [last] isMethod definition)] s
      ⟨tables, closures, scopes, 0, 0, 0, chunk, 0, none⟩ = .ok .normal defined :=
    run_nested (m := ⟨tables, closures, scopes, 0, 0, 0, chunk, 0, none⟩) rfl
      (Nat.le_of_ble_eq_true rfl) hinner rfl
  refine ⟨defined, [⟨scopes.size⟩], ?_, rfl, size_setGlobal _ _, global_setGlobal hglobals _ _,
    Array.getElem?_push_size⟩
  unfold execChunk Machine.restarted
  rw [run_bind, hblock]
  rfl

end Script

namespace Sandbox

/-- A sandbox in which a script with one definition can be run: there is room for one statement and
    one call, no record, and the globals are there. -/
structure Ready (sandbox : Sandbox) : Prop where
  uncached : sandbox.caching = false
  budget : 1 ≤ sandbox.engine.setting.limits.maxSteps
  calls : 1 ≤ sandbox.engine.setting.limits.maxCallDepth
  record : sandbox.engine.machine.record = none
  globals : 0 < sandbox.engine.machine.tables.size

theorem Ready.bindParams {sandbox : Sandbox} (h : sandbox.Ready) (params : Params) :
    (sandbox.bindParams params).Ready := by
  rcases sandbox with ⟨effectId, missing, caching, ⟨setting, m⟩⟩
  refine ⟨h.uncached, h.budget, h.calls, h.record, ?_⟩
  have hextends := HostValue.toScript_extends m.tables
    (.record (params.toList.map fun p => (p.1, .text p.2)))
  show 0 < (Machine.setGlobal _ _ _).tables.size
  rw [size_setGlobal]
  exact Nat.lt_of_lt_of_le h.globals hextends.1

/-- A sandbox that copies channels has an entry that an effect can have. -/
theorem Copies.entryCause_eq {sandbox : Sandbox} (h : sandbox.Copies) :
    entryCause (sandbox.engine.entryPoint entryName) = none := by
  rcases h.entry with ⟨id, c, hid, hclosure, called, p, stmtLine, chunk, line, hdefinition⟩
  unfold Engine.entryPoint
  rw [hid]
  dsimp only
  rw [hclosure]
  dsimp only
  rw [hdefinition]
  rfl

/-- The script to start from makes a sandbox copy channels. -/
theorem Ready.loadScript {sandbox : Sandbox} (h : sandbox.Ready) (p : Package) (file : String) :
    ∃ loaded : Sandbox, loaded.Copies ∧ ∀ session, sandbox.loadScript p
      ⟨file, EffectTemplate.starter.script⟩ session = .ok loaded session := by
  rcases sandbox with ⟨effectId, missing, caching, ⟨setting, m⟩⟩
  rcases h with ⟨huncached, hbudget, hcalls, hrecord, hglobals⟩
  cases huncached
  dsimp only at hbudget hcalls hrecord hglobals
  let chunk := p.chunkName ⟨file, EffectTemplate.starter.script⟩
  rcases execChunk_define hrecord hbudget hglobals chunk 1 "effect" "effect" false
    (EffectTemplate.entry chunk) with ⟨m', env, hexec, hrecord', hsize, hentry, hclosure⟩
  refine ⟨⟨effectId, missing, false, ⟨setting, m'⟩⟩, ⟨hbudget, hcalls, hrecord', ?_,
    ⟨m.closures.size⟩, _, hentry, hclosure, _, _, _, _, _, rfl⟩, fun session => ?_⟩
  · dsimp only
    rw [hsize]
    exact hglobals
  · have hload : Engine.load ⟨setting, m⟩ none chunk EffectTemplate.starter.script =
        (.ok (), ⟨setting, m'⟩, none) := by
      unfold Engine.load fetchChunk
      dsimp only
      rw [EffectTemplate.parseChunk_starter]
      unfold Engine.runChunk Engine.run
      dsimp only
      rw [hexec]
    unfold Sandbox.loadScript
    simp only [Bool.false_eq_true, if_false]
    rw [hload]

end Sandbox

/-- A package with the files to start from. -/
structure Package.IsStarter (p : Package) : Prop where
  preload : p.metadata.preload = []
  scripts : ∃ file, p.scripts = [⟨file, EffectTemplate.starter.script⟩]

namespace Sandbox

/-- Without a cache, a sandbox with the script to start from can be made in any session, and copies
    channels. -/
theorem spawn_starter {engines : EngineSettings} (huncached : engines.caching = false)
    (hbudget : 1 ≤ engines.limits.maxSteps) (hcalls : 1 ≤ engines.limits.maxCallDepth) {p : Package}
    (hp : p.IsStarter) (missing : MissingChannel) (params : Params) :
    ∃ sandbox : Sandbox, sandbox.Copies ∧
      ∀ session, spawn engines missing p [] params session = .ok sandbox session := by
  rcases hp.scripts with ⟨file, hscripts⟩
  have hready : Ready ⟨p.id, missing, engines.caching, .new ⟨engines.limits, engines.address⟩⟩ :=
    ⟨huncached, hbudget, hcalls, rfl, Nat.succ_pos 3⟩
  rcases (hready.bindParams params).loadScript p file with ⟨sandbox, hcopies, hload⟩
  refine ⟨sandbox, hcopies, fun session => ?_⟩
  have hloads : loadScripts (bindParams ⟨p.id, missing, engines.caching,
      .new ⟨engines.limits, engines.address⟩⟩ params) p session = .ok sandbox session := by
    unfold loadScripts
    rw [hscripts, List.foldlM_cons, Operation.bind_of_ok (hload session)]
    rfl
  show loadEffect (bindParams ⟨p.id, missing, engines.caching,
    .new ⟨engines.limits, engines.address⟩⟩ params) p session = _
  unfold loadEffect
  rw [Operation.bind_of_ok hloads, hcopies.entryCause_eq]
  rfl

end Sandbox

namespace Effect

/-- An effect with the files to start from gives back every pixel. -/
theorem givesBack_starter {effect : Effect} (huncached : effect.engines.caching = false)
    (hbudget : 1 ≤ effect.engines.limits.maxSteps)
    (hcalls : 1 ≤ effect.engines.limits.maxCallDepth) (hp : effect.package.IsStarter)
    (hlibs : effect.libs = []) : effect.GivesBack Sandbox.Copies := by
  refine ⟨fun session => ?_, fun _ p h => h.invoke p⟩
  rcases Sandbox.spawn_starter huncached hbudget hcalls hp effect.missing effect.params with
    ⟨sandbox, hcopies, hspawn⟩
  unfold spawn
  rw [hlibs]
  exact ⟨sandbox, hspawn session, hcopies⟩

end Effect

end PixelEffects
