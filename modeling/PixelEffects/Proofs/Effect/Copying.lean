import PixelEffects.Proofs.Effect.Parallel
import PixelEffects.Proofs.Number.Equality
import PixelEffects.Proofs.Script.HostValue.RoundTrip

/-!
# Effects That Copy Channels

A function that gives the channels of its argument in a new table changes no pixel.

Such a function reads its argument four times, and reading leaves the machine as it is. So a call of
it makes one table, and everything else is as it was, apart from the scopes and the counts. The
pixel that goes in is a record of small whole numbers. They come out as the same numbers, and
rounding and holding them inside the range of a channel does nothing to them.

What the call needs is its entry in the globals, a budget of one step, and room for one call. These
are there for each pixel, since counts start anew and the globals are left alone. So an effect with
this entry gives back every image, in whatever way it is applied.

## Main definitions

* `Script.Leaves`: A computation that leaves the machine as it is.
* `Script.Closure.Copies`: A function that gives the channels of its argument.
* `Sandbox.Copies`: A sandbox with such a function as its entry.
* `ApplyOptions.Usable`: Options with which an effect can be applied.

## Theorems

* `Script.callGlobal_copies`: What a call of such a function does.
* `Sandbox.coerce_copied`: The pixel that went in comes out.
* `Sandbox.Copies.invoke`: What copies one pixel copies the next one.
* `Effect.GivesBack.apply`: An effect that gives back every pixel gives back every image.
-/

namespace PixelEffects

namespace Script

variable {α β : Type}

/-! ## Computations that read -/

/-- Without a record nothing is noted. -/
theorem note_of_record {m : Machine} (h : m.record = none) (e : Event) : m.note e = m := by
  unfold Machine.note
  rw [h]

/-- A region on a machine without a record, in which there is room for it. -/
theorem run_nested {region : Region} {body : Eval String α} {s : Setting} {m m' : Machine} {a : α}
    (hrecord : m.record = none) (hroom : m.nesting < maxNesting)
    (hbody : body s { m with nesting := m.nesting + 1 } = .ok a m') (hrecord' : m'.record = none) :
    nested region body s m = .ok a { m' with nesting := m'.nesting - 1 } := by
  unfold nested
  rw [if_neg (Nat.not_le.mpr hroom)]
  unfold watched deeper around
  dsimp only
  rw [note_of_record hrecord, hbody]
  exact congrArg (EStateM.Result.ok a)
    (note_of_record (m := { m' with nesting := m'.nesting - 1 }) hrecord' _)

theorem run_single {x : Eval String (List Value)} {s : Setting} {m m' : Machine}
    {vs : List Value} (hrecord : m.record = none) (hroom : m.nesting < maxNesting)
    (hx : x s { m with nesting := m.nesting + 1 } = .ok vs m') (hrecord' : m'.record = none) :
    single x s m = .ok (vs.headD .nil) { m' with nesting := m'.nesting - 1 } := by
  refine run_nested hrecord hroom ?_ hrecord'
  rw [run_bind, hx]
  rfl

/-- A step within the budget. -/
theorem run_takeStep {s : Setting} {m : Machine} (hrecord : m.record = none)
    (hsteps : m.steps + 1 ≤ s.limits.maxSteps) :
    takeStep s m = .ok () { m with steps := m.steps + 1 } := by
  unfold takeStep
  rw [run_bind]
  unfold tick
  dsimp only
  rw [if_neg (Nat.not_lt.mpr hsteps)]
  exact congrArg (EStateM.Result.ok ())
    (note_of_record (m := { m with steps := m.steps + 1 }) hrecord _)

/-- A computation that gives a result and leaves the machine as it is, if it can go so many levels
    further in. -/
def Leaves (s : Setting) (m : Machine) (levels : Nat) (x : Eval String α) (a : α) : Prop :=
  ∀ n, n + levels ≤ maxNesting → x s { m with nesting := n } = .ok a { m with nesting := n }

section Leaves

variable {s : Setting} {m : Machine} {levels : Nat} {env : Env} {call : Caller String}

theorem leaves_pure (a : α) : Leaves s m levels (pure a) a :=
  fun _ _ => rfl

theorem Leaves.bind {x : Eval String α} {f : α → Eval String β} {a : α} {b : β}
    (hx : Leaves s m levels x a) (hf : Leaves s m levels (f a) b) :
    Leaves s m levels (x >>= f) b := by
  intro n hn
  rw [run_bind, hx n hn]
  exact hf n hn

theorem Leaves.single {x : Eval String (List Value)} {vs : List Value} (hrecord : m.record = none)
    (hx : Leaves s m levels x vs) : Leaves s m (levels + 1) (single x) (vs.headD .nil) := by
  intro n hn
  exact run_single (m := { m with nesting := n }) hrecord (by dsimp only; omega)
    (hx (n + 1) (by omega)) hrecord

theorem leaves_name {p : String} {v : Value} (hp : m.lookup env p = v) :
    Leaves s m levels ((Expr.name p).results call env) [v] := by
  intro n _
  rw [Expr.results, ← hp]
  rfl

/-- An entry of the table that a variable holds. -/
theorem leaves_entry {p : String} {id : TableId} (hrecord : m.record = none)
    (hp : m.lookup env p = .table id) (name : String) :
    Leaves s m 1 ((Expr.index (.name p) (.text name)).results call env)
      [(m.tables.table id).get (.text name)] := by
  have htext : Leaves s m 0 ((Expr.text name).results call env) [.text name] := by
    rw [Expr.results]
    exact leaves_pure _
  rw [Expr.results]
  refine ((leaves_name hp).single hrecord).bind ((htext.single hrecord).bind ?_)
  exact fun _ _ => rfl

/-- The entries of a table constructor that takes them from the table that a variable holds. -/
theorem leaves_addFields {p : String} {id : TableId} (hrecord : m.record = none)
    (hp : m.lookup env p = .table id) (names : List String) (t : Table) (position : Nat) :
    Leaves s m 2 (addFields call env t position
        (names.map fun name => .named name (.index (.name p) (.text name))))
      (names.foldl (fun t name => t.set (.text name) ((m.tables.table id).get (.text name)))
        t) := by
  induction names generalizing t with
  | nil =>
      rw [List.map_nil, addFields]
      exact leaves_pure t
  | cons name names ih =>
      rw [List.map_cons, addFields]
      exact ((leaves_entry hrecord hp name).single hrecord).bind (ih _)

end Leaves

/-! ## Functions that copy channels -/

/-- The names of the channels. -/
def channelNames : List String :=
  ["r", "g", "b", "a"]

/-- A new table with the channels that are entries of another one. -/
def channelsOf (t : Table) : Table :=
  channelNames.foldl (fun copy name => copy.set (.text name) (t.get (.text name))) .empty

/-- A new table with the channels that are entries of what a name means. -/
def copyTable (p : String) : Expr :=
  .table (channelNames.map fun name => .named name (.index (.name p) (.text name)))

/-- A function with one parameter that gives its channels and does nothing else. -/
def Closure.Copies (c : Closure) : Prop :=
  ∃ called p stmtLine chunk line, c.definition =
    .mk called [p] [.mk stmtLine (.returnValues [copyTable p])] chunk line

section Calls

variable {s : Setting} {m : Machine} {call : Caller String} {env : Env} {p : String} {id : TableId}

/-- The constructor makes one table. -/
theorem run_copyTable (hrecord : m.record = none) (hroom : m.nesting + 3 ≤ maxNesting)
    (hp : m.lookup env p = .table id) :
    single ((copyTable p).results call env) s m = .ok (.table ⟨m.tables.size⟩)
      { m with tables := m.tables.push (channelsOf (m.tables.table id)) } := by
  have hfields : addFields call env .empty 1
      (channelNames.map fun name => .named name (.index (.name p) (.text name))) s
        { m with nesting := m.nesting + 1 } =
      .ok (channelsOf (m.tables.table id)) { m with nesting := m.nesting + 1 } :=
    leaves_addFields hrecord hp channelNames .empty 1 (m.nesting + 1) (by omega)
  have htable : (copyTable p).results call env s { m with nesting := m.nesting + 1 } =
      .ok [.table ⟨m.tables.size⟩] { m with
        tables := m.tables.push (channelsOf (m.tables.table id)), nesting := m.nesting + 1 } := by
    unfold copyTable
    rw [Expr.results, run_bind, hfields]
    rfl
  exact run_single hrecord (by omega) htable hrecord

/-- The statement takes one step. -/
theorem exec_copyTable (hrecord : m.record = none) (hroom : m.nesting + 3 ≤ maxNesting)
    (hsteps : m.steps + 1 ≤ s.limits.maxSteps) (hp : m.lookup env p = .table id) (line : Nat) :
    (Stmt.mk line (.returnValues [copyTable p])).exec call env s m =
      .ok (.returned [.table ⟨m.tables.size⟩]) { m with
        tables := m.tables.push (channelsOf (m.tables.table id))
        steps := m.steps + 1
        line := line } := by
  have hstep := run_takeStep (s := s) (m := { m with line := line }) hrecord hsteps
  have hvalue : single ((copyTable p).results call env) s
      { m with line := line, steps := m.steps + 1 } = .ok (.table ⟨m.tables.size⟩) _ :=
    run_copyTable hrecord hroom hp
  have hall : resultsOfAll call env [copyTable p] =
      (single ((copyTable p).results call env) >>= fun v => pure [v]) := by
    rw [resultsOfAll]
    rfl
  rw [Stmt.exec, run_bind]
  unfold atLine
  dsimp only
  rw [run_bind, hstep]
  dsimp only
  rw [Action.exec, hall, bind_assoc, run_bind, hvalue]
  rfl

/-- What is declared in front of an empty scope is found there. -/
theorem lookup_argument (m : Machine) (p : String) (v : Value) (env : Env) :
    ({ m with scopes := (m.scopes.push [(p, v)]).push [] } : Machine).lookup
      (⟨(m.scopes.push [(p, v)]).size⟩ :: ⟨m.scopes.size⟩ :: env) p = v := by
  have hinner :
      scopeAt ((m.scopes.push [(p, v)]).push []) ⟨(m.scopes.push [(p, v)]).size⟩ = [] := by
    unfold scopeAt
    rw [Array.getD_eq_getD_getElem?, Array.getElem?_push_size]
    rfl
  have houter : scopeAt ((m.scopes.push [(p, v)]).push []) ⟨m.scopes.size⟩ = [(p, v)] := by
    unfold scopeAt
    rw [Array.getD_eq_getD_getElem?, Array.getElem?_push, Array.size_push,
      if_neg (Nat.ne_of_lt (Nat.lt_succ_self _)), Array.getElem?_push_size]
    rfl
  have hslot : Env.slot? ((m.scopes.push [(p, v)]).push [])
      (⟨(m.scopes.push [(p, v)]).size⟩ :: ⟨m.scopes.size⟩ :: env) p =
        some ⟨⟨m.scopes.size⟩, 0⟩ := by
    rw [Env.slot?, hinner]
    dsimp only [List.findIdx?_nil]
    rw [Env.slot?, houter]
    simp
  unfold Machine.lookup
  dsimp only [Reference.slot?]
  rw [hslot]
  unfold Machine.slotValue
  dsimp only
  rw [houter]
  rfl

/-- The body of such a function, in a call with a table. -/
theorem run_copyBody (hbudget : 1 ≤ s.limits.maxSteps) (stmtLine : Nat) (tables : Heap)
    (closures : Array Closure) (scopes : Array Scope) (chunk : String) (line : Nat) :
    (newScope (Scope.declareAll [p] [.table id] []) >>= fun frame =>
      block call (frame :: env) [.mk stmtLine (.returnValues [copyTable p])]) s
        ⟨tables, closures, scopes, 0, 1, 0, chunk, line, none⟩ =
      .ok (.returned [.table ⟨tables.size⟩])
        ⟨tables.push (channelsOf (tables.table id)), closures,
          (scopes.push [(p, .table id)]).push [], 1, 1, 0, chunk, stmtLine, none⟩ := by
  -- The scope of the block is empty, and the frame is behind it.
  have hp := lookup_argument (⟨tables, closures, scopes, 0, 1, 1, chunk, line, none⟩ : Machine) p
    (.table id) env
  have hexec : (Stmt.mk stmtLine (.returnValues [copyTable p])).exec call
      (⟨(scopes.push [(p, .table id)]).size⟩ :: ⟨scopes.size⟩ :: env) s ⟨tables, closures,
        (scopes.push [(p, .table id)]).push [], 0, 1, 1, chunk, line, none⟩ =
      .ok (.returned [.table ⟨tables.size⟩]) _ :=
    exec_copyTable rfl (Nat.le_of_ble_eq_true rfl) hbudget hp stmtLine
  have hinner : (newScope [] >>= fun scope =>
      execAll call (scope :: ⟨scopes.size⟩ :: env) [.mk stmtLine (.returnValues [copyTable p])]) s
        ⟨tables, closures, scopes.push [(p, .table id)], 0, 1, 1, chunk, line, none⟩ =
      .ok (.returned [.table ⟨tables.size⟩])
        ⟨tables.push (channelsOf (tables.table id)), closures,
          (scopes.push [(p, .table id)]).push [], 1, 1, 1, chunk, stmtLine, none⟩ := by
    rw [run_bind]
    change (execAll call _ _) s _ = _
    rw [execAll, run_bind, hexec]
    rfl
  exact run_nested (m := ⟨tables, closures, scopes.push [(p, .table id)], 0, 1, 0, chunk, line,
    none⟩) rfl (Nat.le_of_ble_eq_true rfl) hinner rfl

/-- A call of such a function with a table. -/
theorem callWithin_copies {c : Closure} (hc : c.Copies) (hbudget : 1 ≤ s.limits.maxSteps)
    (hcalls : 1 ≤ s.limits.maxCallDepth) (id : TableId) (tables : Heap)
    (closures : Array Closure) (scopes : Array Scope) (chunk : String) (line : Nat) :
    ∃ scopes', callWithin c [.table id] s ⟨tables, closures, scopes, 0, 0, 0, chunk, line, none⟩ =
      .ok [.table ⟨tables.size⟩] ⟨tables.push (channelsOf (tables.table id)), closures, scopes', 1,
        0, 0, chunk, line, none⟩ := by
  rcases hc with ⟨called, p, stmtLine, definedIn, definedAt, hdefinition⟩
  rcases c with ⟨definition, env⟩
  cases hdefinition
  have hframed : framed definedIn definedAt (newScope (Scope.declareAll [p] [.table id] []) >>=
      fun frame => block (callClosure s.limits.maxCallDepth) (frame :: env)
        [.mk stmtLine (.returnValues [copyTable p])]) s
          ⟨tables, closures, scopes, 0, 0, 0, chunk, line, none⟩ =
      .ok (.returned [.table ⟨tables.size⟩]) _ :=
    run_framed hcalls
      (run_copyBody hbudget stmtLine tables closures scopes definedIn definedAt)
  refine ⟨(scopes.push [(p, .table id)]).push [], ?_⟩
  show ((framed definedIn definedAt (newScope (Scope.declareAll [p] [.table id] []) >>=
    fun frame => block (callClosure s.limits.maxCallDepth) (frame :: env)
      [.mk stmtLine (.returnValues [copyTable p])])) >>= fun flow => _ :
        Eval String (List Value)) s _ = _
  rw [run_bind, hframed]
  rfl

/-- A call of a global function that copies channels. -/
theorem callGlobal_copies (hbudget : 1 ≤ s.limits.maxSteps) (hcalls : 1 ≤ s.limits.maxCallDepth)
    (hrecord : m.record = none) {name : String} {closure : ClosureId} {c : Closure}
    (hglobal : m.global name = .function closure)
    (hclosure : m.closures[closure.index]? = some c) (hc : c.Copies) (id : TableId) :
    ∃ scopes, callGlobal name [.table id] s m = .ok [.table ⟨m.tables.size⟩]
      ⟨m.tables.push (channelsOf (m.tables.table id)), m.closures, scopes, 1, 0, 0, m.chunk, m.line,
        none⟩ := by
  -- The counts that the machine had are gone when the call begins.
  rw [callGlobal_function hglobal hclosure]
  rcases m with ⟨tables, closures, scopes, steps, depth, nesting, chunk, line, record⟩
  cases hrecord
  exact callWithin_copies hc hbudget hcalls id tables closures scopes chunk line

end Calls

/-- What comes out of a table with the channels, if they are numbers. -/
theorem ofScript_channelsOf {t : Table} {r g b a : Float} (hr : t.get (.text "r") = .number r)
    (hg : t.get (.text "g") = .number g) (hb : t.get (.text "b") = .number b)
    (ha : t.get (.text "a") = .number a) (heap : Heap) :
    HostValue.ofScript (heap.push (channelsOf t)) (.table ⟨heap.size⟩) =
      .record [("a", .number a), ("b", .number b), ("g", .number g), ("r", .number r)] := by
  have hentries : (channelsOf t).toList =
      [(.text "a", .number a), (.text "b", .number b), (.text "g", .number g),
        (.text "r", .number r)] := by
    unfold channelsOf channelNames
    rw [List.foldl_cons, List.foldl_cons, List.foldl_cons, List.foldl_cons, List.foldl_nil, hr, hg,
      hb, ha]
    rfl
  unfold HostValue.ofScript HostValue.maxDepth HostValue.ofScriptWithin
  rw [Heap.Extends.table_pushed (Heap.Extends.refl _), hentries]
  -- The entries are in the order of the names already.
  have hnames : ["a", "b", "g", "r"].Pairwise fun a b => compare a b = .lt := by
    decide
  refine congrArg HostValue.record (HostValue.collect_of_ascending ?_)
  exact (List.pairwise_map (f := Prod.fst) (R := fun a b => compare a b = .lt)).mp hnames

end Script

namespace Sandbox

open Script

/-- Rounding and holding inside the range of a channel does nothing to a channel. -/
theorem clampedNearest_channel (c : UInt8) :
    UInt8.ofNat (Number.clampedNearest 0 255 (Float.ofNat c.toNat)).toNat = c := by
  have hall : ∀ n < 256, (Number.clampedNearest 0 255 (Float.ofNat n)).toNat = n := by
    decide +kernel
  rw [hall c.toNat c.toNat_lt]
  exact UInt8.ofNat_toNat

/-- A channel that is there as a number. -/
theorem channel?_of_number {missing : MissingChannel} {result : HostValue} {name : String}
    {c : UInt8} (h : result.field? name = some (.number (Float.ofNat c.toNat))) (current : UInt8) :
    channel? missing result name current = .ok c := by
  unfold channel?
  rw [h]
  dsimp only
  rw [Number.isNaN_ofNat, if_neg Bool.false_ne_true, clampedNearest_channel]

/-- The pixel that went in comes out, whatever is done about missing channels. -/
theorem coerce_copied (missing : MissingChannel) (p : Pixel) :
    coerce missing p (.record [("a", .number (Float.ofNat p.rgba.a.toNat)),
      ("b", .number (Float.ofNat p.rgba.b.toNat)), ("g", .number (Float.ofNat p.rgba.g.toNat)),
      ("r", .number (Float.ofNat p.rgba.r.toNat))]) = .ok p := by
  unfold coerce
  dsimp only
  rw [channel?_of_number rfl, channel?_of_number rfl, channel?_of_number rfl,
    channel?_of_number rfl]
  rfl

/-- A pixel is passed as a table with its channels. -/
theorem pixelRecord_channels (p : Pixel) (heap : Heap) :
    ∃ t, HostValue.allToScript [pixelRecord p] heap = ([.table ⟨heap.size⟩], heap.push t) ∧
      t.get (.text "r") = .number (Float.ofNat p.rgba.r.toNat) ∧
      t.get (.text "g") = .number (Float.ofNat p.rgba.g.toNat) ∧
      t.get (.text "b") = .number (Float.ofNat p.rgba.b.toNat) ∧
      t.get (.text "a") = .number (Float.ofNat p.rgba.a.toNat) :=
  ⟨_, rfl, rfl, rfl, rfl, rfl⟩

/-- A sandbox whose entry copies channels, with room for one call of it and no record. -/
structure Copies (sandbox : Sandbox) : Prop where
  budget : 1 ≤ sandbox.engine.setting.limits.maxSteps
  calls : 1 ≤ sandbox.engine.setting.limits.maxCallDepth
  record : sandbox.engine.machine.record = none
  globals : 0 < sandbox.engine.machine.tables.size
  entry : ∃ id c, sandbox.engine.machine.global entryName = .function id ∧
    sandbox.engine.machine.closures[id.index]? = some c ∧ c.Copies

/-- A sandbox that copies pixels gives back each one, and goes on to copy them. -/
theorem Copies.invoke {sandbox : Sandbox} (h : sandbox.Copies) (p : Pixel) :
    (sandbox.invoke p).1 = .ok p ∧ (sandbox.invoke p).2.Copies := by
  rcases sandbox with ⟨effectId, missing, caching, ⟨setting, m⟩⟩
  rcases h with ⟨hbudget, hcalls, hrecord, hglobals, closure, c, hentry, hclosure, hc⟩
  dsimp only at hbudget hcalls hrecord hglobals hentry hclosure
  rcases pixelRecord_channels p m.tables with ⟨t, hpassed, hr, hg, hb, ha⟩
  -- The machine as the call finds it has one table more, and so has the same entry.
  have hpassedEntry := (global_push hglobals t entryName).trans hentry
  rcases callGlobal_copies (m := { m with tables := m.tables.push t }) hbudget hcalls hrecord
    hpassedEntry hclosure hc ⟨m.tables.size⟩ with ⟨scopes, hcall⟩
  have hargument : Heap.table (m.tables.push t) ⟨m.tables.size⟩ = t :=
    Heap.Extends.table_pushed (Heap.Extends.refl _)
  dsimp only at hcall
  rw [hargument] at hcall
  rw [invoke_of_call effectId missing caching hpassed hcall,
    ofScript_channelsOf hr hg hb ha (m.tables.push t), coerce_copied]
  -- Neither of the two tables touches the globals, so the entry is still the same function.
  have hpushed : 0 < (m.tables.push t).size := by
    rw [Array.size_push]
    exact Nat.succ_pos _
  have hkept := (global_push (m := ⟨m.tables.push t, m.closures, scopes, 1, 0, 0, m.chunk, m.line,
    none⟩) hpushed (channelsOf t) entryName).trans hpassedEntry
  refine ⟨rfl, hbudget, hcalls, rfl, ?_, closure, c, hkept, hclosure, hc⟩
  rw [Array.size_push]
  exact Nat.succ_pos _

end Sandbox

/-! ## Images -/

/-- Options with which an effect can be applied: there is a thread, and if there are to be workers, a
    pool can be built for them, and they divide the rows. -/
structure ApplyOptions.Usable (options : ApplyOptions) : Prop where
  threads : options.threads ≠ some 0
  pool : options.parallel = true → options.plan.pool options.threads = .ok ()
  rows : options.parallel = true →
    ∀ height, (options.plan.rows height).flatten.Perm (List.range height)

namespace Effect

variable {effect : Effect} {session : Session}

/-- An image comes to itself if each pixel does. -/
theorem transforms_self {f : Pixel → Except Error Pixel} (h : ∀ p, f p = .ok p) (source : Image) :
    source.Transforms f (.ok source) :=
  .image source rfl rfl fun x y _ _ => ⟨source.pixel x y, h _, rfl⟩

/-- An image without pixels is known by its sides. -/
theorem eq_blank_of_isEmpty {source : Image} (h : source.isEmpty = true) :
    Image.blank source.width source.height = source := by
  refine Image.ext_get rfl rfl fun x y hx hy => ?_
  have hsides : source.width = 0 ∨ source.height = 0 := by
    simpa [Image.isEmpty] using h
  have hx : x < source.width := hx
  have hy : y < source.height := hy
  omega

/-- An effect that gives back every pixel gives back every image, in whatever way it is applied. -/
theorem GivesBack.apply {I : Sandbox → Prop} (h : effect.GivesBack I)
    (hflag : CancelFlag.Unset session.cancel) {options : ApplyOptions} (hoptions : options.Usable)
    (source : Image) : (effect.apply options source).outcome session = .ok source := by
  have hsteady := h.steady session
  rcases h.spawns session with ⟨fresh, hspawn, hinv⟩
  have hfresh : effect.Fresh session fresh := ⟨session, session, .here, hspawn⟩
  have hself := transforms_self (f := pixelwise fresh) (fun p => by
    unfold pixelwise
    rw [(h.invokes fresh p hinv).1]
    rfl) source
  -- With pixels there is one result only, in whatever order the rows are taken.
  unfold Effect.apply
  rw [if_neg (by simpa using hoptions.threads)]
  split
  · next hempty => exact congrArg Except.ok (eq_blank_of_isEmpty hempty)
  · split
    · next hparallel =>
        exact (applyParallel_transforms hsteady hflag hfresh (hoptions.pool hparallel) source
          (hoptions.rows hparallel source.height)).unique hself
    · exact (applySequential_transforms hsteady hflag hfresh source).unique hself

end Effect

end PixelEffects
