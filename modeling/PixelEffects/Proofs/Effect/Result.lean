import PixelEffects.Effect.Sandbox
import PixelEffects.Proofs.Except
import PixelEffects.Proofs.Number.Nearest
import PixelEffects.Proofs.Script.Host
import PixelEffects.Proofs.Script.HostValue.Fields

/-!
# What an Effect Returns

The pixel that is made of the result of an effect.

An effect may return anything. If its first result is a table, four of the entries count, those under
the names of the channels. The table goes through a conversion first, in which all of it is copied and
keys that are no texts are written as texts, so it has to be seen that this neither hides one of the four
nor puts something else in its place. After that each channel is settled on its own, and the first that
is not a number, in the order of the channels, is what the failure names.

The result is taken as the call of the entry leaves it, whatever the effect is and whatever was run in
the sandbox before.

## Main definitions

* `Channel`: The four channels.
* `Channel.Fits`, `Channel.Sets`: When an entry can be a channel, and which it becomes.
* `Channel.FirstMisfit`: The first channel that cannot be.
* `Sandbox.entryCall`: The call of the entry with a pixel.
* `Sandbox.TableContract`: What becomes of a pixel when a table was returned.

## Theorems

* `Channel.Sets.unique`: An entry determines the channel.
* `Sandbox.channel?_of_fits`, `Sandbox.channel?_of_misfit`: One channel.
* `Sandbox.invoke_contract`: All results.
-/

namespace PixelEffects

open Script

/-! ## Channels -/

/-- The channels of a pixel. -/
inductive Channel
  | red
  | green
  | blue
  | alpha
deriving DecidableEq

namespace Channel

/-- The channels in the order in which they are looked at. -/
def inOrder : List Channel :=
  [red, green, blue, alpha]

/-- The name that a script has for a channel. -/
def name : Channel → String
  | red => "r"
  | green => "g"
  | blue => "b"
  | alpha => "a"

/-- A channel of a color. -/
def of (rgba : Rgba) : Channel → UInt8
  | red => rgba.r
  | green => rgba.g
  | blue => rgba.b
  | alpha => rgba.a

/-- What a table has for a channel, `nil` when it has nothing. -/
def entry (t : Table) (c : Channel) : Value :=
  t.get (.text c.name)

/-- An entry that can be a channel: none, or a number that is not NaN. -/
def Fits (v : Value) : Prop :=
  v = .nil ∨ ∃ x, v = .number x ∧ x.isNaN = false

/-- The channel that an entry becomes: what is absent is kept or cleared, and a number is rounded
    and held inside the range of a channel. -/
inductive Sets (missing : MissingChannel) (current : UInt8) : Value → UInt8 → Prop
  | kept (hmissing : missing = .preserve) : Sets missing current .nil current
  | cleared (hmissing : missing = .zero) : Sets missing current .nil 0
  | held {x : Float} {channel : UInt8} (hx : Number.HeldTo 0 255 x channel.toNat) :
      Sets missing current (.number x) channel

/-- The first channel whose entry cannot be one. -/
def FirstMisfit (t : Table) (c : Channel) : Prop :=
  ∃ before after, inOrder = before ++ c :: after ∧ (∀ c' ∈ before, Fits (c'.entry t)) ∧
    ¬ Fits (c.entry t)

/-- What is said of a channel whose entry cannot be one. -/
def complaint (c : Channel) : Value → ScriptCause
  | .number _ => .channelNaN c.name
  | v => .channelType c.name v.type

theorem Sets.unique {missing : MissingChannel} {current : UInt8} {v : Value} {u u' : UInt8}
    (h : Sets missing current v u) (h' : Sets missing current v u') : u = u' := by
  cases h with
  | kept hmissing =>
      cases h' with
      | kept _ => rfl
      | cleared hmissing' => cases hmissing.symm.trans hmissing'
  | cleared hmissing =>
      cases h' with
      | kept hmissing' => cases hmissing.symm.trans hmissing'
      | cleared _ => rfl
  | held hx =>
      cases h' with
      | held hx' => exact UInt8.toNat_inj.mp (Int.ofNat_inj.mp (hx.unique hx'))

/-- No boolean and no number is written like the name of a channel. -/
theorem textOnly_name (c : Channel) : HostValue.TextOnly c.name := by
  cases c with
  | red => exact HostValue.textOnly_of_letter (c := 'r') rfl
  | green => exact HostValue.textOnly_of_letter (c := 'g') rfl
  | blue => exact HostValue.textOnly_of_letter (c := 'b') rfl
  | alpha => exact HostValue.textOnly_of_letter (c := 'a') rfl

end Channel

namespace Sandbox

/-! ## One channel -/

section Channels

variable (heap : Heap) (missing : MissingChannel) (id : TableId) (c : Channel)

/-- A channel is settled by the entry under its name. What there is of an entry has been taken out of
    one table. -/
theorem channel?_eq (current : UInt8) :
    channel? missing (HostValue.ofScript heap (.table id)) c.name current =
      match HostValue.ofScriptWithin heap 15 (c.entry (heap.table id)) with
      | .nil => .ok (match missing with
          | .preserve => current
          | .zero => 0)
      | .number x =>
        if x.isNaN then .error (.channelNaN c.name)
        else .ok (UInt8.ofNat (Number.clampedNearest 0 255 x).toNat)
      | v => .error (.channelType c.name v.type) := by
  unfold channel? HostValue.ofScript Channel.entry Table.get
  rw [HostValue.maxDepth, HostValue.field?_ofScript c.textOnly_name]
  cases (heap.table id).entries[Key.text c.name]? with
  | none => rfl
  | some v => cases v <;> rfl

variable {heap missing id c}

theorem channel?_of_fits (h : Channel.Fits (c.entry (heap.table id))) (current : UInt8) :
    ∃ u, channel? missing (HostValue.ofScript heap (.table id)) c.name current = .ok u ∧
      Channel.Sets missing current (c.entry (heap.table id)) u := by
  rw [channel?_eq]
  rcases h with h | ⟨x, h, hnan⟩
  · rw [h]
    cases missing with
    | preserve => exact ⟨current, rfl, .kept rfl⟩
    | zero => exact ⟨0, rfl, .cleared rfl⟩
  · rw [h]
    refine ⟨_, if_neg (by rw [hnan]; exact Bool.false_ne_true), .held ?_⟩
    have hheld := Number.clampedNearest_heldTo 0 255 hnan
    have hrange := hheld.mem (by decide)
    have hexact : ((UInt8.ofNat (Number.clampedNearest 0 255 x).toNat).toNat : ℤ) =
        Number.clampedNearest 0 255 x := by
      have hsize : (Number.clampedNearest 0 255 x).toNat < UInt8.size := by
        have hlt : (Number.clampedNearest 0 255 x).toNat < 256 := by omega
        exact hlt
      rw [UInt8.toNat_ofNat_of_lt' hsize, Int.toNat_of_nonneg hrange.1]
    rw [hexact]
    exact hheld

theorem channel?_of_misfit (h : ¬ Channel.Fits (c.entry (heap.table id))) (current : UInt8) :
    channel? missing (HostValue.ofScript heap (.table id)) c.name current =
      .error (c.complaint (c.entry (heap.table id))) := by
  rw [channel?_eq]
  cases hentry : c.entry (heap.table id) with
  | nil => exact absurd (.inl hentry) h
  | number x =>
      have hnan : x.isNaN = true := by
        by_contra hnan
        exact h (.inr ⟨x, hentry, eq_false_of_ne_true hnan⟩)
      exact if_pos hnan
  | _ => rfl

/-! ## All channels -/

/-- A result that is a record is looked at channel by channel, up to the first that fails. -/
theorem coerce_record (missing : MissingChannel) (p : Pixel) {result : HostValue}
    {fields : List (String × HostValue)} (hresult : result = .record fields) :
    (∃ rgba, (∀ c : Channel, channel? missing result c.name (c.of p.rgba) =
        .ok (c.of rgba)) ∧ coerce missing p result = .ok ⟨p.x, p.y, rgba⟩) ∨
      ∃ before c after cause, Channel.inOrder = before ++ c :: after ∧
        (∀ c' ∈ before, ∃ u, channel? missing result c'.name (c'.of p.rgba) = .ok u) ∧
        channel? missing result c.name (c.of p.rgba) = .error cause ∧
        coerce missing p result = .error cause := by
  have hcoerce : coerce missing p result = (do
      let r ← channel? missing result "r" p.rgba.r
      let g ← channel? missing result "g" p.rgba.g
      let b ← channel? missing result "b" p.rgba.b
      let a ← channel? missing result "a" p.rgba.a
      pure ⟨p.x, p.y, ⟨r, g, b, a⟩⟩) := by
    rw [hresult]
    rfl
  rw [hcoerce]
  cases hr : channel? missing result "r" p.rgba.r with
  | error cause => exact .inr ⟨[], .red, _, cause, rfl, by simp, hr, rfl⟩
  | ok r =>
  have hred : ∃ u, channel? missing result Channel.red.name (Channel.red.of p.rgba) =
      .ok u := ⟨r, hr⟩
  cases hg : channel? missing result "g" p.rgba.g with
  | error cause => exact .inr ⟨[.red], .green, _, cause, rfl, by simp [hred], hg, rfl⟩
  | ok g =>
  have hgreen : ∃ u, channel? missing result Channel.green.name
      (Channel.green.of p.rgba) = .ok u := ⟨g, hg⟩
  cases hb : channel? missing result "b" p.rgba.b with
  | error cause => exact .inr ⟨[.red, .green], .blue, _, cause, rfl, by simp [hred, hgreen], hb, rfl⟩
  | ok b =>
  have hblue : ∃ u, channel? missing result Channel.blue.name (Channel.blue.of p.rgba) =
      .ok u := ⟨b, hb⟩
  cases ha : channel? missing result "a" p.rgba.a with
  | error cause =>
      exact .inr ⟨[.red, .green, .blue], .alpha, _, cause, rfl, by simp [hred, hgreen, hblue], ha,
        rfl⟩
  | ok a =>
      refine .inl ⟨⟨r, g, b, a⟩, fun c => ?_, rfl⟩
      cases c with
      | red => exact hr
      | green => exact hg
      | blue => exact hb
      | alpha => exact ha

end Channels

/-! ## The contract -/

/-- Call the entry with a pixel. -/
def entryCall (sandbox : Sandbox) (p : Pixel) : Except Fault (List Value) × Engine :=
  let passed := sandbox.engine.machine.onTables (HostValue.allToScript [pixelRecord p])
  Engine.run ⟨sandbox.engine.setting, passed.2⟩ (callGlobal entryName passed.1)

/-- What becomes of a pixel when the first result is a table. -/
structure TableContract (sandbox : Sandbox) (p : Pixel) (t : Table)
    (outcome : Except ScriptError Pixel) : Prop where
  success : (∃ q, outcome = .ok q) ↔ ∀ c : Channel, Channel.Fits (c.entry t)
  pixel : ∀ q, outcome = .ok q → q.x = p.x ∧ q.y = p.y ∧
    ∀ c : Channel, Channel.Sets sandbox.missing (c.of p.rgba) (c.entry t) (c.of q.rgba)
  failure : ∀ e, outcome = .error e → ∃ c, Channel.FirstMisfit t c ∧
    e = ⟨sandbox.effectId, some (p.x, p.y), c.complaint (c.entry t)⟩

/-- A call that ends well is settled by its first result. -/
theorem invoke_of_entryCall {sandbox : Sandbox} {p : Pixel} {vs : List Value} {engine : Engine}
    (h : sandbox.entryCall p = (.ok vs, engine)) : (sandbox.invoke p).1 =
      (coerce sandbox.missing p (HostValue.ofScript engine.machine.tables (vs.headD .nil))).mapError
        fun cause => ⟨sandbox.effectId, some (p.x, p.y), cause⟩ := by
  rcases sandbox with ⟨effectId, missing, caching, e⟩
  unfold entryCall at h
  unfold invoke
  dsimp only at h ⊢
  rw [Engine.call_eq]
  dsimp only
  rw [h]
  rfl

theorem tableContract_coerce (sandbox : Sandbox) (p : Pixel) (heap : Heap) (id : TableId) :
    sandbox.TableContract p (heap.table id)
      ((coerce sandbox.missing p (HostValue.ofScript heap (.table id))).mapError
        fun cause => ⟨sandbox.effectId, some (p.x, p.y), cause⟩) := by
  have hfits : ∀ {c : Channel} {u : UInt8}, channel? sandbox.missing
      (HostValue.ofScript heap (.table id)) c.name (c.of p.rgba) = .ok u →
        Channel.Fits (c.entry (heap.table id)) := by
    intro c u hu
    by_contra hmisfit
    cases hu.symm.trans (channel?_of_misfit hmisfit _)
  rcases coerce_record sandbox.missing p
      (show HostValue.ofScript heap (.table id) = .record _ from rfl) with
    ⟨rgba, hall, hcoerce⟩ | ⟨before, c, after, cause, hsplit, hbefore, hc, hcoerce⟩
  · rw [hcoerce]
    refine ⟨⟨fun _ c => hfits (hall c), fun _ => ⟨_, rfl⟩⟩, fun q hq => ?_, fun e he => ?_⟩
    · cases hq
      refine ⟨rfl, rfl, fun c => ?_⟩
      rcases channel?_of_fits (hfits (hall c)) (c.of p.rgba) with ⟨u, hu, hsets⟩
      cases (hall c).symm.trans hu
      exact hsets
    · cases he
  · rw [hcoerce]
    have hfails : ¬ Channel.Fits (c.entry (heap.table id)) := by
      intro hfit
      rcases channel?_of_fits hfit (c.of p.rgba) with ⟨u, hu, _⟩
      cases hc.symm.trans hu
    refine ⟨⟨fun ⟨q, hq⟩ => ?_, fun hall => absurd (hall c) hfails⟩, fun q hq => ?_, fun e he => ?_⟩
    · cases hq
    · cases hq
    · cases he
      cases hc.symm.trans (channel?_of_misfit hfails _)
      exact ⟨c, ⟨before, after, hsplit, fun c' hc' => hfits (hbefore c' hc').choose_spec, hfails⟩,
        rfl⟩

/-- What is made of the result of an effect, in any state and for any pixel. -/
theorem invoke_contract (sandbox : Sandbox) (p : Pixel) {vs : List Value} {engine : Engine}
    (h : sandbox.entryCall p = (.ok vs, engine)) :
    (∀ id, vs.headD .nil = .table id →
      sandbox.TableContract p (engine.machine.tables.table id) (sandbox.invoke p).1) ∧
    ((∀ id, vs.headD .nil ≠ .table id) → (sandbox.invoke p).1 =
      .error ⟨sandbox.effectId, some (p.x, p.y), .notATable (vs.headD .nil).type⟩) := by
  rw [invoke_of_entryCall h]
  refine ⟨fun id hid => ?_, fun hother => ?_⟩
  · rw [hid]
    exact tableContract_coerce sandbox p engine.machine.tables id
  · cases hv : vs.headD .nil with
    | table id => exact absurd hv (hother id)
    | _ => rfl

/-- A sandbox whose effect returns a table that holds itself and more than channels. -/
def cyclicSandbox : Sandbox :=
  ⟨"cyclic", .preserve, false, ((Engine.new ⟨{}, .spaced⟩).load none "cyclic/effect.lua"
    "function effect(p) local t = {r = 2.5, g = -1/0, [1] = p} t.t = t return t end").2.1⟩

/-- Whether the first result is a table, to be computed. -/
def returnsTable (sandbox : Sandbox) (p : Pixel) : Bool :=
  match (sandbox.entryCall p).1 with
  | .ok (.table _ :: _) => true
  | _ => false

theorem entryCall_of_returnsTable {sandbox : Sandbox} {p : Pixel}
    (h : sandbox.returnsTable p = true) : ∃ vs engine id,
      sandbox.entryCall p = (.ok vs, engine) ∧ vs.headD .nil = .table id := by
  unfold returnsTable at h
  split at h
  · next id vs heq => exact ⟨.table id :: vs, _, id, Prod.ext heq rfl, rfl⟩
  · cases h

/-- There are sandboxes that return a table, also one that holds itself. -/
theorem invoke_contract_cyclic : ∃ vs engine id,
    cyclicSandbox.entryCall ⟨3, 4, ⟨1, 2, 3, 4⟩⟩ = (.ok vs, engine) ∧ vs.headD .nil = .table id ∧
      cyclicSandbox.TableContract ⟨3, 4, ⟨1, 2, 3, 4⟩⟩ (engine.machine.tables.table id)
        (cyclicSandbox.invoke ⟨3, 4, ⟨1, 2, 3, 4⟩⟩).1 := by
  have htable : cyclicSandbox.returnsTable ⟨3, 4, ⟨1, 2, 3, 4⟩⟩ = true := by decide +kernel
  rcases entryCall_of_returnsTable htable with ⟨vs, engine, id, hcall, hid⟩
  exact ⟨vs, engine, id, hcall, hid, (invoke_contract cyclicSandbox _ hcall).1 id hid⟩

example : (cyclicSandbox.invoke ⟨3, 4, ⟨1, 2, 3, 4⟩⟩).1.toOption = some ⟨3, 4, ⟨3, 0, 3, 4⟩⟩ := by
  decide +kernel

end Sandbox

end PixelEffects
