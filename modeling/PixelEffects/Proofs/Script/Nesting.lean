import PixelEffects.Proofs.Script.Record
import PixelEffects.Proofs.Script.Syntax.ParsedSlack

/-!
# Nesting

How many blocks and expressions can be under evaluation at once.

The machine counts regions as they are begun, and refuses to begin one more than `maxNesting`. But
it does not count the body of a `repeat` and a call of which all results are wanted, so the number
that it keeps within bounds is not the number of all regions. What keeps the others within bounds is
the text: between one region that is counted and the next, evaluation goes down one piece of syntax,
and the slack of that piece limits how many uncounted ones it can go through. A call begins a block,
which is counted, before it turns to the syntax of another function.

So the invariant is that there are at most `slack` uncounted regions for each counted one, with
enough left over for the slack of what is being evaluated (`HasRoom`). It is a statement about what
is open at each moment and not only at the end of a run, which is why it speaks of a record.

## Main definitions

* `Region.isCounted`, `Bounded`: The regions that are counted, and what holds at every moment.
* `HasRoom`: What holds besides when something with slack is evaluated.
* `Tracked`: A machine whose record is bounded at every moment so far.
* `Keeps`: A computation that begins and ends in such a machine, with the same regions open.
* `nestingCongruence`: All evaluation is such a computation.

## Theorems

* `Keeps.nested`, `Keeps.watched`: Regions of both kinds.
* `callClosure_keeps`: Calls need no room, since their blocks are counted.
* `Engine.answers_tracked`: The invariant holds throughout what a host does.
* `open_regions_bounded`: The bounds on the regions that are open at any moment of any run.
-/

namespace PixelEffects

namespace Script

variable {ν α β σ : Type}

/-- The regions that the machine counts. -/
def Region.isCounted : Region → Bool
  | .block | .value => true
  | .repeatBody | .allResults => false

/-- How many of the open regions are counted. -/
def countedIn (regions : List Region) : Nat :=
  regions.countP Region.isCounted

/-- How many of the open regions are not. -/
def uncountedIn (regions : List Region) : Nat :=
  regions.countP fun r => !r.isCounted

theorem counted_add_uncounted (regions : List Region) :
    countedIn regions + uncountedIn regions = regions.length := by
  induction regions with
  | nil => rfl
  | cons r regions ih =>
      simp only [countedIn, uncountedIn, List.countP_cons, List.length_cons] at ih ⊢
      cases r.isCounted
      · have hcount : (if (!false) = true then 1 else 0) = 1 := rfl
        rw [hcount, if_neg Bool.false_ne_true]
        omega
      · have hcount : (if (!true) = true then 1 else 0) = 0 := rfl
        rw [hcount, if_pos rfl]
        omega

/-- What holds of the open regions at every moment. -/
def Bounded (slack : Nat) (regions : List Region) : Prop :=
  countedIn regions ≤ maxNesting ∧ uncountedIn regions ≤ slack * countedIn regions

/-- There may be `n` more regions that are not counted. -/
def HasRoom (slack n : Nat) (regions : List Region) : Prop :=
  uncountedIn regions + n ≤ slack * countedIn regions

/-- A machine with a record that is bounded at every moment so far. What it counts is what is open
    and counted, and no function that can be called has more slack than allowed. -/
structure Tracked (slack : Nat) (events : List Event) (m : Machine ν) : Prop where
  record : m.record = some events
  counted : countedIn (openRegions events) = m.nesting
  bounded : ∀ past, past <:+ events → Bounded slack (openRegions past)
  closures : ∀ c ∈ m.closures, c.definition.slack ≤ slack

/-- A computation that keeps its regions bounded when there is room for `n` that are not counted, and
    that ends all that it begins. The record only grows. -/
def Keeps (slack n : Nat) (x : Eval ν α) : Prop :=
  n ≤ slack → ∀ s m events, Tracked slack events m → HasRoom slack n (openRegions events) →
    ∃ later, Tracked slack later (machineAfter (x s m)) ∧ events <:+ later ∧
      openRegions later = openRegions events

namespace Tracked

variable {slack : Nat} {events : List Event} {m m' : Machine ν}

/-- Only the record, the counter and the functions matter. -/
theorem unaffected (h : Tracked slack events m) (hrecord : m'.record = m.record)
    (hnesting : m'.nesting = m.nesting) (hclosures : m'.closures = m.closures) :
    Tracked slack events m' :=
  ⟨hrecord.trans h.record, h.counted.trans hnesting.symm, h.bounded,
    fun c hc => h.closures c (hclosures ▸ hc)⟩

theorem now (h : Tracked slack events m) : Bounded slack (openRegions events) :=
  h.bounded events (List.suffix_refl events)

/-- An event after which the regions are still bounded. -/
theorem noted (h : Tracked slack events m) {e : Event}
    (hnow : Bounded slack (openRegions (e :: events)))
    (hcounted : countedIn (openRegions (e :: events)) = m'.nesting)
    (hrecord : m'.record = some (e :: events)) (hclosures : m'.closures = m.closures) :
    Tracked slack (e :: events) m' := by
  refine ⟨hrecord, hcounted, fun past hpast => ?_, fun c hc => h.closures c (hclosures ▸ hc)⟩
  -- A moment of the longer record is the one of this event or one from before.
  rcases List.suffix_cons_iff.mp hpast with rfl | hpast
  · exact hnow
  · exact h.bounded past hpast

end Tracked

namespace Keeps

variable {slack n : Nat}

/-- A computation that changes nothing that matters. -/
theorem unaffected {x : Eval ν α} (hsame : ∀ s m, (machineAfter (x s m)).record = m.record ∧
    (machineAfter (x s m)).nesting = m.nesting ∧ (machineAfter (x s m)).closures = m.closures) :
    Keeps slack n x := by
  intro _ s m events h _
  rcases hsame s m with ⟨hrecord, hnesting, hclosures⟩
  exact ⟨events, h.unaffected hrecord hnesting hclosures, List.suffix_refl _, rfl⟩

theorem bind {x : Eval ν α} {f : α → Eval ν β} (hx : Keeps slack n x)
    (hf : ∀ a, Keeps slack n (f a)) : Keeps slack n (x >>= f) := by
  intro hn s m events h hroom
  rcases hx hn s m events h hroom with ⟨later, hlater, hgrows, hopen⟩
  rw [run_bind]
  cases hr : x s m with
  | error e m' =>
      rw [hr] at hlater
      exact ⟨later, hlater, hgrows, hopen⟩
  | ok a m' =>
      rw [hr] at hlater
      -- The first computation has ended all that it began, so there is as much room as before.
      rw [← hopen] at hroom
      rcases hf a hn s m' later hlater hroom with ⟨last, hlast, hgrows', hopen'⟩
      exact ⟨last, hlast, hgrows.trans hgrows', hopen'.trans hopen⟩

theorem plain {x y : Eval ν α} (hx : Plain x y) : Keeps slack n x := by
  rcases hx with ⟨g, -, rfl, -⟩
  refine unaffected fun s m => ?_
  simp only [StoreStep.toEval]
  rcases g m.tables m.scopes with ⟨c | a, t, sc⟩ <;> exact ⟨rfl, rfl, rfl⟩

theorem tick : Keeps slack n (tick : Eval ν Unit) := by
  refine unaffected fun s m => ?_
  unfold Script.tick
  dsimp only
  split <;> exact ⟨rfl, rfl, rfl⟩

theorem mono {n' : Nat} {x : Eval ν α} (hn : n ≤ n') (hx : Keeps slack n x) : Keeps slack n' x := by
  intro hn' s m events h hroom
  have hless : HasRoom slack n (openRegions events) := by
    unfold HasRoom at hroom ⊢
    omega
  exact hx (Nat.le_trans hn hn') s m events h hless

/-- A region that is begun and ended around a computation, with the counter of the machine as the
    region has it. -/
theorem within {region : Region} {before after : Machine ν → Machine ν}
    (hbefore : ∀ m events, m.record = some events →
      (before m).record = some (.enter region :: events) ∧
        (before m).nesting = m.nesting + region.isCounted.toNat ∧
        (before m).closures = m.closures)
    (hafter : ∀ m events, m.record = some events →
      (after m).record = some (.leave :: events) ∧
        (after m).nesting = m.nesting - region.isCounted.toNat ∧
        (after m).closures = m.closures)
    {x : Eval ν α} (hx : Keeps slack n x) (hn : n ≤ slack) (s : Setting) (m : Machine ν)
    (events : List Event) (h : Tracked slack events m)
    (hnow : Bounded slack (region :: openRegions events))
    (hroom : HasRoom slack n (region :: openRegions events)) :
    ∃ later, Tracked slack later (machineAfter (around before after x s m)) ∧ events <:+ later ∧
      openRegions later = openRegions events := by
  have hcounted : countedIn (region :: openRegions events) =
      countedIn (openRegions events) + region.isCounted.toNat := by
    simp only [countedIn, List.countP_cons]
    cases region.isCounted <;> rfl
  rcases hbefore m events h.record with ⟨hrecord, hnesting, hclosures⟩
  -- Beginning the region is bounded by assumption, and the counter moves with the record.
  have hbegun : Tracked slack (.enter region :: events) (before m) := by
    refine h.noted hnow ?_ hrecord hclosures
    rw [openRegions, hcounted, h.counted, hnesting]
  rcases hx hn s (before m) _ hbegun hroom with ⟨later, hlater, hgrows, hopen⟩
  rcases hafter _ later hlater.record with ⟨hrecord', hnesting', hclosures'⟩
  -- The computation has left the region as the innermost one, so this is what ends.
  have hback : openRegions (.leave :: later) = openRegions events := by
    rw [openRegions, hopen]
    rfl
  have hended : Tracked slack (.leave :: later) (after (machineAfter (x s (before m)))) := by
    refine hlater.noted (hback ▸ h.now) ?_ hrecord' hclosures'
    rw [hback, hnesting', ← hlater.counted, hopen, openRegions, hcounted, Nat.add_sub_cancel]
  refine ⟨.leave :: later, ?_, ?_, hback⟩
  · unfold Script.around
    cases hr : x s (before m) <;> rw [hr] at hended <;> exact hended
  · exact ((List.suffix_cons _ _).trans hgrows).trans (List.suffix_cons _ _)

theorem note_eq (m : Machine ν) (e : Event) (events : List Event) (h : m.record = some events) :
    m.note e = { m with record := some (e :: events) } := by
  rw [Machine.note, h]

/-- A region that is not counted takes up room. -/
theorem watched {region : Region} (hregion : region.isCounted = false) {x : Eval ν α}
    (hx : Keeps slack n x) : Keeps slack (n + 1) (watched region x) := by
  intro hn s m events h hroom
  -- The region takes one of the places that there was room for.
  have hroom' : HasRoom slack n (region :: openRegions events) := by
    simp only [HasRoom, countedIn, uncountedIn, List.countP_cons, hregion] at hroom ⊢
    simp only [Bool.not_false, if_true, Bool.false_eq_true, if_false, Nat.add_zero]
    omega
  have hnow : Bounded slack (region :: openRegions events) := by
    refine ⟨?_, Nat.le_trans (Nat.le_add_right _ n) hroom'⟩
    have hle := h.now.1
    simp only [countedIn, List.countP_cons, hregion] at hle ⊢
    exact hle
  refine within (fun m events h => ?_) (fun m events h => ?_) hx (Nat.le_of_succ_le hn) s m events
    h hnow hroom'
  · rw [note_eq m _ events h, hregion]
    exact ⟨rfl, rfl, rfl⟩
  · rw [note_eq m _ events h, hregion]
    exact ⟨rfl, rfl, rfl⟩

/-- A region that is counted makes room, as much as there can be. -/
theorem nested {region : Region} (hregion : region.isCounted = true) {k : Nat} (hk : k ≤ slack)
    {x : Eval ν α} (hx : Keeps slack k x) : Keeps slack n (nested region x) := by
  intro _ s m events h _
  unfold Script.nested
  -- When the counter is at its maximum, the region is not begun at all.
  by_cases hfull : m.nesting ≥ maxNesting
  · rw [if_pos hfull]
    exact ⟨events, h, List.suffix_refl _, rfl⟩
  rw [if_neg hfull]
  have hcounted : countedIn (region :: openRegions events) =
      countedIn (openRegions events) + 1 := by
    simp only [countedIn, List.countP_cons, hregion]
    rfl
  have huncounted : uncountedIn (region :: openRegions events) =
      uncountedIn (openRegions events) := by
    simp only [uncountedIn, List.countP_cons, hregion]
    rfl
  -- For one more that is counted, the bound on the others grows by the whole slack.
  have hroom : HasRoom slack k (region :: openRegions events) := by
    have hle := h.now.2
    unfold HasRoom
    rw [hcounted, huncounted, Nat.mul_succ]
    omega
  have hnow : Bounded slack (region :: openRegions events) := by
    refine ⟨?_, Nat.le_trans (Nat.le_add_right _ k) hroom⟩
    rw [hcounted, h.counted]
    omega
  -- Noting and counting are one change before and one after.
  have hboth : Script.watched region (deeper x) s m = around
      (fun m => { m.note (.enter region) with nesting := (m.note (.enter region)).nesting + 1 })
      (fun m => { m with nesting := m.nesting - 1 }.note .leave) x s m := by
    unfold Script.watched deeper Script.around
    dsimp only
    cases x s { m.note (.enter region) with nesting := (m.note (.enter region)).nesting + 1 } <;>
      rfl
  rw [hboth]
  refine within (fun m events h => ?_) (fun m events h => ?_) hx hk s m events h hnow hroom
  · rw [note_eq m _ events h, hregion]
    exact ⟨rfl, rfl, rfl⟩
  · have hless : { m with nesting := m.nesting - 1 }.record = some events := h
    rw [note_eq _ _ events hless, hregion]
    exact ⟨rfl, rfl, rfl⟩

/-- An event can be noted without anything being begun or ended. -/
theorem noting {e : Event} (he : ∀ past, openRegions (e :: past) = openRegions past) :
    Keeps slack n (fun _ m => .ok () (m.note e) : Eval ν Unit) := by
  intro _ s m events h _
  have hafter : machineAfter (.ok () (m.note e)) =
      { m with record := some (e :: events) } := note_eq m _ events h.record
  rw [hafter]
  refine ⟨e :: events, h.noted ?_ ?_ rfl rfl, List.suffix_cons _ _, he events⟩
  · rw [he]
    exact h.now
  · rw [he]
    exact h.counted

theorem mark (p : Progress) : Keeps slack n (mark p : Eval ν Unit) :=
  noting fun _ => rfl

theorem library (b : Builtin) (args : List Value) :
    Keeps slack n (callLibrary b args : Eval ν (List Value)) := by
  have hshown : Keeps slack n (exposeAll (Library.shown b args) : Eval ν Unit) :=
    exposeAll_of (μ := ν) (R := fun x _ => Keeps slack n x) (plain (Plain.pure ()))
      (fun hx hf => bind hx hf) (fun r => noting (e := .shown r) fun _ => rfl) _
  refine bind hshown fun _ hn s m => ?_
  rw [run_callBuiltin]
  exact plain (plain_libraryStep s.address b args) hn s m

theorem framed {chunk : String} {line : Nat} {x : Eval ν α} (hx : Keeps slack n x) :
    Keeps slack n (framed chunk line x) := by
  intro hn s m events h hroom
  unfold Script.framed
  dsimp only
  by_cases hfull : m.depth ≥ s.limits.maxCallDepth
  · rw [if_pos hfull]
    exact ⟨events, h, List.suffix_refl _, rfl⟩
  · rw [if_neg hfull]
    -- A call moves the depth and the position, which nobody here looks at.
    have hcallee : Tracked slack events
        { m with depth := m.depth + 1, chunk := chunk, line := line } := h.unaffected rfl rfl rfl
    rcases hx hn s _ events hcallee hroom with ⟨later, hlater, hgrows, hopen⟩
    refine ⟨later, ?_, hgrows, hopen⟩
    cases hr : x s { m with depth := m.depth + 1, chunk := chunk, line := line } <;>
      rw [hr] at hlater <;> exact hlater.unaffected rfl rfl rfl

theorem newScope (scope : Scope) : Keeps slack n (newScope scope : Eval ν ScopeId) :=
  unaffected fun _ _ => ⟨rfl, rfl, rfl⟩

theorem newClosure {definition : Function ν} (env : Env) (hslack : definition.slack ≤ n) :
    Keeps slack n (newClosure definition env) := by
  intro hn s m events h _
  refine ⟨events, ⟨h.record, h.counted, h.bounded, fun c hc => ?_⟩, List.suffix_refl _, rfl⟩
  -- The new function comes from the syntax under evaluation, whose slack fits the room.
  rcases Array.mem_push.mp hc with hc | rfl
  · exact h.closures c hc
  · exact Nat.le_trans hslack hn

theorem loop {round : σ → Eval ν (Turn σ α)} (hround : ∀ s, Keeps slack n (round s)) (fuel : Nat)
    (state : σ) : Keeps slack n (loop round fuel state) := by
  induction fuel generalizing state with
  | zero => exact unaffected fun _ _ => ⟨rfl, rfl, rfl⟩
  | succ fuel ih =>
      refine bind (hround state) fun turn => ?_
      cases turn with
      | again state => exact bind (mark .round) fun _ => ih state
      | done a => exact plain (Plain.pure a)

end Keeps

/-- Evaluation keeps regions bounded when there is room for its slack. -/
def nestingCongruence (slack : Nat) : UniformCongruence ν where
  Admits c := c.definition.slack ≤ slack
  Rel n x _ := Keeps slack n x
  RelRound n x _ := Keeps slack n x
  mono hn h := h.mono hn
  plain h := Keeps.plain h
  library b args := Keeps.library b args
  bind hx hf := Keeps.bind hx hf
  takeStep := Keeps.bind Keeps.tick fun _ => Keeps.mark .statement
  atLine _ := Keeps.unaffected fun _ _ => ⟨rfl, rfl, rfl⟩
  nested := by
    intro _ n region x _ hregion hx
    have hcounted : region.isCounted = true := by
      rcases hregion with rfl | rfl <;> rfl
    exact fun hn => Keeps.nested hcounted hn hx hn
  watched := by
    intro _ n region x _ hregion hx
    have huncounted : region.isCounted = false := by
      rcases hregion with rfl | rfl <;> rfl
    exact Keeps.watched huncounted hx
  newClosure env hslack := Keeps.newClosure env hslack
  newScope _ := Keeps.newScope _
  onInnermost env _ := by
    cases env <;> exact Keeps.unaffected fun _ _ => ⟨rfl, rfl, rfl⟩
  closureAt := by
    intro _ n id f _ hsome hnone hn s m events h hroom
    rw [run_closureAt_bind]
    -- The function that is found is one that the machine has.
    cases hc : m.closures[id.index]? with
    | none => exact hnone hn s m events h hroom
    | some c => exact hsome c (h.closures c (Array.mem_of_getElem? hc)) hn s m events h hroom
  rounds state hround := fun hn s m => Keeps.loop hround (s.limits.maxSteps + 1) state hn s m
  roundDone _ := Keeps.plain (Plain.pure _)
  roundAgain _ := Keeps.bind Keeps.tick fun _ => Keeps.plain (Plain.pure _)
  roundBind hx hf := Keeps.bind hx hf

/-- A machine with a record, between two operations: nothing is open. -/
def AtRest (slack : Nat) (m : Machine ν) : Prop :=
  ∃ events, Tracked slack events m ∧ openRegions events = []

namespace AtRest

variable {slack : Nat} {m m' : Machine ν}

theorem unaffected (h : AtRest slack m) (hrecord : m'.record = m.record)
    (hnesting : m'.nesting = m.nesting) (hclosures : m'.closures = m.closures) :
    AtRest slack m' := by
  rcases h with ⟨events, htracked, hopen⟩
  exact ⟨events, htracked.unaffected hrecord hnesting hclosures, hopen⟩

/-- Nothing is open, and so nothing is forgotten when the counter is reset. -/
theorem restarted (h : AtRest slack m) : AtRest slack m.restarted := by
  refine h.unaffected rfl ?_ rfl
  rcases h with ⟨events, htracked, hopen⟩
  rw [← htracked.counted, hopen]
  rfl

/-- Whatever keeps its regions bounded without room goes from one machine at rest to another. -/
theorem after {x : Eval ν α} (hx : Keeps slack 0 x) (s : Setting) (h : AtRest slack m) :
    AtRest slack (machineAfter (x s m)) := by
  rcases h with ⟨events, htracked, hopen⟩
  -- Where nothing is open, nothing is uncounted.
  have hroom : HasRoom slack 0 (openRegions events) := by
    rw [hopen]
    exact Nat.zero_le _
  rcases hx (Nat.zero_le slack) s m events htracked hroom with ⟨later, hlater, _, hopen'⟩
  exact ⟨later, hlater, hopen'.trans hopen⟩

theorem initial (setting : Setting) : AtRest slack ((Engine.new setting).recorded : Engine ν).machine := by
  refine ⟨[], ⟨rfl, rfl, fun past hpast => ?_, fun c hc => ?_⟩, rfl⟩
  · rw [List.suffix_nil.mp hpast]
    exact ⟨Nat.zero_le _, Nat.zero_le _⟩
  · cases Array.not_mem_empty c hc

end AtRest

theorem Engine.run_machine (e : Engine ν) (x : Eval ν α) :
    (e.run x).2.machine = machineAfter (x e.setting e.machine) := by
  rcases e with ⟨s, m⟩
  simp only [Engine.run]
  cases x s m <;> rfl

section Operations

variable [Reference ν] {slack : Nat}

/-- A block needs no room, whatever its slack is. -/
theorem block_keeps {call : Caller ν} {env : Env} {body : List (Stmt ν)}
    (hcall : ∀ c args, c.definition.slack ≤ slack → Keeps slack 0 (call c args))
    (hbody : slackOfBlock body ≤ slack) : Keeps slack 0 (block call env body) := by
  refine Keeps.nested rfl (Nat.le_refl slack) ?_
  refine Keeps.bind (Keeps.newScope []) fun scope => ?_
  exact @execAll_rel ν _ (nestingCongruence slack) call call hcall _ slack body hbody

theorem callClosure_keeps (fuel : Nat) (c : Closure ν) (args : List Value)
    (hc : c.definition.slack ≤ slack) : Keeps slack 0 (callClosure fuel c args) := by
  induction fuel generalizing c args with
  | zero => exact Keeps.unaffected fun _ _ => ⟨rfl, rfl, rfl⟩
  | succ fuel ih =>
      simp only [callClosure]
      refine Keeps.bind (Keeps.framed ?_) fun flow => ?_
      · refine Keeps.bind (Keeps.newScope _) fun frame => ?_
        -- The slack of a function is that of its body.
        refine block_keeps (fun c args hc => ih c args hc) ?_
        rcases c with ⟨⟨name, params, body, chunk, line⟩, env⟩
        exact hc
      · cases flow with
        | broken => exact Keeps.plain (Plain.fault rfl)
        | _ => exact Keeps.plain (Plain.pure _)

theorem callWithin_keeps (c : Closure ν) (args : List Value) (hc : c.definition.slack ≤ slack) :
    Keeps slack 0 (callWithin c args) :=
  fun hn s m => callClosure_keeps (s.limits.maxCallDepth + 1) c args hc hn s m

/-! ## Engines -/

theorem execChunk_atRest {chunk : Chunk ν} (hchunk : slackOfBlock chunk.body ≤ slack) (s : Setting)
    {m : Machine ν} (h : AtRest slack m) :
    AtRest slack (machineAfter (execChunk chunk s m)) := by
  have hstart : AtRest slack { m.restarted with chunk := chunk.name, line := 0 } :=
    h.restarted.unaffected rfl rfl rfl
  refine AtRest.after (Keeps.bind ?_ fun flow => ?_) s hstart
  · exact block_keeps (fun c args hc => callWithin_keeps c args hc) hchunk
  · cases flow with
    | broken => exact Keeps.plain (Plain.fault rfl)
    | _ => exact Keeps.plain (Plain.pure _)

theorem callGlobal_atRest (name : String) (args : List Value) (s : Setting) {m : Machine ν}
    (h : AtRest slack m) : AtRest slack (machineAfter (callGlobal name args s m)) := by
  -- What the name stands for is called only if it is anything.
  have hcall : ∀ f, Keeps slack 0 (callValue callWithin .none f args : Eval ν (List Value)) :=
    fun f => @UniformCongruence.callValue_rel ν (nestingCongruence slack) _ callWithin
      (fun c args hc => callWithin_keeps c args hc) 0 .none f args
  unfold callGlobal
  dsimp only
  cases m.restarted.global name with
  | nil => exact h.restarted
  | _ => exact AtRest.after (hcall _) s h.restarted

theorem Engine.answer_atRest (e : Engine ν) (op : HostOp ν) (h : AtRest slack e.machine)
    (hop : ∀ chunk, op = .run chunk → slackOfBlock chunk.body ≤ slack) :
    AtRest slack (e.answer op).2.machine := by
  cases op with
  | run chunk =>
      simp only [answer, runChunk, run_machine]
      exact execChunk_atRest (hop chunk rfl) e.setting h
  | bind name v => exact h.unaffected rfl rfl rfl
  | call name args =>
      simp only [answer, call_eq, run_machine]
      exact callGlobal_atRest name _ e.setting (h.unaffected rfl rfl rfl)
  | entryPoint name => exact h

/-- Throughout everything that a host does, each operation begins and ends with nothing open. The
    induction is on the operations. -/
theorem Engine.answers_atRest (e : Engine ν) (ops : List (HostOp ν)) (h : AtRest slack e.machine)
    (hops : ∀ chunk, .run chunk ∈ ops → slackOfBlock chunk.body ≤ slack) :
    AtRest slack (e.answers ops).2.machine := by
  induction ops generalizing e with
  | nil => exact h
  | cons op ops ih =>
      simp only [answers]
      refine ih _ (answer_atRest e op h fun chunk hop => ?_) fun chunk hchunk => ?_
      · exact hops chunk (hop ▸ List.mem_cons_self)
      · exact hops chunk (List.mem_cons_of_mem _ hchunk)

/-- No more than `maxNesting` counted regions are open at any moment of what a host does with a new
    engine, and for each of them at most as many others as the chunks have slack. -/
theorem Engine.regions_bounded (setting : Setting) (ops : List (HostOp ν))
    (hops : ∀ chunk, .run chunk ∈ ops → slackOfBlock chunk.body ≤ slack) :
    ∃ events, ((Engine.new setting).recorded.answers ops).2.machine.record = some events ∧
      ∀ past, past <:+ events → countedIn (openRegions past) ≤ maxNesting ∧
        (openRegions past).length ≤ maxNesting * (slack + 1) := by
  rcases Engine.answers_atRest _ ops (AtRest.initial setting) hops with ⟨events, htracked, _⟩
  refine ⟨events, htracked.record, fun past hpast => ?_⟩
  rcases htracked.bounded past hpast with ⟨hcounted, huncounted⟩
  refine ⟨hcounted, ?_⟩
  rw [← counted_add_uncounted]
  calc countedIn (openRegions past) + uncountedIn (openRegions past)
      ≤ countedIn (openRegions past) + slack * countedIn (openRegions past) := by omega
    _ = countedIn (openRegions past) * (slack + 1) := by rw [Nat.mul_succ, Nat.mul_comm slack]; omega
    _ ≤ maxNesting * (slack + 1) := Nat.mul_le_mul_right _ hcounted

end Operations

/-- Of whatever a host does with a new engine and with sources that are accepted, a record says what
    is under evaluation at each moment, and the answers are those without a record. At every moment
    at most `maxNesting` regions are open that are counted, and to begin one more is a fault. The
    other regions are bounded as well: there are at most `maxSyntaxLevels` of them for each counted
    one, and none if no chunk has the body of a `repeat` or wants all results of a call. -/
theorem open_regions_bounded (setting : Setting) (ops : List HostOp)
    (hops : ∀ chunk, .run chunk ∈ ops → ∃ name source, parseChunk name source = .ok chunk) :
    ((Engine.new setting).recorded.answers ops).1 = ((Engine.new setting).answers ops).1 ∧
      (∃ events, ((Engine.new setting).recorded.answers ops).2.machine.record = some events ∧
        (∀ past, past <:+ events → countedIn (openRegions past) ≤ maxNesting ∧
          (openRegions past).length ≤ maxNesting * (maxSyntaxLevels + 1)) ∧
        ((∀ chunk, .run chunk ∈ ops → slackOfBlock chunk.body = 0) →
          ∀ past, past <:+ events → (openRegions past).length ≤ maxNesting)) ∧
      ∀ (region : Region) (body : Eval String Value) (m : Machine), m.nesting = maxNesting →
        nested region body setting m = .error ⟨m.chunk, m.line, .nesting maxNesting⟩ m := by
  refine ⟨?_, ?_, fun region body m hm => ?_⟩
  · have h := Engine.answers_forget (Engine.new setting).recorded ops
    have hnew : (Engine.new setting).recorded.forget = (Engine.new setting : Engine) := rfl
    rw [hnew] at h
    rw [h]
  · have hslack : ∀ chunk, .run chunk ∈ ops → slackOfBlock chunk.body ≤ maxSyntaxLevels := by
      intro chunk hchunk
      rcases hops chunk hchunk with ⟨name, source, hparse⟩
      exact parseChunk_slack hparse
    rcases Engine.regions_bounded setting ops hslack with ⟨events, hrecord, hbounded⟩
    refine ⟨events, hrecord, hbounded, fun hzero past hpast => ?_⟩
    -- Without slack the bound on the others is zero, and the record is the same one.
    have hnone : ∀ chunk, .run chunk ∈ ops → slackOfBlock chunk.body ≤ 0 :=
      fun chunk hchunk => Nat.le_of_eq (hzero chunk hchunk)
    rcases Engine.regions_bounded setting ops hnone with ⟨events', hrecord', hbounded'⟩
    rw [hrecord] at hrecord'
    cases hrecord'
    exact (hbounded' past hpast).2
  · unfold nested
    rw [if_pos (Nat.le_of_eq hm.symm)]
    rfl

/-- A source with both kinds of regions that are not counted. -/
theorem open_regions_bounded_repeat :
    ∃ chunk, parseChunk "t.lua" "repeat f() until true" = .ok chunk ∧
      ∃ events, ((Engine.new ⟨⟨10, 2⟩, .spaced⟩).recorded.answers
          [.run chunk]).2.machine.record = some events ∧
        ∀ past, past <:+ events → countedIn (openRegions past) ≤ maxNesting ∧
          (openRegions past).length ≤ maxNesting * (maxSyntaxLevels + 1) := by
  -- That the source is accepted is a computation; what it is parsed to need not be known.
  have haccepted : (parseChunk "t.lua" "repeat f() until true").toOption.isSome = true := by
    decide +kernel
  cases hparse : parseChunk "t.lua" "repeat f() until true" with
  | error e =>
      rw [hparse] at haccepted
      cases haccepted
  | ok chunk =>
      refine ⟨chunk, rfl, ?_⟩
      have hops : ∀ c : Chunk, .run c ∈ [HostOp.run chunk] →
          ∃ name source, parseChunk name source = .ok c := by
        intro c hc
        cases List.mem_singleton.mp hc
        exact ⟨_, _, hparse⟩
      rcases (open_regions_bounded ⟨⟨10, 2⟩, .spaced⟩ [.run chunk] hops).2.1 with
        ⟨events, hrecord, hbounded, _⟩
      exact ⟨events, hrecord, hbounded⟩

end Script

end PixelEffects
