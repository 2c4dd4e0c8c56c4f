import PixelEffects.Proofs.Script.Record

/-!
# The Budget

Every run ends, and all that it does fits into the budget of steps.

Evaluation is a recursion on the syntax, except in two places. A loop goes on until one of its
rounds says that it is done, and a call leads from one function to the syntax of another one. Both
are given a number, of rounds and of calls, and there is a fault for the case that the number was
too small. That runs end by themselves means that nothing ever comes to this fault. For loops it is
because each round after which a loop goes on has taken a step, so the budget of steps is used up
before the rounds are. For calls it is because the depth of the machine and the calls that are left
add up to the same number all the time, so the call depth is reached first.

The steps are a counter of the machine. What they are meant to count is noted in the record, where
it happens: statements where they are done, and the rounds of all loops in `loop`. What has been
noted never exceeds the steps, whatever happens between, and at the fault for the budget it is all
of them.

## Main definitions

* `progressIn`: How many statements and rounds some events note.
* `Paid`: An outcome for which all that was noted is paid for in steps.
* `Paces`: A computation with such outcomes from every machine at a given depth.
* `budgetCongruence`: All evaluation is such a computation.
* `EndsWithin`: What this says about an operation.

## Theorems

* `Paces.loop`, `callClosure_paces`: Neither loops nor calls are cut short.
* `operations_end_within`: Running a chunk and calling a global end with a result or a fault, and
  within the budget.
-/

namespace PixelEffects

namespace Script

variable {ν α β σ : Type}

/-- Whether an event says how a run gets on. -/
def Event.isProgress : Event → Bool
  | .progress _ => true
  | .enter _ | .leave | .shown _ => false

/-- How many statements and rounds some events note. -/
def progressIn (events : List Event) : Nat :=
  events.countP Event.isProgress

theorem progressIn_append (later events : List Event) :
    progressIn (later ++ events) = progressIn later + progressIn events :=
  List.countP_append

/-- The second machine comes after the first one, at the same depth, and some events were noted in
    between if a record is kept. -/
structure Follows (later : List Event) (m m' : Machine ν) : Prop where
  depth : m'.depth = m.depth
  record : m'.record = m.record.map (later ++ ·)

namespace Follows

theorem refl {m m' : Machine ν} (hdepth : m'.depth = m.depth) (hrecord : m'.record = m.record) :
    Follows [] m m' := by
  refine ⟨hdepth, hrecord.trans ?_⟩
  cases m.record <;> rfl

theorem trans {later last : List Event} {m m' m'' : Machine ν} (h : Follows later m m')
    (h' : Follows last m' m'') : Follows (last ++ later) m m'' := by
  refine ⟨h'.depth.trans h.depth, ?_⟩
  rw [h'.record, h.record]
  cases m.record with
  | none => rfl
  | some events => exact congrArg some (List.append_assoc last later events).symm

theorem note (m : Machine ν) (e : Event) : Follows [e] m (m.note e) := by
  unfold Machine.note
  cases h : m.record with
  | none => exact ⟨rfl, by rw [h]; rfl⟩
  | some events => exact ⟨rfl, by rw [h]; rfl⟩

end Follows

theorem note_steps (m : Machine ν) (e : Event) : (m.note e).steps = m.steps := by
  unfold Machine.note
  split <;> rfl

/-- An outcome from a machine. Each statement and round that was noted took a step, and a result can
    come with one more step, for a round that is still to be noted. A fault is none of a recursion
    that was cut off, and if it is for the budget, all of the budget has gone into what was noted. -/
inductive Paid (l : Limits) (ahead : α → Bool) (m : Machine ν) :
    EStateM.Result Fault (Machine ν) α → Prop
  | ended {a : α} {m' : Machine ν} (later : List Event) (hfollows : Follows later m m')
      (hsteps : m'.steps = m.steps + progressIn later + (ahead a).toNat)
      (hbudget : m'.steps ≤ l.maxSteps) : Paid l ahead m (.ok a m')
  | failed {f : Fault} {m' : Machine ν} (later : List Event) (hfollows : Follows later m m')
      (hbudget : m.steps + progressIn later ≤ l.maxSteps) (hcause : f.cause ≠ .outOfFuel)
      (hspent : ∀ n, f.cause = .stepBudget n → n = l.maxSteps ∧ m.steps + progressIn later = n) :
      Paid l ahead m (.error f m')

/-- What comes to pass after some events that were paid for is paid for from before them. -/
theorem Paid.since {l : Limits} {ahead : α → Bool} {m m' : Machine ν}
    {r : EStateM.Result Fault (Machine ν) α} {later : List Event} (hfollows : Follows later m m')
    (hsteps : m'.steps = m.steps + progressIn later) (h : Paid l ahead m' r) :
    Paid l ahead m r := by
  cases h with
  | ended last hfollows' hsteps' hbudget =>
      refine .ended (last ++ later) (hfollows.trans hfollows') ?_ hbudget
      rw [hsteps', hsteps, progressIn_append]
      omega
  | failed last hfollows' hbudget hcause hspent =>
      have hsum : m.steps + progressIn (last ++ later) = m'.steps + progressIn last := by
        rw [hsteps, progressIn_append]
        omega
      refine .failed (last ++ later) (hfollows.trans hfollows') ?_ hcause ?_
      · rw [hsum]
        exact hbudget
      · rw [hsum]
        exact hspent

section Pace

variable (l : Limits) (address : Addressing)

/-- A computation that pays for all that it notes, from every machine at a depth. -/
def Paces (depth : Nat) (ahead : α → Bool) (x : Eval ν α) : Prop :=
  ∀ m, m.depth = depth → m.steps ≤ l.maxSteps → Paid l ahead m (x ⟨l, address⟩ m)

namespace Paces

variable {l address} {depth : Nat}

/-- A result without anything being counted or noted. -/
theorem quiet {x : Eval ν α} {ahead : α → Bool}
    (hquiet : ∀ m, ∃ a m', x ⟨l, address⟩ m = .ok a m' ∧ ahead a = false ∧ m'.depth = m.depth ∧
      m'.steps = m.steps ∧ m'.record = m.record) : Paces l address depth ahead x := by
  intro m hd hs
  rcases hquiet m with ⟨a, m', hrun, hahead, hdepth, hsteps, hrecord⟩
  rw [hrun]
  refine .ended [] (Follows.refl hdepth hrecord) ?_ (hsteps ▸ hs)
  rw [hsteps, hahead]
  rfl

/-- A fault that is not about the budget. -/
theorem faulty {c : Cause} (hc : ∀ n, c ≠ .stepBudget n) (hfuel : c ≠ .outOfFuel)
    {ahead : α → Bool} : Paces l address depth ahead (fault c : Eval ν α) :=
  fun _ _ hs => .failed [] (Follows.refl rfl rfl) hs hfuel fun n hn => (hc n hn).elim

theorem pure (a : α) (ahead : α → Bool) (ha : ahead a = false) :
    Paces l address depth ahead (Pure.pure a : Eval ν α) :=
  quiet fun m => ⟨a, m, rfl, ha, rfl, rfl, rfl⟩

theorem bind {x : Eval ν α} {f : α → Eval ν β} {ahead : β → Bool}
    (hx : Paces l address depth anyway x) (hf : ∀ a, Paces l address depth ahead (f a)) :
    Paces l address depth ahead (x >>= f) := by
  intro m hd hs
  have h := hx m hd hs
  rw [run_bind]
  generalize x ⟨l, address⟩ m = r at h
  cases h with
  | @ended a m' later hfollows hsteps hbudget =>
      exact (hf a m' (hfollows.depth.trans hd) hbudget).since hfollows hsteps
  | failed later hfollows hbudget hcause hspent =>
      exact .failed later hfollows hbudget hcause hspent

theorem plain {x y : Eval ν α} (hx : Plain x y) : Paces l address depth anyway x := by
  rcases hx with ⟨g, hg, rfl, -⟩
  intro m hd hs
  have hproper := hg.boundless m.tables m.scopes
  simp only [StoreStep.toEval]
  generalize g m.tables m.scopes = r at hproper
  rcases r with ⟨c | a, t, sc⟩
  · -- No plain step fails because of a bound, of which the budget is one.
    have hc := hproper c rfl
    refine .failed [] (Follows.refl rfl rfl) hs ?_ ?_
    · rintro rfl
      cases hc
    · rintro n rfl
      cases hc
  · exact .ended [] (Follows.refl rfl rfl) rfl hs

/-- What is shown costs nothing. -/
theorem expose (r : Resident) : Paces l address depth anyway (expose r : Eval ν Unit) := by
  intro m hd hs
  have hsteps := note_steps m (.shown r)
  exact .ended [.shown r] (Follows.note m _) hsteps (hsteps ▸ hs)

theorem library (b : Builtin) (args : List Value) :
    Paces l address depth anyway (callLibrary b args : Eval ν (List Value)) := by
  have hshown : Paces l address depth anyway (exposeAll (Library.shown b args) : Eval ν Unit) :=
    exposeAll_of (μ := ν) (R := fun x _ => Paces l address depth anyway x)
      (pure () anyway rfl) (fun hx hf => bind hx hf) expose _
  refine bind hshown fun _ m hd hs => ?_
  rw [run_callBuiltin]
  exact plain (plain_libraryStep address b args) m hd hs

/-- A step and what comes after it, which has the step to account for. -/
theorem tick_bind {x : Eval ν α} {ahead : α → Bool}
    (hx : ∀ m : Machine ν, m.depth = depth → m.steps + 1 ≤ l.maxSteps →
      Paid l ahead m (x ⟨l, address⟩ { m with steps := m.steps + 1 })) :
    Paces l address depth ahead (tick >>= fun _ => x) := by
  intro m hd hs
  rw [run_bind]
  unfold tick
  dsimp only
  by_cases h : m.steps + 1 > l.maxSteps
  · rw [if_pos h]
    -- The step is one too many, so the budget was used up before it.
    have hall : m.steps = l.maxSteps := by omega
    refine .failed [] (Follows.refl rfl rfl) hs ?_ fun n hn => ?_
    · intro hc
      cases hc
    · cases hn
      exact ⟨rfl, hall⟩
  · rw [if_neg h]
    exact hx m hd (by omega)

/-- The step of a statement is for the statement. -/
theorem takeStep : Paces l address depth anyway (takeStep : Eval ν Unit) := by
  refine tick_bind fun m _ hs => ?_
  have hfollows := Follows.note { m with steps := m.steps + 1 } (.progress .statement)
  have hsteps := note_steps { m with steps := m.steps + 1 } (.progress .statement)
  exact .ended [.progress .statement] ⟨hfollows.depth, hfollows.record⟩ hsteps (hsteps ▸ hs)

/-- The step of a round is ahead of its note, which the loop makes. -/
theorem again (state : σ) : Paces l address depth Turn.goesOn
    (tick >>= fun _ => (Pure.pure (.again state) : Eval ν (Turn σ α))) :=
  tick_bind fun _ _ hs => .ended [] (Follows.refl rfl rfl) rfl hs

/-- Changes before and after of which at most the beginning and the end of a region are noted. -/
theorem around (first last : List Event) {before after : Machine ν → Machine ν} {x : Eval ν α}
    (hfirst : progressIn first = 0) (hlast : progressIn last = 0)
    (hbefore : ∀ m, Follows first m (before m) ∧ (before m).steps = m.steps)
    (hafter : ∀ m, Follows last m (after m) ∧ (after m).steps = m.steps)
    (hx : Paces l address depth anyway x) :
    Paces l address depth anyway (around before after x) := by
  intro m hd hs
  rcases hbefore m with ⟨hfollows, hsteps⟩
  have h := hx (before m) (hfollows.depth.trans hd) (hsteps ▸ hs)
  refine Paid.since hfollows (by rw [hsteps, hfirst]; rfl) ?_
  unfold Script.around
  generalize x ⟨l, address⟩ (before m) = r at h
  cases h with
  | @ended a m' later hfollows' hsteps' hbudget =>
      rcases hafter m' with ⟨hfollows'', hsteps''⟩
      refine .ended (last ++ later) (hfollows'.trans hfollows'') ?_ (hsteps'' ▸ hbudget)
      rw [hsteps'', hsteps', progressIn_append, hlast, Nat.zero_add]
  | @failed f m' later hfollows' hbudget hcause hspent =>
      rcases hafter m' with ⟨hfollows'', -⟩
      have hsame : progressIn (last ++ later) = progressIn later := by
        rw [progressIn_append, hlast, Nat.zero_add]
      refine .failed (last ++ later) (hfollows'.trans hfollows'') ?_ hcause ?_
      · rw [hsame]
        exact hbudget
      · rw [hsame]
        exact hspent

theorem watched {region : Region} {x : Eval ν α} (hx : Paces l address depth anyway x) :
    Paces l address depth anyway (watched region x) :=
  around [.enter region] [.leave] rfl rfl
    (fun m => ⟨Follows.note m _, note_steps m _⟩) (fun m => ⟨Follows.note m _, note_steps m _⟩) hx

theorem nested {region : Region} {x : Eval ν α} (hx : Paces l address depth anyway x) :
    Paces l address depth anyway (nested region x) := by
  intro m hd hs
  unfold Script.nested
  by_cases h : m.nesting ≥ maxNesting
  · rw [if_pos h]
    refine faulty ?_ ?_ m hd hs
    · rintro n hn
      cases hn
    · intro hn
      cases hn
  · rw [if_neg h]
    have hdeeper : Paces l address depth anyway (deeper x) :=
      around [] [] rfl rfl (fun _ => ⟨Follows.refl rfl rfl, rfl⟩)
        (fun _ => ⟨Follows.refl rfl rfl, rfl⟩) hx
    exact hdeeper.watched m hd hs

/-- A call is evaluated one call further in, if that is within the call depth. -/
theorem framed {chunk : String} {line : Nat} {x : Eval ν α}
    (hx : depth < l.maxCallDepth → Paces l address (depth + 1) anyway x) :
    Paces l address depth anyway (framed chunk line x) := by
  intro m hd hs
  unfold Script.framed
  dsimp only
  by_cases h : m.depth ≥ l.maxCallDepth
  · rw [if_pos h]
    refine faulty ?_ ?_ m hd hs
    · rintro n hn
      cases hn
    · intro hn
      cases hn
  · rw [if_neg h]
    have hbody := hx (by omega) { m with depth := m.depth + 1, chunk := chunk, line := line }
      (by rw [hd]) hs
    generalize x ⟨l, address⟩ { m with depth := m.depth + 1, chunk := chunk, line := line } = r
      at hbody
    -- On the way out the depth is what it was before the call, after a fault as well.
    cases hbody with
    | @ended a m' later hfollows hsteps hbudget =>
        have hdepth : m'.depth - 1 = m.depth := by rw [hfollows.depth]; rfl
        exact .ended later ⟨hdepth, hfollows.record⟩ hsteps hbudget
    | @failed f m' later hfollows hbudget hcause hspent =>
        have hdepth : m'.depth - 1 = m.depth := by rw [hfollows.depth]; rfl
        exact .failed later ⟨hdepth, hfollows.record⟩ hbudget hcause hspent

/-- A loop with more rounds left than steps does not run out of rounds. The induction is on the
    rounds that are left. -/
theorem loop {round : σ → Eval ν (Turn σ α)}
    (hround : ∀ s, Paces l address depth Turn.goesOn (round s)) (fuel : Nat) (state : σ)
    (m : Machine ν) (hd : m.depth = depth) (hs : m.steps ≤ l.maxSteps)
    (hleft : l.maxSteps < m.steps + fuel) :
    Paid l anyway m (loop round fuel state ⟨l, address⟩ m) := by
  induction fuel generalizing state m with
  | zero =>
      -- Without a round left, more steps would have been taken than the budget has.
      omega
  | succ fuel ih =>
      simp only [Script.loop]
      rw [run_bind]
      have h := hround state m hd hs
      generalize round state ⟨l, address⟩ m = r at h
      cases h with
      | failed later hfollows hbudget hcause hspent =>
          exact .failed later hfollows hbudget hcause hspent
      | @ended turn m' later hfollows hsteps hbudget =>
          cases turn with
          | done a => exact .ended later hfollows hsteps hbudget
          | again state =>
              -- The step that the round came with pays for the note of the round.
              have hnote := note_steps m' (.progress .round)
              have hgone : Follows ([.progress .round] ++ later) m (m'.note (.progress .round)) :=
                hfollows.trans (Follows.note m' _)
              have hpaid : (m'.note (.progress .round)).steps =
                  m.steps + progressIn ([.progress .round] ++ later) := by
                rw [hnote, hsteps, progressIn_append]
                change _ + 1 = m.steps + (1 + _)
                omega
              have hstep : m.steps + 1 ≤ m'.steps := by
                rw [hsteps]
                change _ ≤ _ + 1
                omega
              refine Paid.since hgone hpaid (ih state (m'.note (.progress .round)) ?_ ?_ ?_)
              · exact hgone.depth.trans hd
              · rw [hnote]
                exact hbudget
              · rw [hnote]
                omega

end Paces

/-- Evaluation at a depth stays within the budget, if calls do. -/
def budgetCongruence (depth : Nat) : UniformCongruence ν where
  Admits _ := True
  Rel _ x _ := Paces l address depth anyway x
  RelRound _ x _ := Paces l address depth Turn.goesOn x
  mono _ h := h
  plain h := Paces.plain h
  library b args := Paces.library b args
  bind hx hf := Paces.bind hx hf
  takeStep := Paces.takeStep
  atLine line := Paces.quiet fun m => ⟨(), { m with line := line }, rfl, rfl, rfl, rfl, rfl⟩
  nested _ hx := Paces.nested hx
  watched _ hx := Paces.watched hx
  newClosure env _ := Paces.quiet fun m => ⟨_, _, rfl, rfl, rfl, rfl, rfl⟩
  newScope _ := Paces.quiet fun m => ⟨_, _, rfl, rfl, rfl, rfl, rfl⟩
  onInnermost env _ := by
    cases env <;> exact Paces.quiet fun m => ⟨_, _, rfl, rfl, rfl, rfl, rfl⟩
  closureAt id _ _ hsome hnone := by
    intro m hd hs
    rw [run_closureAt_bind]
    cases m.closures[id.index]? with
    | none => exact hnone m hd hs
    | some c => exact hsome c trivial m hd hs
  rounds state hround := fun m hd hs => Paces.loop hround (l.maxSteps + 1) state m hd hs (by omega)
  roundDone a := Paces.pure _ _ rfl
  roundAgain state := Paces.again state
  roundBind hx hf := Paces.bind hx hf

variable [Reference ν]

/-- Script functions are evaluated as deep as the call depth allows, and no call is cut off before
    that. The induction is on the calls that are left. -/
theorem callClosure_paces (fuel depth : Nat) (hdepth : depth ≤ l.maxCallDepth)
    (hleft : depth + fuel = l.maxCallDepth + 1) (c : Closure ν) (args : List Value) :
    Paces l address depth anyway (callClosure fuel c args) := by
  induction fuel generalizing depth c args with
  | zero => omega
  | succ fuel ih =>
      simp only [callClosure]
      refine Paces.bind (Paces.framed fun h => ?_) fun flow => ?_
      · -- One call further in there is one call less left, so the sum stays the same.
        let C : UniformCongruence ν := budgetCongruence l address (depth + 1)
        refine Paces.bind (C.newScope (n := 0) _) fun frame => ?_
        refine @block_rel ν _ C _ (callClosure fuel) (fun c args _ => ?_) _ _ _ (Nat.le_refl _)
        exact ih (depth + 1) (by omega) (by omega) c args
      · cases flow with
        | broken => exact Paces.plain (Plain.fault rfl)
        | _ => exact Paces.plain (Plain.pure _)

theorem callWithin_paces (c : Closure ν) (args : List Value) :
    Paces l address 0 anyway (callWithin c args) :=
  fun m hd hs =>
    callClosure_paces l address (l.maxCallDepth + 1) 0 (Nat.zero_le _) (by omega) c args m hd hs

/-! ## Operations -/

theorem execChunk_paid (chunk : Chunk ν) (m : Machine ν) :
    Paid l anyway m.restarted (execChunk chunk ⟨l, address⟩ m) := by
  let C : UniformCongruence ν := budgetCongruence l address 0
  have hblock : Paces l address 0 anyway (block callWithin [] chunk.body) :=
    @block_rel ν _ C callWithin callWithin (fun c args _ => callWithin_paces l address c args)
      [] _ chunk.body (Nat.le_refl _)
  -- Being in the chunk, before its first line, is where it starts from.
  have hstart : Follows [] m.restarted { m.restarted with chunk := chunk.name, line := 0 } :=
    Follows.refl rfl rfl
  refine Paid.since hstart rfl (Paces.bind hblock (fun flow => ?_) _ rfl (Nat.zero_le _))
  cases flow with
  | broken => exact Paces.plain (Plain.fault rfl)
  | _ => exact Paces.plain (Plain.pure _)

theorem callGlobal_paid (name : String) (args : List Value) (m : Machine ν) :
    Paid l anyway m.restarted (callGlobal name args ⟨l, address⟩ m) := by
  have hcall : ∀ f, Paces l address 0 anyway (callValue callWithin .none f args : Eval ν _) :=
    fun f => @UniformCongruence.callValue_rel ν (budgetCongruence l address 0) _ callWithin
      (fun c args _ => callWithin_paces l address c args) 0 .none f args
  unfold callGlobal
  dsimp only
  cases m.restarted.global name with
  | nil =>
      -- Without anything to call, the operation fails before it begins.
      refine .failed [] (Follows.refl rfl rfl) (Nat.zero_le _) ?_ fun n hn => ?_
      · intro hc
        cases hc
      · cases hn
  | _ => exact hcall _ m.restarted rfl (Nat.zero_le _)

end Pace

/-- An operation from a machine ends, and within the budget. -/
structure EndsWithin (l : Limits) (address : Addressing) (x : Eval ν α) (m : Machine ν) : Prop where
  /-- No loop and no call is cut off. -/
  uncut : ∀ f m', x ⟨l, address⟩ m = .error f m' → f.cause ≠ .outOfFuel
  /-- With a record the operation does the same. -/
  unaware : endingIn Machine.forget (x ⟨l, address⟩ { m with record := some [] }) =
    endingIn Machine.forget (x ⟨l, address⟩ m)
  /-- The record notes no more statements and rounds than the budget has steps, and as many as it
      has if the operation was stopped for the budget. -/
  paced : ∃ events,
    (machineAfter (x ⟨l, address⟩ { m with record := some [] })).record = some events ∧
    progressIn events ≤ l.maxSteps ∧
    ∀ f m' n, x ⟨l, address⟩ { m with record := some [] } = .error f m' →
      f.cause = .stepBudget n → n = l.maxSteps ∧ progressIn events = l.maxSteps

/-- What is paid for from fresh counts is within the budget. -/
theorem Paid.endsWithin {l : Limits} {address : Addressing} {x : Eval ν α} (hx : Oblivious x)
    (hpaid : ∀ m, Paid l anyway m.restarted (x ⟨l, address⟩ m)) (m : Machine ν) :
    EndsWithin l address x m := by
  refine ⟨fun f m' hrun => ?_, ?_, ?_⟩
  · have h := hpaid m
    rw [hrun] at h
    cases h with
    | failed later hfollows hbudget hcause hspent => exact hcause
  · rw [← hx, ← hx]
    rfl
  · have h := hpaid { m with record := some [] }
    generalize x ⟨l, address⟩ { m with record := some [] } = r at h
    cases h with
    | @ended a m' later hfollows hsteps hbudget =>
        refine ⟨later ++ [], hfollows.record, ?_, fun f m' n hrun => by cases hrun⟩
        rw [List.append_nil]
        -- The counts are fresh, and no step is ahead at the end.
        change m'.steps = 0 + progressIn later + 0 at hsteps
        omega
    | @failed f m' later hfollows hbudget hcause hspent =>
        change 0 + progressIn later ≤ l.maxSteps at hbudget
        refine ⟨later ++ [], hfollows.record, ?_, fun f' m'' n hrun hn => ?_⟩
        · rw [List.append_nil]
          omega
        · cases hrun
          rcases hspent n hn with ⟨hn, hspent⟩
          change 0 + progressIn later = n at hspent
          rw [List.append_nil]
          exact ⟨hn, by omega⟩

/-- Under any limits and from any machine, running any chunk and calling any global end with a
    result or a fault that the script has come to, and no more statements are done and rounds of
    loops gone on from than the budget has steps. -/
theorem operations_end_within [Reference ν] (l : Limits) (address : Addressing) (m : Machine ν) :
    (∀ chunk : Chunk ν, EndsWithin l address (execChunk chunk) m) ∧
      ∀ name args, EndsWithin l address (callGlobal name args) m :=
  ⟨fun chunk => Paid.endsWithin (execChunk_oblivious chunk) (execChunk_paid l address chunk) m,
    fun name args =>
      Paid.endsWithin (callGlobal_oblivious name args) (callGlobal_paid l address name args) m⟩

/-- The statement of an endless loop, and its rounds until a budget of five steps is used up. -/
example : progressIn
    ((machineAfter (execChunk ⟨"loop", [.mk 1 (.whileLoop (.bool true) [])]⟩ ⟨⟨5, 1⟩, .spaced⟩
      { (.initial : Machine) with record := some [] })).record.getD []) = 5 := by
  decide +kernel

end Script

end PixelEffects
