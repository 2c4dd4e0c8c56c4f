import PixelEffects.Proofs.Script.Congruence
import PixelEffects.Script.Engine

/-!
# Limits

A run that its limits do not stop would have been the same under any larger limits.

Two runs from the same machine, one under limits `l` and one under larger limits `l'`, do the same
until the smaller limits stop the first one. No script can catch a fault, so from there on the first
run does nothing more, and there is nothing left to compare. The relation `Ends` between the two
outcomes says just that, and evaluation respects it because each of its combinators does.

Two more bounds are at work, which are not part of the limits but computed from them: how deep
calls are evaluated, and how many rounds a loop is given. Both differ between the two runs, and it
has to be shown that neither is ever reached. For calls, the depth of the machine and what is left
for calls add up to the same number all the time. For loops, every round but the last takes a step,
so the budget of steps is used up first. This is why `Ends` speaks of depth and steps.

## Main definitions

* `Limits.Stops`, `Limits.Stopped`: The faults of limits, and the outcomes that are such a fault.
* `Ends`: Two outcomes that are the same unless the first run was stopped.
* `Alike`: Two computations with such outcomes from every machine at a given depth.
* `limitCongruence`: Evaluation respects this.

## Theorems

* `Alike.loop`: Loops are not cut short, since their rounds take steps.
* `callClosure_alike`: Nor are calls, since they are counted.
* `larger_limits_agree`: Running a chunk and calling a global are the same under larger limits,
  unless the smaller ones stop them.
-/

namespace PixelEffects

namespace Script

variable {ν α β σ : Type}

/-- The causes of faults by which limits stop a run. -/
def Limits.Stops (l : Limits) (c : Cause) : Prop :=
  c = .stepBudget l.maxSteps ∨ c = .callDepth l.maxCallDepth

/-- The outcome of a run that limits have stopped. -/
def Limits.Stopped (l : Limits) : EStateM.Result Fault (Machine ν) α → Prop
  | .ok _ _ => False
  | .error f _ => l.Stops f.cause

/-- Outcomes of two runs from one machine, at a depth and after some steps. Unless the limits have
    stopped the first run, they are the same, and a result comes at the same depth and after no
    fewer steps, or after more of them when it has to. -/
inductive Ends (l : Limits) (depth steps : Nat) (stepped : α → Bool) :
    EStateM.Result Fault (Machine ν) α → EStateM.Result Fault (Machine ν) α → Prop
  | stopped {f : Fault} {m : Machine ν} {r : EStateM.Result Fault (Machine ν) α}
      (h : l.Stops f.cause) : Ends l depth steps stepped (.error f m) r
  | failed (f : Fault) (m : Machine ν) : Ends l depth steps stepped (.error f m) (.error f m)
  | ended {a : α} {m : Machine ν} (hdepth : m.depth = depth) (hbudget : m.steps ≤ l.maxSteps)
      (hsteps : steps + (stepped a).toNat ≤ m.steps) :
      Ends l depth steps stepped (.ok a m) (.ok a m)

/-- Earlier on there were no more steps, and whether one was taken since can be forgotten. -/
theorem Ends.since {l : Limits} {depth steps steps' : Nat} {stepped : α → Bool}
    {r r' : EStateM.Result Fault (Machine ν) α} (hsteps : steps ≤ steps')
    (h : Ends l depth steps' stepped r r') : Ends l depth steps anyway r r' := by
  cases h with
  | stopped h => exact .stopped h
  | failed f m => exact .failed f m
  | @ended a m hd hb hp =>
      refine .ended hd hb ?_
      change steps + 0 ≤ m.steps
      omega

section Pair

variable (l l' : Limits) (address : Addressing)

/-- Two computations with the same outcomes under limits `l` and `l'`, from every machine at a
    depth, unless `l` stops the first. -/
def Alike (depth : Nat) (stepped : α → Bool) (x y : Eval ν α) : Prop :=
  ∀ m, m.depth = depth → m.steps ≤ l.maxSteps →
    Ends l depth m.steps stepped (x ⟨l, address⟩ m) (y ⟨l', address⟩ m)

namespace Alike

variable {l l' address} {depth : Nat}

/-- One computation after another. A step of either is a step of both. -/
theorem bind {p : α → Bool} {q : β → Bool} {x y : Eval ν α} {f g : α → Eval ν β} {r : β → Bool}
    (hx : Alike l l' address depth p x y) (hf : ∀ a, Alike l l' address depth q (f a) (g a))
    (hr : ∀ a b, r b = true → p a = true ∨ q b = true) :
    Alike l l' address depth r (x >>= f) (y >>= g) := by
  intro m hd hs
  have h := hx m hd hs
  rw [run_bind, run_bind]
  generalize x ⟨l, address⟩ m = u, y ⟨l', address⟩ m = v at h
  cases h with
  | stopped h => exact .stopped h
  | failed f m => exact .failed f m
  | @ended a m' hd' hb hp =>
      -- Both go on from the same machine with the same result.
      have h' := hf a m' hd' hb
      dsimp only
      generalize f a ⟨l, address⟩ m' = u', g a ⟨l', address⟩ m' = v' at h'
      cases h' with
      | stopped h => exact .stopped h
      | failed f m => exact .failed f m
      | @ended b m'' hd'' hb' hq =>
          refine .ended hd'' hb' ?_
          -- If a step was promised, one of the two has taken it.
          have hcount : (r b).toNat ≤ (p a).toNat + (q b).toNat := by
            cases hrb : r b with
            | false => exact Nat.zero_le _
            | true =>
                rcases hr a b hrb with h | h <;> rw [h] <;> simp only [Bool.toNat_true] <;> omega
          omega

theorem plain {x y : Eval ν α} (hx : Plain x y) : Alike l l' address depth anyway x y := by
  rcases hx with ⟨g, -, rfl, rfl⟩
  intro m hd hs
  simp only [StoreStep.toEval]
  rcases g m.tables m.scopes with ⟨c | a, t, sc⟩
  · exact .failed _ _
  · exact .ended hd hs (Nat.le_refl _)

theorem pure (a : α) (p : α → Bool) (ha : p a = false) :
    Alike l l' address depth p (pure a : Eval ν α) (Pure.pure a) := by
  intro m hd hs
  refine .ended hd hs ?_
  rw [ha]
  exact Nat.le_refl _

/-- A step within the larger budget is a step, or it is one too many for the smaller budget. -/
theorem tick (hsteps : l.maxSteps ≤ l'.maxSteps) :
    Alike l l' address depth (fun _ => true) (tick : Eval ν Unit) tick := by
  intro m hd hs
  unfold Script.tick
  dsimp only
  by_cases h : m.steps + 1 > l.maxSteps
  · rw [if_pos h]
    exact .stopped (Or.inl rfl)
  · -- The larger budget has room for the step too.
    rw [if_neg h, if_neg (by omega)]
    refine .ended hd ?_ (Nat.le_refl _)
    change m.steps + 1 ≤ l.maxSteps
    omega

theorem atLine (line : Nat) :
    Alike l l' address depth anyway (atLine line : Eval ν Unit) (Script.atLine line) :=
  fun _ hd hs => .ended hd hs (Nat.le_refl _)

theorem note_counters (e : Event) (m : Machine ν) :
    (m.note e).depth = m.depth ∧ (m.note e).steps = m.steps := by
  unfold Machine.note
  split <;> exact ⟨rfl, rfl⟩

theorem noting (e : Event) :
    Alike l l' address depth anyway (fun _ m => .ok () (m.note e) : Eval ν Unit)
      (fun _ m => .ok () (m.note e)) := by
  intro m hd hs
  rcases note_counters e m with ⟨hdepth, hsteps⟩
  exact .ended (hdepth.trans hd) (by rw [hsteps]; exact hs) (Nat.le_of_eq hsteps.symm)

theorem mark (p : Progress) :
    Alike l l' address depth anyway (mark p : Eval ν Unit) (Script.mark p) :=
  noting _

/-- Both runs show places as the same numbers. -/
theorem library (b : Builtin) (args : List Value) :
    Alike l l' address depth anyway (callLibrary b args : Eval ν (List Value))
      (callLibrary b args) := by
  have hshown : Alike l l' address depth anyway
      (exposeAll (Library.shown b args) : Eval ν Unit) (exposeAll (Library.shown b args)) :=
    exposeAll_of (plain (Plain.pure ())) (fun hx hf => bind hx hf fun _ _ h => Or.inr h)
      (fun r => noting (.shown r)) _
  refine bind hshown (fun _ m hd hs => ?_) fun _ _ h => Or.inr h
  rw [run_callBuiltin, run_callBuiltin]
  exact plain (plain_libraryStep address b args) m hd hs

/-- Changes before and after that leave the counters of the limits alone. -/
theorem around {before after : Machine ν → Machine ν} {x y : Eval ν α}
    (hbefore : ∀ m, (before m).depth = m.depth ∧ (before m).steps = m.steps)
    (hafter : ∀ m, (after m).depth = m.depth ∧ (after m).steps = m.steps)
    (hx : Alike l l' address depth anyway x y) :
    Alike l l' address depth anyway (around before after x) (around before after y) := by
  intro m hd hs
  rcases hbefore m with ⟨hdepth, hsteps⟩
  have h := hx (before m) (by rw [hdepth, hd]) (by rw [hsteps]; exact hs)
  rw [hsteps] at h
  unfold Script.around
  generalize x ⟨l, address⟩ (before m) = u, y ⟨l', address⟩ (before m) = v at h
  cases h with
  | stopped h => exact .stopped h
  | failed f m => exact .failed f _
  | @ended a m' hd' hb hp =>
      rcases hafter m' with ⟨hdepth', hsteps'⟩
      exact .ended (by rw [hdepth', hd']) (by rw [hsteps']; exact hb) (by rw [hsteps']; exact hp)

theorem watched {region : Region} {x y : Eval ν α} (hx : Alike l l' address depth anyway x y) :
    Alike l l' address depth anyway (watched region x) (Script.watched region y) :=
  around (note_counters _) (note_counters _) hx

theorem nested {region : Region} {x y : Eval ν α} (hx : Alike l l' address depth anyway x y) :
    Alike l l' address depth anyway (nested region x) (Script.nested region y) := by
  intro m hd hs
  unfold Script.nested
  -- How much may be nested is no limit that a run is given, so both fail or neither.
  by_cases h : m.nesting ≥ maxNesting
  · rw [if_pos h, if_pos h]
    exact .failed _ _
  · rw [if_neg h, if_neg h]
    have hdeeper : Alike l l' address depth anyway (deeper x) (deeper y) :=
      around (fun _ => ⟨rfl, rfl⟩) (fun _ => ⟨rfl, rfl⟩) hx
    exact watched hdeeper m hd hs

/-- A call within the larger call depth is a call, or it is one too deep for the smaller one. -/
theorem framed (hcalls : l.maxCallDepth ≤ l'.maxCallDepth) {chunk : String} {line : Nat}
    {x y : Eval ν α}
    (hx : depth < l.maxCallDepth → Alike l l' address (depth + 1) anyway x y) :
    Alike l l' address depth anyway (framed chunk line x) (Script.framed chunk line y) := by
  intro m hd hs
  unfold Script.framed
  dsimp only
  by_cases h : m.depth ≥ l.maxCallDepth
  · rw [if_pos h]
    exact .stopped (Or.inr rfl)
  · rw [if_neg h, if_neg (by omega)]
    have hbody := hx (by omega) { m with depth := m.depth + 1, chunk := chunk, line := line }
      (by rw [hd]) hs
    generalize x ⟨l, address⟩ { m with depth := m.depth + 1, chunk := chunk, line := line } = u,
      y ⟨l', address⟩ { m with depth := m.depth + 1, chunk := chunk, line := line } = v at hbody
    cases hbody with
    | stopped h => exact .stopped h
    | failed f m => exact .failed f _
    | @ended a m' hd' hb hp =>
        -- On the way out the depth is what it was before the call.
        refine .ended ?_ hb hp
        change m'.depth - 1 = depth
        omega

/-- A loop that has as many rounds left as steps, and one, does not run out of rounds. The induction
    is on the rounds that the first run has left. -/
theorem loop {round round' : σ → Eval ν (Turn σ α)}
    (hround : ∀ s, Alike l l' address depth Turn.goesOn (round s) (round' s))
    (fuel fuel' : Nat) (hfuel : fuel ≤ fuel') (state : σ) (m : Machine ν) (hd : m.depth = depth)
    (hs : m.steps ≤ l.maxSteps) (hleft : l.maxSteps < m.steps + fuel) :
    Ends l depth m.steps anyway (loop round fuel state ⟨l, address⟩ m)
      (Script.loop round' fuel' state ⟨l', address⟩ m) := by
  induction fuel generalizing fuel' state m with
  | zero =>
      -- Without a round left, more steps would have been taken than the budget has.
      omega
  | succ fuel ih =>
      cases fuel' with
      | zero => omega
      | succ fuel' =>
          simp only [Script.loop, run_bind]
          have h := hround state m hd hs
          generalize round state ⟨l, address⟩ m = u, round' state ⟨l', address⟩ m = v at h
          cases h with
          | stopped h => exact .stopped h
          | failed f m => exact .failed f m
          | @ended turn m' hd' hb hp =>
              cases turn with
              | done a => exact .ended hd' hb hp
              | again state =>
                  -- The round took a step, which pays for the round that is gone.
                  have hstep : m.steps + 1 ≤ m'.steps := hp
                  rcases note_counters (.progress .round) m' with ⟨hdepth, hsteps⟩
                  have hrest := ih fuel' (by omega) state (m'.note (.progress .round))
                    (hdepth.trans hd') (by omega) (by omega)
                  exact hrest.since (by omega)

end Alike

/-- Evaluation at a depth is alike under both limits, if calls are. -/
def limitCongruence (hsteps : l.maxSteps ≤ l'.maxSteps) (depth : Nat) :
    UniformCongruence ν where
  Admits _ := True
  Rel _ := Alike l l' address depth anyway
  RelRound _ := Alike l l' address depth Turn.goesOn
  mono _ h := h
  plain h := Alike.plain h
  library b args := Alike.library b args
  bind hx hf := Alike.bind hx hf fun _ _ h => Or.inr h
  takeStep := Alike.bind (Alike.tick hsteps) (fun _ => Alike.mark .statement) fun _ _ h => Or.inr h
  atLine line := Alike.atLine line
  nested _ hx := Alike.nested hx
  watched _ hx := Alike.watched hx
  newClosure env _ := fun _ hd hs => .ended hd hs (Nat.le_refl _)
  newScope _ := fun _ hd hs => .ended hd hs (Nat.le_refl _)
  onInnermost env _ := by
    intro m hd hs
    cases env <;> exact .ended hd hs (Nat.le_refl _)
  closureAt id _ _ hsome hnone := by
    intro m hd hs
    rw [run_closureAt_bind, run_closureAt_bind]
    cases m.closures[id.index]? with
    | none => exact hnone m hd hs
    | some c => exact hsome c trivial m hd hs
  rounds state hround := fun m hd hs =>
    Alike.loop hround _ _ (by exact Nat.succ_le_succ hsteps) state m hd hs
      (by change l.maxSteps < m.steps + (l.maxSteps + 1); omega)
  roundDone a := Alike.pure _ _ rfl
  roundAgain state :=
    Alike.bind (Alike.tick hsteps) (fun _ => Alike.pure _ anyway rfl) fun _ _ _ => Or.inl rfl
  roundBind hx hf := Alike.bind hx hf fun _ _ h => Or.inr h

variable [Reference ν]

/-- Script functions behave alike, evaluated as deep as the limits still allow at a depth. -/
theorem callClosure_alike (hsteps : l.maxSteps ≤ l'.maxSteps)
    (hcalls : l.maxCallDepth ≤ l'.maxCallDepth) (fuel fuel' depth : Nat) (hfuel : fuel ≤ fuel')
    (hdepth : depth ≤ l.maxCallDepth) (hleft : depth + fuel = l.maxCallDepth + 1) (c : Closure ν)
    (args : List Value) :
    Alike l l' address depth anyway (callClosure fuel c args) (callClosure fuel' c args) := by
  induction fuel generalizing fuel' depth c args with
  | zero => omega
  | succ fuel ih =>
      cases fuel' with
      | zero => omega
      | succ fuel' =>
          let C : Nat → UniformCongruence ν := limitCongruence l l' address hsteps
          simp only [callClosure]
          refine (C depth).bind (n := 0) (Alike.framed hcalls fun h => ?_) fun flow => ?_
          · -- One call further in there is one call less left, so the sum stays the same.
            refine (C (depth + 1)).bind (n := 0) ((C (depth + 1)).newScope _) fun frame => ?_
            refine block_rel (C (depth + 1)) (n := slackOfBlock c.definition.body)
              (fun c args _ => ?_) _ _ (Nat.le_refl _)
            exact ih fuel' (depth + 1) (by omega) (by omega) (by omega) c args
          · cases flow with
            | normal => exact Alike.plain (Plain.pure _)
            | broken => exact Alike.plain (Plain.fault rfl)
            | returned vs => exact Alike.plain (Plain.pure _)

/-- Calling a script function that has no caller behaves alike. -/
theorem callWithin_alike (hsteps : l.maxSteps ≤ l'.maxSteps)
    (hcalls : l.maxCallDepth ≤ l'.maxCallDepth) (c : Closure ν) (args : List Value) :
    Alike l l' address 0 anyway (callWithin c args) (callWithin c args) := by
  intro m hd hs
  exact callClosure_alike l l' address hsteps hcalls (l.maxCallDepth + 1) (l'.maxCallDepth + 1) 0
    (by omega) (Nat.zero_le _) (by omega) c args m hd hs

end Pair

/-- Outcomes of which the first is not one of a stopped run are the same. -/
theorem Ends.stopped_or_eq {l : Limits} {depth steps : Nat} {stepped : α → Bool}
    {r r' : EStateM.Result Fault (Machine ν) α} (h : Ends l depth steps stepped r r') :
    l.Stopped r ∨ r = r' := by
  cases h with
  | stopped h => exact Or.inl h
  | failed f m => exact Or.inr rfl
  | ended _ _ _ => exact Or.inr rfl

/-! ## Operations -/

section Operations

variable [Reference ν] {l l' : Limits}

theorem execChunk_ends (hsteps : l.maxSteps ≤ l'.maxSteps)
    (hcalls : l.maxCallDepth ≤ l'.maxCallDepth) (address : Addressing) (chunk : Chunk ν)
    (m : Machine ν) :
    Ends l 0 0 anyway (execChunk chunk ⟨l, address⟩ m) (execChunk chunk ⟨l', address⟩ m) := by
  let C : UniformCongruence ν := limitCongruence l l' address hsteps 0
  have hbody : Alike l l' address 0 anyway (block callWithin [] chunk.body)
      (block callWithin [] chunk.body) :=
    block_rel C (n := slackOfBlock chunk.body)
      (fun c args _ => callWithin_alike l l' address hsteps hcalls c args) [] _ (Nat.le_refl _)
  refine C.bind (n := 0) hbody (fun flow => ?_)
    { m.restarted with chunk := chunk.name, line := 0 } rfl (Nat.zero_le l.maxSteps)
  cases flow with
  | broken => exact Alike.plain (Plain.fault rfl)
  | _ => exact Alike.plain (Plain.pure _)

theorem callGlobal_ends (hsteps : l.maxSteps ≤ l'.maxSteps)
    (hcalls : l.maxCallDepth ≤ l'.maxCallDepth) (address : Addressing) (name : String)
    (args : List Value) (m : Machine ν) :
    Ends l 0 0 anyway (callGlobal name args ⟨l, address⟩ m)
      (callGlobal name args ⟨l', address⟩ m) := by
  let C : UniformCongruence ν := limitCongruence l l' address hsteps 0
  have hcall : ∀ f, Alike l l' address 0 anyway (callValue callWithin .none f args : Eval ν _)
      (callValue callWithin .none f args) := fun f =>
    C.callValue_rel (n := 0)
      (fun c args _ => callWithin_alike l l' address hsteps hcalls c args) .none f args
  unfold callGlobal
  dsimp only
  -- Both runs find the same global. Without one, both fail before they begin.
  cases m.restarted.global name with
  | nil => exact .failed _ _
  | _ => exact hcall _ m.restarted rfl (Nat.zero_le l.maxSteps)

/-- From any machine, running a chunk and calling a global have the same outcome, with the same
    machine at the end, under limits and under larger ones, unless the smaller limits stop them. In
    particular what succeeds under limits succeeds in the same way under larger ones. -/
theorem larger_limits_agree (hsteps : l.maxSteps ≤ l'.maxSteps)
    (hcalls : l.maxCallDepth ≤ l'.maxCallDepth) (address : Addressing) (m : Machine ν) :
    (∀ chunk : Chunk ν,
      (l.Stopped (execChunk chunk ⟨l, address⟩ m) ∨
        execChunk chunk ⟨l, address⟩ m = execChunk chunk ⟨l', address⟩ m) ∧
      ∀ m', execChunk chunk ⟨l, address⟩ m = .ok () m' →
        execChunk chunk ⟨l', address⟩ m = .ok () m') ∧
    ∀ name args,
      (l.Stopped (callGlobal name args ⟨l, address⟩ m) ∨
        callGlobal name args ⟨l, address⟩ m = callGlobal name args ⟨l', address⟩ m) ∧
      ∀ vs m', callGlobal name args ⟨l, address⟩ m = .ok vs m' →
        callGlobal name args ⟨l', address⟩ m = .ok vs m' := by
  refine ⟨fun chunk => ?_, fun name args => ?_⟩
  · have h := (execChunk_ends hsteps hcalls address chunk m).stopped_or_eq
    refine ⟨h, fun m' hok => ?_⟩
    rcases h with h | h
    · rw [hok] at h
      exact h.elim
    · rw [← h, hok]
  · have h := (callGlobal_ends hsteps hcalls address name args m).stopped_or_eq
    refine ⟨h, fun vs m' hok => ?_⟩
    rcases h with h | h
    · rw [hok] at h
      exact h.elim
    · rw [← h, hok]

/-- A chunk of two statements. -/
def twoStatements : Chunk :=
  ⟨"two", [.mk 1 (.declare ["x"] []), .mk 2 (.declare ["y"] [])]⟩

/-- Two statements are one too many for a budget of one step, and not for the limits by default. -/
theorem larger_limits_agree_two_statements :
    (1 ≤ 1000000 ∧ 1 ≤ 64) ∧
      (Limits.Stopped ⟨1, 1⟩ (execChunk twoStatements ⟨⟨1, 1⟩, .spaced⟩ .initial) ∨
        execChunk twoStatements ⟨⟨1, 1⟩, .spaced⟩ .initial =
          execChunk twoStatements ⟨⟨1000000, 64⟩, .spaced⟩ .initial) :=
  have hsteps : 1 ≤ 1000000 := by decide
  have hcalls : 1 ≤ 64 := by decide
  ⟨⟨hsteps, hcalls⟩, ((@larger_limits_agree String _ ⟨1, 1⟩ ⟨1000000, 64⟩ hsteps hcalls
    .spaced .initial).1 twoStatements).1⟩

end Operations

end Script

end PixelEffects
