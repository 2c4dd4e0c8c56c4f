import PixelEffects.Proofs.Script.Built.Host
import PixelEffects.Proofs.Script.Course

/-!
# The Counters

The counters of blocks and expressions and of calls are in balance, on every way through a script.

Both go up before something is evaluated and down after it. A counter that went up and not down would
take away from what the rest of the run may do, and one that went down below zero would be no counter
any more. What a computation comes to does not tell whether that happened in between. So a computation
has a trace: the machine at each step, and whether the step moves one of the counters.

A trace does not look into a step. Those are the steps that have nothing to do with the counters
(`Uncounted`); whatever else there is, regions and calls among it, is made of them, and a trace shows
all of it. All evaluation has a trace, because that respects every way in which computations are put
together. And whatever has a trace is in balance, by induction on the trace: a region or a call finds
the counter one higher than before, never above its limit, and leaves it so for the step that lowers it.

## Main definitions

* `Moment`: A machine and the move that is made from it.
* `Uncounted`, `Trace`: The steps that do not count, and the moments of a computation.
* `Moment.Within`, `Balanced`: The counters at one moment, and at all of them and at the end.
* `Balances`, `StaysInBounds`: A computation with moments, which are in balance or within the limits.
* `traceCongruence`: All evaluation has moments.
* `positionCourse`: To come back to where one was, as a course of evaluation.

## Theorems

* `Moment.Within.trans`: What is within bounds from a moment is so from before it.
* `Trace.balanced`: Every trace is in balance.
* `callClosure_traced`, `callClosure_returns`: Calls have moments, and come back.
* `counters_balance`: Expressions, blocks, calls and operations.
-/

namespace PixelEffects

namespace Script

variable {ν α β σ : Type}

/-- What a step does with the counters: nothing, one more block or expression or one less, one more
    call or one less. -/
inductive Move
  | stay | enter | leave | call | back
deriving Repr, DecidableEq

/-- A moment of a run: the machine, and the move that is made from it. -/
structure Moment (ν : Type) where
  machine : Machine ν
  move : Move

/-- The machine in a region that has been begun and is counted. -/
def Machine.entered (m : Machine ν) (region : Region) : Machine ν :=
  { m.note (.enter region) with nesting := (m.note (.enter region)).nesting + 1 }

/-- The machine in a call that has been begun. -/
def Machine.called (m : Machine ν) (chunk : String) (line : Nat) : Machine ν :=
  { m with depth := m.depth + 1, chunk := chunk, line := line }

/-- The steps that neither begin nor end anything that is counted. -/
inductive Uncounted : {α : Type} → Eval ν α → Prop
  | stores {α : Type} (g : StoreStep α) : Uncounted g.toEval
  | tick : Uncounted tick
  | note (e : Event) : Uncounted fun _ m => .ok () (m.note e)
  | atLine (line : Nat) : Uncounted (atLine line)
  | newClosure (definition : Function ν) (env : Env) : Uncounted (newClosure definition env)
  | closureAt (id : ClosureId) : Uncounted (closureAt id)
  | newScope (scope : Scope) : Uncounted (newScope scope)
  | onInnermost (env : Env) (f : Scope → Scope) : Uncounted (onInnermost env f)
  | builtin (b : Builtin) (args : List Value) : Uncounted (callBuiltin b args)

/-- The moments of a computation from a machine on, in a setting. -/
inductive Trace (s : Setting) : {α : Type} → Eval ν α → Machine ν → List (Moment ν) → Prop
  | step {α : Type} {x : Eval ν α} {m : Machine ν} (hx : Uncounted x) : Trace s x m [⟨m, .stay⟩]
  | stopped {α β : Type} {x : Eval ν α} {f : α → Eval ν β} {m m' : Machine ν} {e : Fault}
      {moments : List (Moment ν)} (hx : Trace s x m moments) (hrun : x s m = .error e m') :
      Trace s (x >>= f) m moments
  | bind {α β : Type} {x : Eval ν α} {f : α → Eval ν β} {m m' : Machine ν} {a : α}
      {moments later : List (Moment ν)} (hx : Trace s x m moments) (hrun : x s m = .ok a m')
      (hf : Trace s (f a) m' later) : Trace s (x >>= f) m (moments ++ later)
  | asking {α : Type} {x : Setting → Eval ν α} {m : Machine ν} {moments : List (Moment ν)}
      (hx : Trace s (x s) m moments) : Trace s (fun s' => x s' s') m moments
  | watched {α : Type} {region : Region} {x : Eval ν α} {m : Machine ν}
      {moments : List (Moment ν)} (hx : Trace s x (m.note (.enter region)) moments) :
      Trace s (watched region x) m
        (⟨m, .stay⟩ :: moments ++ [⟨machineAfter (x s (m.note (.enter region))), .stay⟩])
  | nestedFull {α : Type} {region : Region} {x : Eval ν α} {m : Machine ν}
      (hfull : m.nesting ≥ maxNesting) : Trace s (nested region x) m [⟨m, .stay⟩]
  | nested {α : Type} {region : Region} {x : Eval ν α} {m : Machine ν}
      {moments : List (Moment ν)} (hroom : ¬ m.nesting ≥ maxNesting)
      (hx : Trace s x (m.entered region) moments) :
      Trace s (nested region x) m
        (⟨m, .enter⟩ :: moments ++ [⟨machineAfter (x s (m.entered region)), .leave⟩])
  | framedFull {α : Type} {chunk : String} {line : Nat} {x : Eval ν α} {m : Machine ν}
      (hfull : m.depth ≥ s.limits.maxCallDepth) : Trace s (framed chunk line x) m [⟨m, .stay⟩]
  | framed {α : Type} {chunk : String} {line : Nat} {x : Eval ν α} {m : Machine ν}
      {moments : List (Moment ν)} (hroom : ¬ m.depth ≥ s.limits.maxCallDepth)
      (hx : Trace s x (m.called chunk line) moments) :
      Trace s (framed chunk line x) m
        (⟨m, .call⟩ :: moments ++ [⟨machineAfter (x s (m.called chunk line)), .back⟩])

/-! ## What is in balance -/

/-- At a moment of what begins in a machine, neither counter is lower than it was there, or higher than
    its limit if it was not so there. What goes down has gone up. -/
structure Moment.Within (s : Setting) (m : Machine ν) (k : Moment ν) : Prop where
  nesting_ge : m.nesting ≤ k.machine.nesting
  nesting_le : k.machine.nesting ≤ max m.nesting maxNesting
  depth_ge : m.depth ≤ k.machine.depth
  depth_le : k.machine.depth ≤ max m.depth s.limits.maxCallDepth
  leave : k.move = .leave → m.nesting < k.machine.nesting
  back : k.move = .back → m.depth < k.machine.depth

/-- What begins in a machine ends with the counters as they were there, and its moments are all within
    bounds. -/
structure Balanced (s : Setting) (x : Eval ν α) (m : Machine ν) (moments : List (Moment ν)) :
    Prop where
  nesting : (machineAfter (x s m)).nesting = m.nesting
  depth : (machineAfter (x s m)).depth = m.depth
  within : ∀ k ∈ moments, k.Within s m

namespace Moment.Within

variable {s : Setting} {m m' : Machine ν} {k : Moment ν} {move : Move}

/-- A moment with the same counters, from which neither of them goes down. -/
theorem of_eq (hnesting : m'.nesting = m.nesting) (hdepth : m'.depth = m.depth)
    (hleave : move ≠ .leave) (hback : move ≠ .back) : (⟨m', move⟩ : Moment ν).Within s m where
  nesting_ge := hnesting.ge
  nesting_le := hnesting.le.trans (le_max_left ..)
  depth_ge := hdepth.ge
  depth_le := hdepth.le.trans (le_max_left ..)
  leave h := (hleave h).elim
  back h := (hback h).elim

/-- A moment in a region that is counted and was begun where there was room for it. -/
theorem of_nested (hroom : ¬ m.nesting ≥ maxNesting) (hnesting : m'.nesting = m.nesting + 1)
    (hdepth : m'.depth = m.depth) (hback : move ≠ .back) : (⟨m', move⟩ : Moment ν).Within s m where
  nesting_ge := hnesting ▸ Nat.le_succ _
  nesting_le := hnesting ▸ (Nat.succ_le_of_lt (Nat.lt_of_not_ge hroom)).trans (le_max_right ..)
  depth_ge := hdepth.ge
  depth_le := hdepth.le.trans (le_max_left ..)
  leave _ := hnesting ▸ Nat.lt_succ_self _
  back h := (hback h).elim

/-- A moment in a call that was begun where the call depth allowed it. -/
theorem of_framed (hroom : ¬ m.depth ≥ s.limits.maxCallDepth) (hnesting : m'.nesting = m.nesting)
    (hdepth : m'.depth = m.depth + 1) (hleave : move ≠ .leave) :
    (⟨m', move⟩ : Moment ν).Within s m where
  nesting_ge := hnesting.ge
  nesting_le := hnesting.le.trans (le_max_left ..)
  depth_ge := hdepth ▸ Nat.le_succ _
  depth_le := hdepth ▸ (Nat.succ_le_of_lt (Nat.lt_of_not_ge hroom)).trans (le_max_right ..)
  leave h := (hleave h).elim
  back _ := hdepth ▸ Nat.lt_succ_self _

/-- What is within bounds from a moment that is so itself is within bounds. -/
theorem trans (hm : (⟨m', .stay⟩ : Moment ν).Within s m) (h : k.Within s m') : k.Within s m where
  nesting_ge := hm.nesting_ge.trans h.nesting_ge
  nesting_le := h.nesting_le.trans (max_le hm.nesting_le (le_max_right ..))
  depth_ge := hm.depth_ge.trans h.depth_ge
  depth_le := h.depth_le.trans (max_le hm.depth_le (le_max_right ..))
  leave hk := hm.nesting_ge.trans_lt (h.leave hk)
  back hk := hm.depth_ge.trans_lt (h.back hk)

end Moment.Within

theorem note_counts (m : Machine ν) (e : Event) :
    (m.note e).nesting = m.nesting ∧ (m.note e).depth = m.depth := by
  unfold Machine.note
  split <;> exact ⟨rfl, rfl⟩

theorem Uncounted.counts {x : Eval ν α} (hx : Uncounted x) (s : Setting) (m : Machine ν) :
    (machineAfter (x s m)).nesting = m.nesting ∧ (machineAfter (x s m)).depth = m.depth := by
  have hstores : ∀ g : StoreStep α, (machineAfter (g.toEval s m)).nesting = m.nesting ∧
      (machineAfter (g.toEval s m)).depth = m.depth := by
    intro g
    simp only [StoreStep.toEval]
    rcases g m.tables m.scopes with ⟨c | a, t, sc⟩ <;> exact ⟨rfl, rfl⟩
  cases hx with
  | stores g => exact hstores g
  | tick =>
      unfold Script.tick
      dsimp only
      split <;> exact ⟨rfl, rfl⟩
  | note e => exact note_counts m e
  | onInnermost env f => cases env <;> exact ⟨rfl, rfl⟩
  | builtin b args =>
      rw [run_callBuiltin]
      exact hstores _
  | _ => exact ⟨rfl, rfl⟩

/-! ## Regions and calls -/

theorem machineAfter_around (before after : Machine ν → Machine ν) (x : Eval ν α) (s : Setting)
    (m : Machine ν) : machineAfter (around before after x s m) =
      after (machineAfter (x s (before m))) := by
  unfold around
  cases x s (before m) <;> rfl

theorem machineAfter_watched (region : Region) (x : Eval ν α) (s : Setting) (m : Machine ν) :
    machineAfter (watched region x s m) =
      (machineAfter (x s (m.note (.enter region)))).note .leave :=
  machineAfter_around _ _ x s m

theorem machineAfter_nested {m : Machine ν} (hroom : ¬ m.nesting ≥ maxNesting) (region : Region)
    (x : Eval ν α) (s : Setting) :
    machineAfter (nested region x s m) =
      { machineAfter (x s (m.entered region)) with
        nesting := (machineAfter (x s (m.entered region))).nesting - 1 }.note .leave := by
  unfold nested
  rw [if_neg hroom, machineAfter_watched, deeper, machineAfter_around]
  rfl

/-- A region or a call that is refused leaves everything as it was. -/
theorem machineAfter_nested_of_full {m : Machine ν} (hfull : m.nesting ≥ maxNesting)
    (region : Region) (x : Eval ν α) (s : Setting) : machineAfter (nested region x s m) = m := by
  unfold nested
  rw [if_pos hfull]
  rfl

theorem machineAfter_framed_of_full {s : Setting} {m : Machine ν}
    (hfull : m.depth ≥ s.limits.maxCallDepth) (chunk : String) (line : Nat) (x : Eval ν α) :
    machineAfter (framed chunk line x s m) = m := by
  unfold framed
  rw [if_pos hfull]
  rfl

theorem machineAfter_framed {s : Setting} {m : Machine ν} (hroom : ¬ m.depth ≥ s.limits.maxCallDepth)
    (chunk : String) (line : Nat) (x : Eval ν α) :
    machineAfter (framed chunk line x s m) =
      { machineAfter (x s (m.called chunk line)) with
        depth := (machineAfter (x s (m.called chunk line))).depth - 1
        chunk := m.chunk
        line := m.line } := by
  unfold framed Machine.called
  rw [if_neg hroom]
  dsimp only
  cases x s { m with depth := m.depth + 1, chunk := chunk, line := line } <;> rfl

namespace Balanced

variable {s : Setting} {m m' : Machine ν} {moments later : List (Moment ν)}

/-- A single moment, at which nothing is counted. -/
theorem single {x : Eval ν α} (h : (machineAfter (x s m)).nesting = m.nesting ∧
    (machineAfter (x s m)).depth = m.depth) : Balanced s x m [⟨m, .stay⟩] where
  nesting := h.1
  depth := h.2
  within := List.forall_mem_singleton.mpr (.of_eq rfl rfl nofun nofun)

theorem stopped {x : Eval ν α} {f : α → Eval ν β} {e : Fault} (hx : Balanced s x m moments)
    (hrun : x s m = .error e m') : Balanced s (x >>= f) m moments := by
  have hend : machineAfter ((x >>= f) s m) = machineAfter (x s m) := by
    rw [run_bind, hrun]
    rfl
  exact ⟨hend ▸ hx.nesting, hend ▸ hx.depth, hx.within⟩

/-- What follows begins with the counters as they were at the beginning. -/
theorem bind {x : Eval ν α} {f : α → Eval ν β} {a : α} (hx : Balanced s x m moments)
    (hrun : x s m = .ok a m') (hf : Balanced s (f a) m' later) :
    Balanced s (x >>= f) m (moments ++ later) := by
  have hend : machineAfter ((x >>= f) s m) = machineAfter (f a s m') := by rw [run_bind, hrun]
  rcases hx with ⟨hnesting, hdepth, hwithin⟩
  rw [hrun] at hnesting hdepth
  -- In between the counters are as they were, so what is within bounds from there is so from here.
  have hm' : (⟨m', .stay⟩ : Moment ν).Within s m := .of_eq hnesting hdepth nofun nofun
  refine ⟨?_, ?_, fun k hk => ?_⟩
  · rw [hend, hf.nesting]
    exact hnesting
  · rw [hend, hf.depth]
    exact hdepth
  · rcases List.mem_append.mp hk with hk | hk
    · exact hwithin k hk
    · exact hm'.trans (hf.within k hk)

/-- The moments of a region or a call, with its beginning and its end. -/
theorem around {x : Eval ν α} {first last : Move} (hx : Balanced s x m' moments)
    (hfirst : (⟨m, first⟩ : Moment ν).Within s m) (hinside : (⟨m', .stay⟩ : Moment ν).Within s m)
    (hlast : (⟨machineAfter (x s m'), last⟩ : Moment ν).Within s m) :
    ∀ k ∈ ⟨m, first⟩ :: moments ++ [⟨machineAfter (x s m'), last⟩], k.Within s m := by
  intro k hk
  rcases List.mem_append.mp hk with hk | hk
  · rcases List.mem_cons.mp hk with rfl | hk
    · exact hfirst
    · exact hinside.trans (hx.within k hk)
  · rw [List.mem_singleton.mp hk]
    exact hlast

theorem watched {region : Region} {x : Eval ν α}
    (hx : Balanced s x (m.note (.enter region)) moments) :
    Balanced s (watched region x) m
      (⟨m, .stay⟩ :: moments ++ [⟨machineAfter (x s (m.note (.enter region))), .stay⟩]) := by
  rcases note_counts m (.enter region) with ⟨hn, hd⟩
  have hn' := hx.nesting.trans hn
  have hd' := hx.depth.trans hd
  refine ⟨?_, ?_, hx.around (.of_eq rfl rfl nofun nofun) (.of_eq hn hd nofun nofun)
    (.of_eq hn' hd' nofun nofun)⟩
  · rw [machineAfter_watched, (note_counts _ _).1, hn']
  · rw [machineAfter_watched, (note_counts _ _).2, hd']

/-- A region that is counted begins one further in and comes back out. -/
theorem nested {region : Region} {x : Eval ν α} (hroom : ¬ m.nesting ≥ maxNesting)
    (hx : Balanced s x (m.entered region) moments) :
    Balanced s (nested region x) m
      (⟨m, .enter⟩ :: moments ++ [⟨machineAfter (x s (m.entered region)), .leave⟩]) := by
  rcases note_counts m (.enter region) with ⟨hnote, hd⟩
  have hn : (m.entered region).nesting = m.nesting + 1 := congrArg (· + 1) hnote
  -- What is inside has come back to one further in, so there is something to be taken off.
  have hn' := hx.nesting.trans hn
  have hd' := hx.depth.trans hd
  refine ⟨?_, ?_, hx.around (.of_eq rfl rfl nofun nofun) (.of_nested hroom hn hd nofun)
    (.of_nested hroom hn' hd' nofun)⟩
  · rw [machineAfter_nested hroom, (note_counts _ _).1, hn', Nat.add_sub_cancel]
  · rw [machineAfter_nested hroom, (note_counts _ _).2]
    exact hd'

/-- So does a call. -/
theorem framed {chunk : String} {line : Nat} {x : Eval ν α}
    (hroom : ¬ m.depth ≥ s.limits.maxCallDepth) (hx : Balanced s x (m.called chunk line) moments) :
    Balanced s (framed chunk line x) m
      (⟨m, .call⟩ :: moments ++ [⟨machineAfter (x s (m.called chunk line)), .back⟩]) := by
  have hn : (machineAfter (x s (m.called chunk line))).nesting = m.nesting := hx.nesting
  have hd : (machineAfter (x s (m.called chunk line))).depth = m.depth + 1 := hx.depth
  refine ⟨?_, ?_, hx.around (.of_eq rfl rfl nofun nofun) (.of_framed hroom rfl rfl nofun)
    (.of_framed hroom hn hd nofun)⟩
  · rw [machineAfter_framed hroom]
    exact hn
  · rw [machineAfter_framed hroom, hd, Nat.add_sub_cancel]

end Balanced

/-- Whatever has moments is in balance. The induction is on the trace. -/
theorem Trace.balanced {s : Setting} {x : Eval ν α} {m : Machine ν} {moments : List (Moment ν)}
    (h : Trace s x m moments) : Balanced s x m moments := by
  induction h with
  | step hx => exact .single (hx.counts s _)
  | stopped _ hrun ih => exact ih.stopped hrun
  | bind _ hrun _ ih ihf => exact ih.bind hrun ihf
  | asking _ ih => exact ⟨ih.nesting, ih.depth, ih.within⟩
  | watched _ ih => exact ih.watched
  | nestedFull hfull =>
      refine .single ?_
      rw [machineAfter_nested_of_full hfull]
      exact ⟨rfl, rfl⟩
  | nested hroom _ ih => exact ih.nested hroom
  | framedFull hfull =>
      refine .single ?_
      rw [machineAfter_framed_of_full hfull]
      exact ⟨rfl, rfl⟩
  | framed hroom _ ih => exact ih.framed hroom

/-- A computation from a machine has moments, and whatever are its moments, it is in balance. -/
def Balances (s : Setting) (x : Eval ν α) (m : Machine ν) : Prop :=
  (∃ moments, Trace s x m moments) ∧ ∀ moments, Trace s x m moments → Balanced s x m moments

/-- At a moment the counters are within the limits, and the one that is lowered is not zero. -/
structure Moment.InBounds (s : Setting) (k : Moment ν) : Prop where
  nesting : k.machine.nesting ≤ maxNesting
  depth : k.machine.depth ≤ s.limits.maxCallDepth
  leave : k.move = .leave → 0 < k.machine.nesting
  back : k.move = .back → 0 < k.machine.depth

/-- A computation from a machine has moments, and whatever are its moments, they are within the
    limits. -/
def StaysInBounds (s : Setting) (x : Eval ν α) (m : Machine ν) : Prop :=
  (∃ moments, Trace s x m moments) ∧ ∀ moments, Trace s x m moments → ∀ k ∈ moments, k.InBounds s

/-- From a machine at which nothing is counted, the moments of what is in balance are within the
    limits. -/
theorem Balances.staysInBounds {s : Setting} {x : Eval ν α} {m : Machine ν} (h : Balances s x m)
    (hnesting : m.nesting = 0) (hdepth : m.depth = 0) : StaysInBounds s x m := by
  refine ⟨h.1, fun moments hmoments k hk => ?_⟩
  rcases (h.2 moments hmoments).within k hk with ⟨-, hn, -, hd, hleave, hback⟩
  rw [hnesting, Nat.zero_max] at hn
  rw [hdepth, Nat.zero_max] at hd
  exact ⟨hn, hd, fun hmove => hnesting ▸ hleave hmove, fun hmove => hdepth ▸ hback hmove⟩

/-! ## What has moments -/

/-- A computation has moments, from every machine and in every setting. -/
def Traced (x : Eval ν α) : Prop :=
  ∀ s m, ∃ moments, Trace s x m moments

namespace Traced

theorem step {x : Eval ν α} (hx : Uncounted x) : Traced x :=
  fun _ _ => ⟨_, .step hx⟩

theorem fault (c : Cause) : Traced (fault c : Eval ν α) :=
  step (.stores fun tables scopes => (.error c, tables, scopes))

theorem plain {x y : Eval ν α} (hx : Plain x y) : Traced x := by
  rcases hx with ⟨g, -, rfl, -⟩
  exact step (.stores g)

theorem bind {x : Eval ν α} {f : α → Eval ν β} (hx : Traced x) (hf : ∀ a, Traced (f a)) :
    Traced (x >>= f) := by
  intro s m
  rcases hx s m with ⟨moments, hmoments⟩
  cases hrun : x s m with
  | error e m' => exact ⟨moments, hmoments.stopped hrun⟩
  | ok a m' =>
      rcases hf a s m' with ⟨later, hlater⟩
      exact ⟨moments ++ later, hmoments.bind hrun hlater⟩

theorem library (b : Builtin) (args : List Value) :
    Traced (callLibrary b args : Eval ν (List Value)) := by
  have hshown : Traced (exposeAll (Library.shown b args) : Eval ν Unit) :=
    exposeAll_of (μ := ν) (R := fun x _ => Traced x) (plain (Plain.pure ())) bind
      (fun r => step (.note (.shown r))) _
  exact bind hshown fun _ => step (.builtin b args)

theorem watched {region : Region} {x : Eval ν α} (hx : Traced x) : Traced (watched region x) := by
  intro s m
  rcases hx s (m.note (.enter region)) with ⟨moments, hmoments⟩
  exact ⟨_, hmoments.watched⟩

theorem nested {region : Region} {x : Eval ν α} (hx : Traced x) : Traced (nested region x) := by
  intro s m
  by_cases hfull : m.nesting ≥ maxNesting
  · exact ⟨_, .nestedFull hfull⟩
  · rcases hx s (m.entered region) with ⟨moments, hmoments⟩
    exact ⟨_, hmoments.nested hfull⟩

theorem framed {chunk : String} {line : Nat} {x : Eval ν α} (hx : Traced x) :
    Traced (framed chunk line x) := by
  intro s m
  by_cases hfull : m.depth ≥ s.limits.maxCallDepth
  · exact ⟨_, .framedFull hfull⟩
  · rcases hx s (m.called chunk line) with ⟨moments, hmoments⟩
    exact ⟨_, hmoments.framed hfull⟩

/-- By induction on the rounds that are left. -/
theorem loop {round : σ → Eval ν (Turn σ α)} (hround : ∀ s, Traced (round s)) (fuel : Nat)
    (state : σ) : Traced (loop round fuel state) := by
  induction fuel generalizing state with
  | zero => exact fault .outOfFuel
  | succ fuel ih =>
      refine bind (hround state) fun turn => ?_
      cases turn with
      | again state => exact bind (step (.note (.progress .round))) fun _ => ih state
      | done a => exact plain (Plain.pure a)

/-- What asks for the setting has the moments of what it is in that setting. -/
theorem asking {x : Setting → Eval ν α} (hx : ∀ s, Traced (x s)) :
    Traced (fun s => x s s : Eval ν α) := by
  intro s m
  rcases hx s s m with ⟨moments, hmoments⟩
  exact ⟨moments, hmoments.asking⟩

end Traced

theorem Traced.balances {x : Eval ν α} (hx : Traced x) (s : Setting) (m : Machine ν) :
    Balances s x m :=
  ⟨hx s m, fun _ => Trace.balanced⟩

/-- What has moments ends with the counters that it begins with. -/
theorem Traced.counts {x : Eval ν α} (hx : Traced x) (s : Setting) (m : Machine ν) :
    (machineAfter (x s m)).nesting = m.nesting ∧ (machineAfter (x s m)).depth = m.depth := by
  rcases hx s m with ⟨moments, hmoments⟩
  exact ⟨hmoments.balanced.nesting, hmoments.balanced.depth⟩

/-- All evaluation has moments, if calls do. -/
def traceCongruence : UniformCongruence ν where
  Admits _ := True
  Rel _ x _ := Traced x
  RelRound _ x _ := Traced x
  mono _ h := h
  plain h := Traced.plain h
  library b args := Traced.library b args
  bind hx hf := Traced.bind hx hf
  takeStep := Traced.bind (.step .tick) fun _ => .step (.note (.progress .statement))
  atLine line := .step (.atLine line)
  nested _ hx := Traced.nested hx
  watched _ hx := Traced.watched hx
  newClosure env _ := .step (.newClosure _ env)
  newScope scope := .step (.newScope scope)
  onInnermost env f := .step (.onInnermost env f)
  closureAt id f _ hsome hnone := by
    refine Traced.bind (.step (.closureAt id)) fun c => ?_
    cases c with
    | none => exact hnone
    | some c => exact hsome c trivial
  rounds {_ _ _ round _} state hround :=
    Traced.asking (x := fun s => loop round (s.limits.maxSteps + 1) state) fun _ =>
      Traced.loop hround _ state
  roundDone a := Traced.plain (Plain.pure _)
  roundAgain state := Traced.bind (.step .tick) fun _ => Traced.plain (Plain.pure _)
  roundBind hx hf := Traced.bind hx hf

section Syntax

variable {call : Caller ν} (hcall : ∀ c args, Traced (call c args))

include hcall

theorem callValue_traced (site : Site) (f : Value) (args : List Value) :
    Traced (callValue call site f args) :=
  @UniformCongruence.callValue_rel ν traceCongruence call call (fun c args _ => hcall c args) 0 site f
    args

variable [Reference ν]

theorem Expr.results_traced (env : Env) (e : Expr ν) : Traced (e.results call env) :=
  @Expr.results_graded ν _ (traceCongruence.graded e.bodies) call call (fun c args _ => hcall c args)
    env e.slack e.height e ⟨Nat.le_refl _, Nat.le_succ _, Nat.le_refl _⟩

theorem block_traced (env : Env) (body : List (Stmt ν)) : Traced (block call env body) :=
  @block_rel ν _ traceCongruence call call (fun c args _ => hcall c args) env _ body (Nat.le_refl _)

end Syntax

section Calls

variable [Reference ν]

/-- By induction on the calls that are left. -/
theorem callClosure_traced (fuel : Nat) (c : Closure ν) (args : List Value) :
    Traced (callClosure fuel c args) := by
  induction fuel generalizing c args with
  | zero => exact Traced.fault .outOfFuel
  | succ fuel ih =>
      simp only [callClosure]
      refine Traced.bind (Traced.framed (Traced.bind (.step (.newScope _)) fun frame => ?_))
        fun flow => ?_
      · exact block_traced ih _ _
      · cases flow with
        | broken => exact Traced.fault _
        | _ => exact Traced.plain (Plain.pure _)

theorem IsCaller.traced {call : Caller ν} (h : IsCaller call) (c : Closure ν) (args : List Value) :
    Traced (call c args) := by
  cases h with
  | within =>
      exact Traced.asking (x := fun s => callClosure (s.limits.maxCallDepth + 1) c args) fun _ =>
        callClosure_traced _ c args
  | closure fuel => exact callClosure_traced fuel c args

end Calls

/-! ## Where calls come back to -/

/-- To be in the same chunk and at the same line. -/
def positionCourse : Course ν where
  Rel m m' := m'.chunk = m.chunk ∧ m'.line = m.line
  refl _ := ⟨rfl, rfl⟩
  trans h h' := ⟨h'.1.trans h.1, h'.2.trans h.2⟩
  counted _ _ _ := ⟨rfl, rfl⟩
  newTable _ _ := ⟨rfl, rfl⟩
  newClosure _ _ := ⟨rfl, rfl⟩

/-- A call comes back whatever its body does, and where it is refused it has not gone anywhere. -/
theorem framed_returns (chunk : String) (line : Nat) (x : Eval ν α) (s : Setting) :
    positionCourse.Keeps s (framed chunk line x) := by
  intro m
  by_cases hfull : m.depth ≥ s.limits.maxCallDepth
  · rw [machineAfter_framed_of_full hfull]
    exact ⟨rfl, rfl⟩
  · rw [machineAfter_framed hfull]
    exact ⟨rfl, rfl⟩

section Operations

variable [Reference ν]

theorem callClosure_returns (fuel : Nat) (c : Closure ν) (args : List Value) (s : Setting) :
    positionCourse.Keeps s (callClosure fuel c args) := by
  cases fuel with
  | zero => exact .reads (ReadsOnly.fault _)
  | succ fuel =>
      simp only [callClosure]
      refine .bind (framed_returns _ _ _ s) fun flow => ?_
      cases flow with
      | broken => exact .reads (ReadsOnly.fault _)
      | _ => exact .pure _

theorem IsCaller.returns {call : Caller ν} (h : IsCaller call) (c : Closure ν) (args : List Value)
    (s : Setting) : positionCourse.Keeps s (call c args) := by
  cases h with
  | within => exact fun m => callClosure_returns (s.limits.maxCallDepth + 1) c args s m
  | closure fuel => exact callClosure_returns fuel c args s

/-! ## Operations -/

/-- Running a chunk ends with nothing counted. -/
theorem execChunk_counts (chunk : Chunk ν) (s : Setting) (m : Machine ν) :
    (machineAfter (execChunk chunk s m)).nesting = 0 ∧
      (machineAfter (execChunk chunk s m)).depth = 0 := by
  unfold execChunk
  refine Traced.counts (Traced.bind (block_traced IsCaller.within.traced [] chunk.body) fun flow => ?_)
    s { m.restarted with chunk := chunk.name, line := 0 }
  cases flow with
  | broken => exact Traced.fault _
  | _ => exact Traced.plain (Plain.pure _)

/-- So does calling a global, if there is something to call or not. -/
theorem callGlobal_counts (name : String) (args : List Value) (s : Setting) (m : Machine ν) :
    (machineAfter (callGlobal name args s m)).nesting = 0 ∧
      (machineAfter (callGlobal name args s m)).depth = 0 := by
  unfold callGlobal
  dsimp only
  split
  · exact ⟨rfl, rfl⟩
  · exact (callValue_traced IsCaller.within.traced .none _ args).counts s m.restarted

/-- The counters are in balance, whatever is evaluated, from whatever machine and under whatever limits.

    An expression, a block and a call end with the counters that they begin with, with a result and
    with a fault. At each moment in between, the counters are no lower than that and no higher than their
    limits, unless they were so before, and no counter is lowered that was not raised. A call also
    comes back to the chunk and the line that it was made from.

    An operation begins with nothing counted and ends so, and all of its moments are within the
    limits. -/
theorem counters_balance {call : Caller ν} (hcall : IsCaller call) (s : Setting) (m : Machine ν) :
    (∀ env (e : Expr ν), Balances s (e.results call env) m ∧
      Balances s (single (e.results call env)) m) ∧
    (∀ env body, Balances s (block call env body) m) ∧
    (∀ site f args, Balances s (callValue call site f args) m) ∧
    (∀ c args, Balances s (call c args) m ∧ (machineAfter (call c args s m)).chunk = m.chunk ∧
      (machineAfter (call c args s m)).line = m.line) ∧
    (∀ chunk : Chunk ν,
      StaysInBounds s (block callWithin [] chunk.body)
        { m.restarted with chunk := chunk.name, line := 0 } ∧
      (machineAfter (execChunk chunk s m)).nesting = 0 ∧
      (machineAfter (execChunk chunk s m)).depth = 0) ∧
    ∀ name args,
      StaysInBounds s (callValue callWithin .none (m.restarted.global name) args) m.restarted ∧
      (machineAfter (callGlobal name args s m)).nesting = 0 ∧
      (machineAfter (callGlobal name args s m)).depth = 0 := by
  have hwithin : ∀ c args, Traced (callWithin c args : Eval ν (List Value)) :=
    IsCaller.within.traced
  refine ⟨fun env e => ?_, fun env body => ?_, fun site f args => ?_, fun c args => ?_,
    fun chunk => ⟨?_, execChunk_counts chunk s m⟩,
    fun name args => ⟨?_, callGlobal_counts name args s m⟩⟩
  · have hresults := Expr.results_traced hcall.traced env e
    exact ⟨hresults.balances s m,
      (Traced.nested (hresults.bind fun _ => .plain (Plain.pure _))).balances s m⟩
  · exact (block_traced hcall.traced env body).balances s m
  · exact (callValue_traced hcall.traced site f args).balances s m
  · exact ⟨(hcall.traced c args).balances s m, hcall.returns c args s m⟩
  · exact ((block_traced hwithin [] chunk.body).balances s _).staysInBounds rfl rfl
  · exact ((callValue_traced hwithin .none _ args).balances s _).staysInBounds rfl rfl

end Operations

/-- A function that calls itself until it is refused, under a call depth of three. -/
theorem counters_balance_recursive :
    let c : Closure := ⟨.mk "f" [] [.mk 2 (.call (.call (.name "f") []))] "deep" 1, []⟩
    let m : Machine := { (.initial : Machine).setGlobal "f" (.function ⟨0⟩) with
      closures := #[c]
      line := 7 }
    let r := callWithin c [] ⟨⟨100, 3⟩, .spaced⟩ m
    ((machineAfter r).nesting = 0 ∧ (machineAfter r).depth = 0 ∧ (machineAfter r).line = 7) ∧
      (match r with
        | .error ⟨_, line, .callDepth limit⟩ _ => some (limit, line)
        | _ => none) = some (3, 2) := by
  intro c m r
  have hbalance := (counters_balance .within ⟨⟨100, 3⟩, .spaced⟩ m).2.2.2.1 c []
  rcases hbalance.1.1 with ⟨moments, hmoments⟩
  have hends := hbalance.1.2 moments hmoments
  exact ⟨⟨hends.nesting, hends.depth, hbalance.2.2⟩, by decide +kernel⟩

end Script

end PixelEffects
