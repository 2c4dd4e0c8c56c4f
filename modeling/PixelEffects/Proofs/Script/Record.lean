import PixelEffects.Proofs.Script.Calls
import PixelEffects.Proofs.Script.Host

/-!
# The Record

A machine that keeps a record of its regions does the same as one that keeps none.

The record says what was being evaluated at each moment of a run, which no result of the run could
say. Engines do not keep one, and so a statement about the record of a run is one about the runs of
engines only if it makes no difference that it is kept. Nothing reads it, and so evaluation goes
with `Machine.forget`, which leaves it out.

## Main definitions

* `openRegions`: What is being evaluated after some events.
* `Machine.forget`, `Engine.forget`: No record is kept from here on.
* `Engine.recorded`: A record is kept from here on.
* `Oblivious`: A computation to which it makes no difference.
* `recordCongruence`, `recordCalls`: All evaluation is such a computation.

## Theorems

* `execChunk_oblivious`, `callGlobal_oblivious`: Operations.
* `Engine.answers_forget`: A host gets the same answers from an engine that keeps a record.
-/

namespace PixelEffects

namespace Script

variable {ν α β σ : Type}

/-- What is being evaluated after some events, of which the latest is the first: the regions that
    were begun and not ended yet, the innermost first. -/
def openRegions : List Event → List Region
  | [] => []
  | .enter region :: past => region :: openRegions past
  | .leave :: past => (openRegions past).tail
  | .progress _ :: past => openRegions past
  | .shown _ :: past => openRegions past

/-- The same machine without a record. -/
def Machine.forget (m : Machine ν) : Machine ν :=
  { m with record := none }

/-- The machine at the end of a run. -/
def machineAfter : EStateM.Result Fault (Machine ν) α → Machine ν
  | .ok _ m => m
  | .error _ m => m

/-- The same outcome with another machine at its end. -/
def endingIn (f : Machine ν → Machine ν) :
    EStateM.Result Fault (Machine ν) α → EStateM.Result Fault (Machine ν) α
  | .ok a m => .ok a (f m)
  | .error e m => .error e (f m)

/-- It makes no difference to a computation whether a record is kept. -/
def Oblivious (x : Eval ν α) : Prop :=
  ∀ s m, x s m.forget = endingIn Machine.forget (x s m)

theorem forget_note (m : Machine ν) (e : Event) : (m.note e).forget = m.forget := by
  unfold Machine.note
  split <;> rfl

namespace Oblivious

theorem bind {x : Eval ν α} {f : α → Eval ν β} (hx : Oblivious x) (hf : ∀ a, Oblivious (f a)) :
    Oblivious (x >>= f) := by
  intro s m
  rw [run_bind, run_bind, hx s m]
  cases x s m with
  | ok a m => exact hf a s m
  | error e m => rfl

-- A plain step sees the tables and the scopes, and both are the same without a record.
theorem plain {x y : Eval ν α} (hx : Plain x y) : Oblivious x := by
  rcases hx with ⟨g, -, rfl, -⟩
  intro s m
  simp only [StoreStep.toEval, Machine.forget]
  rcases g m.tables m.scopes with ⟨c | a, t, sc⟩ <;> rfl

theorem tick : Oblivious (tick : Eval ν Unit) := by
  intro s m
  unfold Script.tick
  dsimp only [Machine.forget]
  split <;> rfl

theorem noting (e : Event) : Oblivious (fun _ m => .ok () (m.note e) : Eval ν Unit) :=
  fun _ m => congrArg (EStateM.Result.ok ()) (forget_note m _).symm

theorem mark (p : Progress) : Oblivious (mark p : Eval ν Unit) :=
  noting _

theorem library (b : Builtin) (args : List Value) :
    Oblivious (callLibrary b args : Eval ν (List Value)) := by
  have hshown : Oblivious (exposeAll (Library.shown b args) : Eval ν Unit) :=
    exposeAll_of (μ := ν) (R := fun x _ => Oblivious x) (plain (Plain.pure ()))
      (fun hx hf => bind hx hf) (fun r => noting (.shown r)) _
  refine bind hshown fun _ s m => ?_
  rw [run_callBuiltin, run_callBuiltin]
  exact plain (plain_libraryStep s.address b args) s m

/-- Changes that leave the record alone, or that change it only. -/
theorem around {before after : Machine ν → Machine ν} {x : Eval ν α}
    (hbefore : ∀ m, before m.forget = (before m).forget)
    (hafter : ∀ m, after m.forget = (after m).forget) (hx : Oblivious x) :
    Oblivious (around before after x) := by
  intro s m
  unfold Script.around
  rw [hbefore, hx s (before m)]
  cases x s (before m) with
  | ok a m => exact congrArg (EStateM.Result.ok a) (hafter m)
  | error e m => exact congrArg (EStateM.Result.error e) (hafter m)

theorem watched {region : Region} {x : Eval ν α} (hx : Oblivious x) :
    Oblivious (watched region x) :=
  hx.around (fun m => (forget_note m _).symm) (fun m => (forget_note m _).symm)

theorem nested {region : Region} {x : Eval ν α} (hx : Oblivious x) :
    Oblivious (nested region x) := by
  have hdeeper : Oblivious (deeper x) := hx.around (fun _ => rfl) (fun _ => rfl)
  intro s m
  unfold Script.nested
  -- What decides is the counter, and not the record.
  by_cases h : m.nesting ≥ maxNesting
  · rw [if_pos h, if_pos (by exact h)]
    rfl
  · rw [if_neg h, if_neg (by exact h)]
    exact hdeeper.watched s m

theorem framed {chunk : String} {line : Nat} {x : Eval ν α} (hx : Oblivious x) :
    Oblivious (framed chunk line x) := by
  intro s m
  unfold Script.framed
  dsimp only
  by_cases h : m.depth ≥ s.limits.maxCallDepth
  · rw [if_pos h, if_pos (by exact h)]
    rfl
  · rw [if_neg h, if_neg (by exact h)]
    have hbody := hx s { m with depth := m.depth + 1, chunk := chunk, line := line }
    simp only [Machine.forget] at hbody ⊢
    rw [hbody]
    cases x s { m with depth := m.depth + 1, chunk := chunk, line := line } with
    | ok a m => rfl
    | error e m => rfl

theorem loop {round : σ → Eval ν (Turn σ α)} (hround : ∀ s, Oblivious (round s)) (fuel : Nat)
    (state : σ) : Oblivious (loop round fuel state) := by
  induction fuel generalizing state with
  | zero => exact fun _ _ => rfl
  | succ fuel ih =>
      refine bind (hround state) fun turn => ?_
      cases turn with
      | again state => exact bind (mark .round) fun _ => ih state
      | done a => exact plain (Plain.pure a)

end Oblivious

/-- Evaluation takes no notice of the record. -/
def recordCongruence : UniformCongruence ν where
  Admits _ := True
  Rel _ x _ := Oblivious x
  RelRound _ x _ := Oblivious x
  mono _ h := h
  plain h := Oblivious.plain h
  library b args := Oblivious.library b args
  bind hx hf := Oblivious.bind hx hf
  takeStep := Oblivious.bind Oblivious.tick fun _ => Oblivious.mark .statement
  atLine _ := fun _ _ => rfl
  nested _ hx := Oblivious.nested hx
  watched _ hx := Oblivious.watched hx
  newClosure _ _ := fun _ _ => rfl
  newScope _ := fun _ _ => rfl
  onInnermost env _ := by
    intro s m
    cases env <;> rfl
  closureAt id _ _ hsome hnone := by
    intro s m
    rw [run_closureAt_bind, run_closureAt_bind]
    have hsame : m.forget.closures[id.index]? = m.closures[id.index]? := rfl
    rw [hsame]
    cases m.closures[id.index]? with
    | none => exact hnone s m
    | some c => exact hsome c trivial s m
  rounds state hround := fun s m => Oblivious.loop hround (s.limits.maxSteps + 1) state s m
  roundDone a := Oblivious.plain (Plain.pure _)
  roundAgain state := Oblivious.bind Oblivious.tick fun _ => Oblivious.plain (Plain.pure _)
  roundBind hx hf := Oblivious.bind hx hf

/-- Calls take no notice of it either. -/
def recordCalls : CallCongruence ν where
  toUniformCongruence := recordCongruence
  admits _ := trivial
  anyRoom h := h
  cutOff := fun _ _ => rfl
  framed _ _ hx := Oblivious.framed hx
  within hx := fun s m => hx s.limits.maxCallDepth s m
  restarted hx := fun s m => hx s m.restarted
  located _ _ hx := fun s m => hx s { m with chunk := _, line := _ }
  unplaced _ := fun _ _ => rfl

namespace Engine

/-- The same engine without a record. -/
def forget (e : Engine ν) : Engine ν :=
  ⟨e.setting, e.machine.forget⟩

/-- The same engine with a record that begins now. -/
def recorded (e : Engine ν) : Engine ν :=
  ⟨e.setting, { e.machine with record := some [] }⟩

theorem run_forget {x : Eval ν α} (hx : Oblivious x) (e : Engine ν) :
    e.forget.run x = ((e.run x).1, (e.run x).2.forget) := by
  rcases e with ⟨s, m⟩
  simp only [Engine.run, forget]
  rw [hx s m]
  cases x s m <;> rfl

end Engine

section Operations

variable [Reference ν]

theorem execChunk_oblivious (chunk : Chunk ν) : Oblivious (execChunk chunk) :=
  recordCalls.execChunk_rel chunk

theorem callGlobal_oblivious (name : String) (args : List Value) :
    Oblivious (callGlobal name args : Eval ν (List Value)) :=
  recordCalls.callGlobal_rel name args

/-! ## Engines -/

namespace Engine

theorem answer_forget (e : Engine ν) (op : HostOp ν) :
    e.forget.answer op = ((e.answer op).1, (e.answer op).2.forget) := by
  cases op with
  | run chunk =>
      have h := run_forget (execChunk_oblivious chunk) e
      simp only [answer, runChunk]
      rw [h]
  | bind name v => rfl
  | call name args =>
      have h := run_forget
        (callGlobal_oblivious name (e.machine.onTables (HostValue.allToScript args)).1)
        ⟨e.setting, (e.machine.onTables (HostValue.allToScript args)).2⟩
      have hpassed : e.forget.machine.onTables (HostValue.allToScript args) =
          ((e.machine.onTables (HostValue.allToScript args)).1,
            (e.machine.onTables (HostValue.allToScript args)).2.forget) := rfl
      simp only [answer, call_eq, hpassed]
      simp only [forget] at h ⊢
      rw [h]
      rfl
  | entryPoint name => rfl

/-- A host gets the same answers whether a record is kept or not, and afterwards there is no
    difference but the record. -/
theorem answers_forget (e : Engine ν) (ops : List (HostOp ν)) :
    e.forget.answers ops = ((e.answers ops).1, (e.answers ops).2.forget) := by
  induction ops generalizing e with
  | nil => rfl
  | cons op ops ih =>
      simp only [answers]
      rw [answer_forget]
      dsimp only
      rw [ih]

end Engine

end Operations

end Script

end PixelEffects
