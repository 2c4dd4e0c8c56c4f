import PixelEffects.Proofs.Script.Nesting
import PixelEffects.Proofs.Script.Syntax.ParsedReach

/-!
# Nesting of One Body

The limit on nesting is never reached by what a source or a function has in itself.

The parser refuses a source that is nested too deeply, and evaluation refuses to go on where too much
is under way. Both are limits on depth, but they count differently, and the second one counts over all
active calls. The question is whether a source that passes the first can fail the second by itself,
before calls have anything to do with it. It can not: what a body reaches is no more than the limit,
and a body whose counter begins at zero has all of it.

A fault does not say where it was raised. So the faults that come out of calls are marked: with the
same calls, but with another cause for those of their faults that say that there is too much nesting,
everything is as before except for these marks. If the body itself ever raised such a fault, it would
be there without a mark.

What has to be known of the machine is that the functions on it are from sources that were parsed.
Then it holds of all evaluation that it leaves the counter as it was and makes no other functions, and
that marks are all that marking changes, with as much room as the text reaches.

## Main definitions

* `marked`, `markedCalls`: A computation, and a way to call functions, with other causes for nesting.
* `execChunkBy`, `callGlobalBy`: The operations with another way to call functions.
* `Machine.Fits`: The functions of a machine reach no further than evaluation may go.
* `Marks`: Two computations of which the second one is the first with marks, given room.
* `markCongruence`: All evaluation is in this relation with itself.

## Theorems

* `callClosureBy_marks`, `callClosure_marks`: Calls.
* `Engine.answers_fit`: The functions fit throughout what a host does.
* `nesting_from_calls`: With too much nesting in calls marked, none is left in an operation.
-/

namespace PixelEffects

namespace Script

variable {ν α β σ : Type}

/-! ## Marks -/

/-- A fault, with another cause if it says that there is too much nesting. -/
def Fault.marked (cause : Cause) (f : Fault) : Fault :=
  match f.cause with
  | .nesting _ => { f with cause := cause }
  | _ => f

/-- A computation with another cause for too much nesting. -/
def marked (cause : Cause) (x : Eval ν α) : Eval ν α := fun s m =>
  match x s m with
  | .ok a m => .ok a m
  | .error f m => .error (f.marked cause) m

/-- Calling functions, with another cause for too much nesting in the calls. -/
def markedCalls (cause : Cause) (call : Caller ν) : Caller ν := fun c args =>
  marked cause (call c args)

theorem Fault.marked_of_boundless {cause c : Cause} (h : c.isBound = false) (chunk : String)
    (line : Nat) : Fault.marked cause ⟨chunk, line, c⟩ = ⟨chunk, line, c⟩ := by
  cases c with
  | nesting limit => cases h
  | _ => rfl

/-- No fault with a mark says that there is too much nesting, unless that is what the mark says. -/
theorem Fault.marked_cause {cause : Cause} {limit : Nat} (hcause : cause ≠ .nesting limit)
    (f : Fault) : (f.marked cause).cause ≠ .nesting limit := by
  unfold Fault.marked
  split
  · exact hcause
  · next hnesting => exact hnesting limit

theorem marked_bind (cause : Cause) (x : Eval ν α) (f : α → Eval ν β) (s : Setting)
    (m : Machine ν) :
    marked cause (x >>= f) s m = (marked cause x >>= fun a => marked cause (f a)) s m := by
  rw [run_bind]
  unfold marked
  rw [run_bind]
  cases x s m <;> rfl

theorem marked_around (cause : Cause) (before after : Machine ν → Machine ν) (x : Eval ν α) :
    marked cause (around before after x) = around before after (marked cause x) := by
  funext s m
  unfold marked around
  dsimp only
  cases x s (before m) <;> rfl

/-! ## Other ways to call -/

/-- Call a script function, and the functions that it calls in a given way. -/
def callClosureBy [Reference ν] (call : Caller ν) : Caller ν := fun c args => do
  let flow ← framed c.definition.chunk c.definition.line do
    let frame ← newScope (Scope.declareAll c.definition.params args [])
    block call (frame :: c.env) c.definition.body
  match flow with
  | .returned vs => pure vs
  | .normal => pure []
  | .broken => fault .breakOutside

/-- Call a script function within the call depth, with something changed about the calls in it. -/
def callWithinBy [Reference ν] (change : Caller ν → Caller ν) : Caller ν := fun c args s m =>
  callClosureBy (change (callClosure s.limits.maxCallDepth)) c args s m

/-- Run the statements of a chunk, and call functions in a given way. -/
def execChunkBy [Reference ν] (call : Caller ν) (chunk : Chunk ν) : Eval ν Unit := fun s m =>
  (do
    match ← block call [] chunk.body with
    | .broken => fault .breakOutside
    | _ => pure () : Eval ν Unit) s { m.restarted with chunk := chunk.name, line := 0 }

/-- Call a global function in a given way. -/
def callGlobalBy [Reference ν] (call : Caller ν) (name : String) (args : List Value) :
    Eval ν (List Value) := fun s m =>
  let m := m.restarted
  match m.global name with
  | .nil => .error (.unplaced (.notCallable .nil (.global name))) m
  | f => callValue call .none f args s m

theorem callClosure_succ [Reference ν] (fuel : Nat) (c : Closure ν) (args : List Value) :
    callClosure (fuel + 1) c args = callClosureBy (callClosure fuel) c args :=
  callClosure.eq_2 c args fuel

/-! ## Evaluation with marks -/

/-- The functions of a machine reach no further than evaluation may go, nor do those in them. -/
def Machine.Fits (m : Machine ν) : Prop :=
  ∀ c ∈ m.closures, c.definition.bodies ≤ maxNesting

/-- The second computation is the first one with marks, on machines that have room for `k` more
    counted regions. On all machines the first one leaves the counter as it was, and makes no functions
    but such that fit. -/
def Marks (cause : Cause) (k : Nat) (x y : Eval ν α) : Prop :=
  ∀ s m, m.Fits →
    ((machineAfter (x s m)).nesting = m.nesting ∧ (machineAfter (x s m)).Fits) ∧
    (m.nesting + k ≤ maxNesting → y s m = marked cause x s m)

namespace Marks

variable {cause : Cause} {k : Nat}

/-- A computation that calls nothing and that has no marks. -/
theorem unaffected {x : Eval ν α} (hsame : ∀ s m, (machineAfter (x s m)).nesting = m.nesting ∧
    (machineAfter (x s m)).closures = m.closures) (hmarked : ∀ s m, marked cause x s m = x s m) :
    Marks cause k x x := by
  intro s m h
  rcases hsame s m with ⟨hnesting, hclosures⟩
  refine ⟨⟨hnesting, fun c hc => ?_⟩, fun _ => (hmarked s m).symm⟩
  rw [hclosures] at hc
  exact h c hc

theorem mono {k' : Nat} {x y : Eval ν α} (hk : k ≤ k') (h : Marks cause k x y) :
    Marks cause k' x y := by
  intro s m hm
  exact ⟨(h s m hm).1, fun hroom => (h s m hm).2 (by omega)⟩

theorem bind {x y : Eval ν α} {f g : α → Eval ν β} (hx : Marks cause k x y)
    (hf : ∀ a, Marks cause k (f a) (g a)) : Marks cause k (x >>= f) (y >>= g) := by
  intro s m h
  rcases hx s m h with ⟨⟨hnesting, hfits⟩, hmarked⟩
  rw [marked_bind, run_bind, run_bind, run_bind]
  unfold marked at hmarked ⊢
  cases hr : x s m with
  | error e m' =>
      rw [hr] at hnesting hfits hmarked
      refine ⟨⟨hnesting, hfits⟩, fun hroom => ?_⟩
      rw [hmarked hroom]
  | ok a m' =>
      rw [hr] at hnesting hfits hmarked
      simp only [machineAfter] at hnesting
      rcases hf a s m' hfits with ⟨⟨hnesting', hfits'⟩, hmarked'⟩
      refine ⟨⟨hnesting'.trans hnesting, hfits'⟩, fun hroom => ?_⟩
      rw [hmarked hroom]
      -- The counter is where it was, so the second computation has the same room.
      exact hmarked' (by omega)

theorem plain {x y : Eval ν α} (h : Plain x y) : Marks cause k x y := by
  rcases h with ⟨g, hg, rfl, rfl⟩
  refine unaffected (fun s m => ?_) fun s m => ?_
  · simp only [StoreStep.toEval]
    rcases g m.tables m.scopes with ⟨c | a, t, sc⟩ <;> exact ⟨rfl, rfl⟩
  · have hcause := hg.boundless m.tables m.scopes
    simp only [marked, StoreStep.toEval]
    rcases hg' : g m.tables m.scopes with ⟨c | a, t, sc⟩
    · have hc : c.isBound = false := hcause c (by rw [hg'])
      simp only [Fault.marked_of_boundless hc]
    · rfl

theorem tick : Marks cause k (tick : Eval ν Unit) tick := by
  refine unaffected (fun s m => ?_) fun s m => ?_
  · unfold Script.tick
    dsimp only
    split <;> exact ⟨rfl, rfl⟩
  · by_cases h : m.steps + 1 > s.limits.maxSteps
    · simp only [marked, Script.tick, if_pos h]
      rfl
    · simp only [marked, Script.tick, if_neg h]

theorem noting (e : Event) :
    Marks cause k (fun _ m => .ok () (m.note e) : Eval ν Unit) fun _ m => .ok () (m.note e) := by
  refine unaffected (fun s m => ?_) fun _ _ => rfl
  simp only [machineAfter, Machine.note]
  split <;> exact ⟨rfl, rfl⟩

/-- What changes the machine only at its beginning and its end, and moves the counter up and down by
    the same. -/
theorem around {d : Nat} (before after : Machine ν → Machine ν)
    (hbefore : ∀ m, (before m).nesting = m.nesting + d ∧ (before m).closures = m.closures)
    (hafter : ∀ m, (after m).nesting = m.nesting - d ∧ (after m).closures = m.closures)
    {x y : Eval ν α} (h : Marks cause k x y) :
    Marks cause (k + d) (around before after x) (around before after y) := by
  intro s m hm
  have hfits : (before m).Fits := fun c hc => hm c ((hbefore m).2 ▸ hc)
  rcases h s (before m) hfits with ⟨⟨hnesting, hfits'⟩, hmarked⟩
  -- Coming back, the change at the end undoes the one at the beginning.
  have hback : (machineAfter (Script.around before after x s m)) =
      after (machineAfter (x s (before m))) := by
    unfold Script.around
    cases x s (before m) <;> rfl
  refine ⟨⟨?_, fun c hc => ?_⟩, fun hroom => ?_⟩
  · rw [hback, (hafter _).1, hnesting, (hbefore m).1, Nat.add_sub_cancel]
  · rw [hback, (hafter _).2] at hc
    exact hfits' c hc
  · have hinner : y s (before m) = marked cause x s (before m) := by
      refine hmarked ?_
      rw [(hbefore m).1]
      omega
    rw [marked_around]
    unfold Script.around
    rw [hinner]

theorem note_counters (m : Machine ν) (e : Event) :
    (m.note e).nesting = m.nesting ∧ (m.note e).closures = m.closures := by
  unfold Machine.note
  split <;> exact ⟨rfl, rfl⟩

theorem watched (region : Region) {x y : Eval ν α} (h : Marks cause k x y) :
    Marks cause k (watched region x) (watched region y) :=
  around (d := 0) (·.note (.enter region)) (·.note .leave) (fun m => note_counters m _)
    (fun m => note_counters m _) h

theorem nested (region : Region) {x y : Eval ν α} (h : Marks cause k x y) :
    Marks cause (k + 1) (nested region x) (nested region y) := by
  have hdeeper : Marks cause (k + 1) (deeper x) (deeper y) :=
    around (fun m => { m with nesting := m.nesting + 1 })
      (fun m => { m with nesting := m.nesting - 1 }) (fun _ => ⟨rfl, rfl⟩) (fun _ => ⟨rfl, rfl⟩) h
  intro s m hm
  by_cases hfull : m.nesting ≥ maxNesting
  · -- Without room it does not matter what the second computation does.
    simp only [Script.nested, if_pos hfull]
    exact ⟨⟨rfl, hm⟩, fun hroom => by omega⟩
  · simp only [Script.nested, marked, if_neg hfull]
    exact hdeeper.watched region s m hm

/-- A frame is around its body like anything else that leaves the counter alone. -/
theorem framed (chunk : String) (line : Nat) {x y : Eval ν α} (h : Marks cause k x y) :
    Marks cause k (framed chunk line x) (framed chunk line y) := by
  intro s m hm
  by_cases hfull : m.depth ≥ s.limits.maxCallDepth
  · simp only [Script.framed, marked, if_pos hfull]
    exact ⟨⟨rfl, hm⟩, fun _ => rfl⟩
  · -- Within the call depth, a frame is a change at the beginning and one at the end.
    let enter (m : Machine ν) : Machine ν :=
      { m with depth := m.depth + 1, chunk := chunk, line := line }
    let leave (m' : Machine ν) : Machine ν :=
      { m' with depth := m'.depth - 1, chunk := m.chunk, line := m.line }
    have hframe : ∀ z : Eval ν α, Script.framed chunk line z s m =
        Script.around enter leave z s m := fun z => by
      simp only [Script.framed, if_neg hfull]
      rfl
    have haround := around (d := 0) enter leave (fun _ => ⟨rfl, rfl⟩) (fun _ => ⟨rfl, rfl⟩) h s m hm
    unfold marked at haround ⊢
    rw [hframe, hframe]
    exact haround

theorem library (b : Builtin) (args : List Value) :
    Marks cause k (callLibrary b args : Eval ν (List Value)) (callLibrary b args) := by
  have hshown : Marks cause k (exposeAll (Library.shown b args) : Eval ν Unit)
      (exposeAll (Library.shown b args)) :=
    exposeAll_of (plain (Plain.pure ())) (fun hx hf => bind hx hf) (fun r => noting (.shown r)) _
  refine bind hshown fun _ s m => ?_
  have hstep : Marks cause k ((libraryStep s.address b args).toEval : Eval ν (List Value)) _ :=
    plain (plain_libraryStep s.address b args)
  replace hstep := hstep s m
  unfold marked at hstep ⊢
  rw [run_callBuiltin]
  exact hstep

theorem newClosure {definition : Function ν} (env : Env) (h : definition.bodies ≤ maxNesting) :
    Marks cause k (newClosure definition env) (newClosure definition env) := by
  intro s m hm
  refine ⟨⟨rfl, fun c hc => ?_⟩, fun _ => rfl⟩
  rcases Array.mem_push.mp hc with hc | rfl
  · exact hm c hc
  · exact h

theorem loop {round round' : σ → Eval ν (Turn σ α)} (hround : ∀ s, Marks cause k (round s) (round' s))
    (fuel : Nat) (state : σ) : Marks cause k (loop round fuel state) (loop round' fuel state) := by
  induction fuel generalizing state with
  | zero => exact unaffected (fun _ _ => ⟨rfl, rfl⟩) fun _ _ => rfl
  | succ fuel ih =>
      refine bind (hround state) fun turn => ?_
      cases turn with
      | again state => exact bind (noting _) fun _ => ih state
      | done a => exact plain (Plain.pure a)

end Marks

/-- With calls that are marked, all evaluation is marked, given room for what the text reaches. -/
def markCongruence (cause : Cause) : UniformGraded ν where
  Rel _ k x y := Marks cause k x y
  RelRound _ k x y := Marks cause k x y
  bodies := maxNesting
  Admits c := c.definition.bodies ≤ maxNesting
  mono _ hk h := h.mono hk
  plain h := Marks.plain h
  library b args := Marks.library b args
  bind hx hf := Marks.bind hx hf
  takeStep := Marks.bind Marks.tick fun _ => Marks.noting _
  atLine _ := Marks.unaffected (fun _ _ => ⟨rfl, rfl⟩) fun _ _ => rfl
  nested _ h := h.nested _
  watched _ h := h.watched _
  newScope _ := Marks.unaffected (fun _ _ => ⟨rfl, rfl⟩) fun _ _ => rfl
  onInnermost env _ := by
    cases env <;> exact Marks.unaffected (fun _ _ => ⟨rfl, rfl⟩) fun _ _ => rfl
  newClosure env h := Marks.newClosure env h.2
  closureAt := by
    intro _ n k id f g hsome hnone s m hm
    unfold marked
    rw [run_closureAt_bind, run_closureAt_bind]
    -- The function that is found is one that the machine has.
    cases hc : m.closures[id.index]? with
    | none => exact hnone s m hm
    | some c => exact hsome c (hm c (Array.mem_of_getElem? hc)) s m hm
  rounds state hround := fun s m => Marks.loop hround (s.limits.maxSteps + 1) state s m
  roundDone _ := Marks.plain (Plain.pure _)
  roundAgain _ := Marks.bind Marks.tick fun _ => Marks.plain (Plain.pure _)
  roundBind hx hf := Marks.bind hx hf

section Calls

variable [Reference ν] (cause : Cause)

/-- A block is marked when the calls in it are, with room for what it reaches. -/
theorem block_marks {call call' : Caller ν}
    (hcall : ∀ c args, c.definition.bodies ≤ maxNesting → Marks cause 0 (call c args) (call' c args))
    (env : Env) (body : List (Stmt ν)) (hbodies : bodiesOfBlock body ≤ maxNesting) :
    Marks cause (reachOfBlock body + 1) (block call env body) (block call' env body) :=
  block_graded (markCongruence cause) (n := slackOfBlock body) hcall env body
    ⟨Nat.le_refl _, Nat.le_refl _, hbodies⟩

/-- A function is marked when the calls in it are, with room for all that fits. -/
theorem callClosureBy_marks {call call' : Caller ν}
    (hcall : ∀ c args, c.definition.bodies ≤ maxNesting → Marks cause 0 (call c args) (call' c args))
    (c : Closure ν) (args : List Value) (hc : c.definition.bodies ≤ maxNesting) :
    Marks cause maxNesting (callClosureBy call c args) (callClosureBy call' c args) := by
  rcases c with ⟨⟨name, params, body, chunk, line⟩, env⟩
  simp only [Function.bodies] at hc
  have hblock : ∀ frame, Marks cause maxNesting (block call (frame :: env) body)
      (block call' (frame :: env) body) := fun frame =>
    (block_marks cause hcall (frame :: env) body (by omega)).mono (by omega)
  refine Marks.bind (Marks.framed chunk line (Marks.bind ?_ hblock)) fun flow => ?_
  · exact Marks.unaffected (fun _ _ => ⟨rfl, rfl⟩) fun _ _ => rfl
  · cases flow with
    | broken => exact Marks.plain (Plain.fault rfl)
    | _ => exact Marks.plain (Plain.pure _)

/-- A call needs no room to be marked as a whole. The induction is on how deep calls may go. -/
theorem callClosure_marks (fuel : Nat) (c : Closure ν) (args : List Value)
    (hc : c.definition.bodies ≤ maxNesting) :
    Marks cause 0 (callClosure fuel c args) (markedCalls cause (callClosure fuel) c args) := by
  induction fuel generalizing c args with
  | zero => exact fun s m hm => ⟨⟨rfl, hm⟩, fun _ => rfl⟩
  | succ fuel ih =>
      -- That the counter comes back needs no room, so the calls in the body may be marked.
      intro s m hm
      refine ⟨?_, fun _ => rfl⟩
      rw [callClosure_succ]
      exact (callClosureBy_marks cause ih c args hc s m hm).1

theorem callWithin_marks (c : Closure ν) (args : List Value)
    (hc : c.definition.bodies ≤ maxNesting) :
    Marks cause 0 (callWithin c args) (markedCalls cause callWithin c args) := by
  intro s m
  have hcall := callClosure_marks cause (s.limits.maxCallDepth + 1) c args hc s m
  simpa only [callWithin, markedCalls, marked] using hcall

/-- An entry function and the calls in it. -/
theorem callWithinBy_marks (c : Closure ν) (args : List Value)
    (hc : c.definition.bodies ≤ maxNesting) :
    Marks cause maxNesting (callWithin c args) (callWithinBy (markedCalls cause) c args) := by
  intro s m
  have hentry := callClosureBy_marks cause (callClosure_marks cause s.limits.maxCallDepth)
    c args hc s m
  simpa only [callWithin, callWithinBy, marked, callClosure_succ] using hentry

/-- The value that an operation calls. -/
theorem callValue_marks (f : Value) (args : List Value) :
    Marks cause maxNesting (callValue callWithin .none f args : Eval ν (List Value))
      (callValue (callWithinBy (markedCalls cause)) .none f args) := by
  cases f with
  | builtin b => exact Marks.library b args
  | function id =>
      refine (markCongruence cause).closureAt (n := 0) id (fun c hc => ?_) (Marks.plain (Plain.fault rfl))
      exact callWithinBy_marks cause c args hc
  | _ => exact Marks.plain (Plain.fault rfl)

/-! ## Operations -/

/-- A chunk that fits is marked when the calls in it are. It begins with a counter at zero. -/
theorem execChunk_marks {chunk : Chunk ν} (hreach : reachOfBlock chunk.body + 1 ≤ maxNesting)
    (hbodies : bodiesOfBlock chunk.body ≤ maxNesting) (s : Setting) {m : Machine ν} (h : m.Fits) :
    (machineAfter (execChunk chunk s m)).Fits ∧
      execChunkBy (markedCalls cause callWithin) chunk s m = marked cause (execChunk chunk) s m := by
  have hblock := (block_marks cause (callWithin_marks cause) [] chunk.body hbodies).mono hreach
  have hrun := hblock.bind (f := fun flow => match flow with
    | .broken => fault .breakOutside
    | _ => pure ()) (g := fun flow => match flow with
    | .broken => fault .breakOutside
    | _ => pure ()) (fun flow => by
      cases flow with
      | broken => exact Marks.plain (Plain.fault rfl)
      | _ => exact Marks.plain (Plain.pure _))
  rcases hrun s { m.restarted with chunk := chunk.name, line := 0 } h with ⟨⟨_, hfits⟩, hmarked⟩
  exact ⟨hfits, hmarked (Nat.le_of_eq (Nat.zero_add maxNesting))⟩

/-- A call by a host is marked when the calls in the entry function are. -/
theorem callGlobal_marks (name : String) (args : List Value) (s : Setting) {m : Machine ν}
    (h : m.Fits) :
    (machineAfter (callGlobal name args s m)).Fits ∧
      callGlobalBy (callWithinBy (markedCalls cause)) name args s m =
        marked cause (callGlobal name args) s m := by
  have hcall : ∀ f, (machineAfter (callValue callWithin .none f args s m.restarted)).Fits ∧
      callValue (callWithinBy (markedCalls cause)) .none f args s m.restarted =
        marked cause (callValue callWithin .none f args) s m.restarted := by
    intro f
    rcases callValue_marks cause f args s m.restarted h with ⟨⟨_, hfits⟩, hmarked⟩
    exact ⟨hfits, hmarked (Nat.le_of_eq (Nat.zero_add maxNesting))⟩
  unfold marked at hcall ⊢
  simp only [callGlobal, callGlobalBy]
  -- What is called is a value like another one, unless there is nothing to call.
  cases m.restarted.global name with
  | nil => exact ⟨h, rfl⟩
  | _ => exact hcall _

theorem Engine.answer_fits (e : Engine ν) (op : HostOp ν) (h : e.machine.Fits)
    (hop : ∀ chunk, op = .run chunk →
      reachOfBlock chunk.body + 1 ≤ maxNesting ∧ bodiesOfBlock chunk.body ≤ maxNesting) :
    (e.answer op).2.machine.Fits := by
  cases op with
  | run chunk =>
      rcases hop chunk rfl with ⟨hreach, hbodies⟩
      simp only [answer, runChunk, run_machine]
      exact (execChunk_marks .outOfFuel hreach hbodies e.setting h).1
  | bind name v => exact h
  | call name args =>
      have hpassed : (e.machine.onTables (HostValue.allToScript args)).2.Fits := h
      simp only [answer, call_eq, run_machine]
      exact (callGlobal_marks .outOfFuel name _ e.setting hpassed).1
  | entryPoint name => exact h

/-- Throughout everything that a host does, the functions that there are fit. The induction is on the
    operations. -/
theorem Engine.answers_fit (e : Engine ν) (ops : List (HostOp ν)) (h : e.machine.Fits)
    (hops : ∀ chunk, .run chunk ∈ ops →
      reachOfBlock chunk.body + 1 ≤ maxNesting ∧ bodiesOfBlock chunk.body ≤ maxNesting) :
    (e.answers ops).2.machine.Fits := by
  induction ops generalizing e with
  | nil => exact h
  | cons op ops ih =>
      simp only [answers]
      refine ih _ (answer_fits e op h fun chunk hop => ?_) fun chunk hchunk => ?_
      · exact hops chunk (hop ▸ List.mem_cons_self)
      · exact hops chunk (List.mem_cons_of_mem _ hchunk)

end Calls

/-! ## Engines -/

namespace Engine

/-- Run a parsed chunk, with marks on the nesting faults that come out of calls. -/
def runChunkMarked (e : Engine) (cause : Cause) (chunk : Chunk) : Except Fault Unit × Engine :=
  e.run (execChunkBy (markedCalls cause callWithin) chunk)

/-- Call a global function with host values, with marks on the nesting faults that come out of the
    calls that the function makes. -/
def callMarked (e : Engine) (cause : Cause) (name : String) (args : List HostValue) :
    Except Fault HostValue × Engine :=
  let passed := e.machine.onTables (HostValue.allToScript args)
  let r := Engine.run ⟨e.setting, passed.2⟩
    (callGlobalBy (callWithinBy (markedCalls cause)) name passed.1)
  (r.1.map fun vs => HostValue.ofScript r.2.machine.tables (vs.headD .nil), r.2)

/-- To mark the faults of a run is to mark the fault that it ends with. -/
theorem run_marked (e : Engine ν) (cause : Cause) (x : Eval ν α) :
    e.run (marked cause x) = ((e.run x).1.mapError (Fault.marked cause), (e.run x).2) := by
  simp only [Engine.run, marked]
  cases x e.setting e.machine <;> rfl

theorem runChunkMarked_eq {e : Engine} (h : e.machine.Fits) (cause : Cause) {chunk : Chunk}
    (hreach : reachOfBlock chunk.body + 1 ≤ maxNesting)
    (hbodies : bodiesOfBlock chunk.body ≤ maxNesting) :
    e.runChunkMarked cause chunk =
      ((e.runChunk chunk).1.mapError (Fault.marked cause), (e.runChunk chunk).2) := by
  have hmarked := (execChunk_marks cause hreach hbodies e.setting h).2
  rw [runChunk, ← run_marked, runChunkMarked]
  simp only [Engine.run, hmarked]

theorem callMarked_eq {e : Engine} (h : e.machine.Fits) (cause : Cause) (name : String)
    (args : List HostValue) :
    e.callMarked cause name args =
      ((e.call name args).1.mapError (Fault.marked cause), (e.call name args).2) := by
  have hpassed : (e.machine.onTables (HostValue.allToScript args)).2.Fits := h
  have hmarked := (callGlobal_marks cause name
    (e.machine.onTables (HostValue.allToScript args)).1 e.setting hpassed).2
  have hrun := run_marked ⟨e.setting, (e.machine.onTables (HostValue.allToScript args)).2⟩ cause
    (callGlobal name (e.machine.onTables (HostValue.allToScript args)).1)
  rw [call_eq, callMarked]
  simp only [Engine.run, hmarked] at hrun ⊢
  rw [hrun]
  cases callGlobal name (e.machine.onTables (HostValue.allToScript args)).1 e.setting
    (e.machine.onTables (HostValue.allToScript args)).2 <;> rfl

end Engine

/-- With a mark on it, no fault says any more that there is too much nesting. -/
theorem marked_result {cause : Cause} {limit : Nat} (hcause : cause ≠ .nesting limit)
    {r : Except Fault α} {f : Fault} (h : r.mapError (Fault.marked cause) = .error f) :
    f.cause ≠ .nesting limit := by
  cases r with
  | ok a => cases h
  | error f' =>
      cases h
      exact Fault.marked_cause hcause f'

/-- No source that is accepted is refused at run time for how deeply it is nested itself.

    On an engine with which a host has done anything with such sources, any other one can be run and any
    global called with marks on the faults of calls that say there is too much nesting: calls of script
    functions, when a source is run, and calls that are made in turn, when a function is called. The
    marks are then all that is different, at the fault that the operation ends with if it ends with such
    a fault. So every one of these faults came out of a call, and with the calls marked there is none. -/
theorem nesting_from_calls (setting : Setting) (ops : List HostOp)
    (hops : ∀ chunk, .run chunk ∈ ops → ∃ name source, parseChunk name source = .ok chunk)
    (cause : Cause) :
    let e := ((Engine.new setting).answers ops).2
    (∀ chunk, (∃ name source, parseChunk name source = .ok chunk) →
      e.runChunkMarked cause chunk =
          ((e.runChunk chunk).1.mapError (Fault.marked cause), (e.runChunk chunk).2) ∧
        ∀ limit f, cause ≠ .nesting limit → (e.runChunkMarked cause chunk).1 = .error f →
          f.cause ≠ .nesting limit) ∧
    (∀ name args,
      e.callMarked cause name args =
          ((e.call name args).1.mapError (Fault.marked cause), (e.call name args).2) ∧
        ∀ limit f, cause ≠ .nesting limit → (e.callMarked cause name args).1 = .error f →
          f.cause ≠ .nesting limit) := by
  intro e
  have hfits : e.machine.Fits := by
    refine Engine.answers_fit _ ops (fun c hc => ?_) fun chunk hchunk => ?_
    · cases Array.not_mem_empty c hc
    · rcases hops chunk hchunk with ⟨name, source, hparse⟩
      exact parseChunk_reach hparse
  refine ⟨fun chunk hchunk => ?_, fun name args => ?_⟩
  · rcases hchunk with ⟨name, source, hparse⟩
    rcases parseChunk_reach hparse with ⟨hreach, hbodies⟩
    have heq := Engine.runChunkMarked_eq hfits cause hreach hbodies
    refine ⟨heq, fun limit f hcause hrun => ?_⟩
    rw [heq] at hrun
    exact marked_result hcause hrun
  · have heq := Engine.callMarked_eq hfits cause name args
    refine ⟨heq, fun limit f hcause hrun => ?_⟩
    rw [heq] at hrun
    exact marked_result hcause hrun

/-- A source with a function that calls itself inside of an expression, so that there is too much
    nesting when a host calls it. -/
theorem nesting_from_calls_recursive :
    ∃ chunk, parseChunk "t.lua" "function f() return -f() end" = .ok chunk ∧
      let e := ((Engine.new ⟨⟨10000, 200⟩, .spaced⟩).answers [.run chunk]).2
      e.callMarked .breakOutside "f" [] =
          ((e.call "f" []).1.mapError (Fault.marked .breakOutside), (e.call "f" []).2) ∧
        ∀ f, (e.callMarked .breakOutside "f" []).1 = .error f → f.cause ≠ .nesting maxNesting := by
  have haccepted : (parseChunk "t.lua" "function f() return -f() end").toOption.isSome = true := by
    decide +kernel
  -- The tree is not written out, only that there is one.
  cases hparse : parseChunk "t.lua" "function f() return -f() end" with
  | error e =>
      rw [hparse] at haccepted
      cases haccepted
  | ok chunk =>
      refine ⟨chunk, rfl, ?_⟩
      have hops : ∀ c : Chunk, .run c ∈ [HostOp.run chunk] →
          ∃ name source, parseChunk name source = .ok c := by
        intro c hc
        cases List.mem_singleton.mp hc
        exact ⟨_, _, hparse⟩
      have hcalls := (nesting_from_calls ⟨⟨10000, 200⟩, .spaced⟩ [.run chunk] hops .breakOutside).2
      rcases hcalls "f" [] with ⟨heq, hnone⟩
      exact ⟨heq, fun f => hnone maxNesting f (by intro h; cases h)⟩

end Script

end PixelEffects
