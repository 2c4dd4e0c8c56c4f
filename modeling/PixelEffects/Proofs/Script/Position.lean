import PixelEffects.Proofs.Script.Host

/-!
# Positions

Where faults are said to be raised, if the statement that is under way decides it.

A machine knows one line. A statement moves to its own line when it begins, and nothing moves back
when it ends. So after the statements of a block, the machine is at the line of the last one, while
the statement that the block belongs to may still have something to do.

Here is an evaluation that does move back. The line is that of the statement that is under way, of
all that are the innermost one, at any moment. It differs from the one of the machine in nothing else:
expressions are evaluated as they are there, and so are statements that have no others in them. Only
those that have blocks, and what is put together from them, are defined anew.

There are three things that are done after other statements and before the next one. The condition
behind a `repeat` is evaluated, the step of a loop over an iterator is counted, and a host calls a
global. An *attribution* says at which position that is. It is told the line of the loop and the one
of the statement that was begun last in its body, or the position that was left behind. For this,
every statement says which one was begun last in it.

## Main definitions

* `Attribution`: The position of what is done after other statements.
* `Attribution.byStatement`: It belongs to the statement that is under way, or to none.
* `Attribution.byLast`: It belongs to what was begun last.
* `Leaving`: How a statement is left, and which one was begun last in it.
* `onLine`: Moving to a line and back.
* `Attribution.execStmt` and others: Evaluation with positions by an attribution.
* `Attribution.answers`: What an engine with such positions tells a host.
-/

namespace PixelEffects

namespace Script

/-- The position of what is done after other statements. For a loop it is a line, told from that of
    the loop and that of the statement that was begun last in its body. -/
structure Attribution where
  condition : Nat → Nat → Nat
  count : Nat → Nat → Nat
  outside : String × Nat → String × Nat

namespace Attribution

/-- It belongs to the loop that is under way, and what a host calls to nothing. -/
def byStatement : Attribution where
  condition line _ := line
  count line _ := line
  outside _ := ("", 0)

/-- It belongs to the statement that was begun last. -/
def byLast : Attribution where
  condition _ last := last
  count _ last := last
  outside position := position

end Attribution

/-- How a statement is left, and the line of the statement that was begun last in it, itself if there
    is no other. -/
structure Leaving where
  flow : Flow
  last : Nat

variable {ν α σ : Type}

/-- Move to a line, and back when there is no fault. -/
def onLine (line : Nat) (x : Eval ν α) : Eval ν α := fun s m =>
  match x s { m with line := line } with
  | .ok a m' => .ok a { m' with line := m.line }
  | .error f m' => .error f m'

/-- A block, evaluated one level further in and in a scope of its own. -/
def inBlock (env : Env) (body : Env → Eval ν Leaving) : Eval ν Leaving :=
  nested .block do
    let scope ← newScope []
    body (scope :: env)

/-- The body of a `repeat`, in a scope of its own, and the environment that it leaves behind. -/
def inOpenBlock (env : Env) (body : Env → Eval ν Leaving) : Eval ν (Leaving × Env) := do
  let scope ← newScope []
  let leaving ← watched .repeatBody (body (scope :: env))
  pure (leaving, scope :: env)

namespace Attribution

/-! ## Loops -/

/-- Go on to the next round of a loop after its body, or leave the loop. -/
def afterBody (again : Nat → Eval ν σ) (leaving : Leaving) : Eval ν (Turn σ Leaving) :=
  match leaving.flow with
  | .broken => pure (.done ⟨.normal, leaving.last⟩)
  | .returned vs => pure (.done ⟨.returned vs, leaving.last⟩)
  | .normal => do pure (.again (← again leaving.last))

/-- A loop with a condition in front. -/
def whileRounds (line : Nat) (condition : Eval ν Value) (body : Eval ν Leaving) :
    Eval ν Leaving :=
  rounds (fun () => do
    if (← condition).truthy then afterBody (fun _ => tick) (← body)
    else pure (.done ⟨.normal, line⟩)) ()

/-- A loop with a condition behind. -/
def repeatRounds (A : Attribution) (line : Nat) (body : Eval ν (Leaving × Env))
    (condition : Env → Eval ν Value) : Eval ν Leaving :=
  rounds (fun () => do
    let (leaving, env) ← body
    match leaving.flow with
    | .normal =>
      if (← onLine (A.condition line leaving.last) (condition env)).truthy then
        pure (.done ⟨.normal, leaving.last⟩)
      else
        tick
        pure (.again ())
    | .broken => pure (.done ⟨.normal, leaving.last⟩)
    | .returned vs => pure (.done ⟨.returned vs, leaving.last⟩)) ()

/-- A loop over numbers. -/
def countRounds (line : Nat) (start limit step : Float) (body : Float → Eval ν Leaving) :
    Eval ν Leaving :=
  rounds (fun i => do
    if counts step limit i then
      afterBody (fun _ => do
        tick
        pure (i + step)) (← body i)
    else pure (.done ⟨.normal, line⟩)) start

/-- A loop over what an iterator gives, until it gives `nil`. -/
def eachRounds (A : Attribution) (line : Nat) (iterate : Value → Eval ν (List Value))
    (control : Value) (body : List Value → Eval ν Leaving) : Eval ν Leaving :=
  rounds (fun control => do
    atLine line
    let vs ← iterate control
    let first := vs.headD .nil
    if first.isNil then pure (.done ⟨.normal, line⟩)
    else
      afterBody (fun last => do
        atLine (A.count line last)
        tick
        pure first) (← body vs)) control

/-! ## Statements -/

variable [Reference ν]

mutual

/-- Run a statement, on its own line and back. -/
def execStmt (A : Attribution) (call : Caller ν) (env : Env) : Stmt ν → Eval ν Leaving
  | .mk line action => onLine line do
    takeStep
    A.execAction call env line action

/-- Run statements until one of them leaves, after one on some line. -/
def execAll (A : Attribution) (call : Caller ν) (env : Env) (last : Nat) :
    List (Stmt ν) → Eval ν Leaving
  | [] => pure ⟨.normal, last⟩
  | stmt :: rest => do
    let leaving ← A.execStmt call env stmt
    match leaving.flow with
    | .normal => A.execAll call env leaving.last rest
    | _ => pure leaving

/-- Run the block of the first condition that holds. -/
def execArms (A : Attribution) (call : Caller ν) (env : Env) (line : Nat)
    (otherwise : Eval ν Leaving) : List (Arm ν) → Eval ν Leaving
  | [] => otherwise
  | .mk condition body :: arms => do
    if (← single (condition.results call env)).truthy then
      inBlock env fun inner => A.execAll call inner line body
    else A.execArms call env line otherwise arms

/-- Do what a statement on a line does. One without other statements in it does the same as ever. -/
def execAction (A : Attribution) (call : Caller ν) (env : Env) (line : Nat) :
    Action ν → Eval ν Leaving
  | .block body => inBlock env fun inner => A.execAll call inner line body
  | .branch arms none => A.execArms call env line (pure ⟨.normal, line⟩) arms
  | .branch arms (some otherwise) =>
    A.execArms call env line (inBlock env fun inner => A.execAll call inner line otherwise) arms
  | .whileLoop condition body =>
    whileRounds line (single (condition.results call env))
      (inBlock env fun inner => A.execAll call inner line body)
  | .repeatLoop body condition =>
    A.repeatRounds line
      (inOpenBlock env fun inner => A.execAll call inner line body)
      fun inner => single (condition.results call inner)
  | .countLoop counter start limit step body => do
    let start ← loopNumber .initial (← single (start.results call env))
    let limit ← loopNumber .limit (← single (limit.results call env))
    let step ← match step with
      | some e => do loopNumber .step (← single (e.results call env))
      | none => pure 1
    if step == 0 then fault .loopStepZero
    else
      countRounds line start limit step fun i => do
        let outer ← newScope [(counter, .number i)]
        inBlock (outer :: env) fun inner => A.execAll call inner line body
  | .eachLoop names exprs body => do
    let init := adjusted 3 (← resultsOfAll call env exprs)
    let f := init.headD .nil
    let state := (init.drop 1).headD .nil
    let control := (init.drop 2).headD .nil
    A.eachRounds line (fun control => callValue call .none f [state, control]) control fun vs => do
      let outer ← newScope (Scope.declareAll names vs [])
      inBlock (outer :: env) fun inner => A.execAll call inner line body
  | action => do pure ⟨← action.exec call env line, line⟩

end

/-- Run a block that belongs to something on a line. -/
def block (A : Attribution) (call : Caller ν) (env : Env) (line : Nat) (body : List (Stmt ν)) :
    Eval ν Leaving :=
  inBlock env fun inner => A.execAll call inner line body

/-! ## Calls -/

/-- Call a script function, at most `fuel` calls deep. -/
def callClosure (A : Attribution) : Nat → Caller ν
  | 0, _, _ => fault .outOfFuel
  | fuel + 1, c, args => do
    let leaving ← framed c.definition.chunk c.definition.line do
      let frame ← newScope (Scope.declareAll c.definition.params args [])
      A.block (A.callClosure fuel) (frame :: c.env) c.definition.line c.definition.body
    match leaving.flow with
    | .returned vs => pure vs
    | .normal => pure []
    | .broken => fault .breakOutside

/-- Call a script function within the call depth. -/
def callWithin (A : Attribution) : Caller ν := fun c args s m =>
  A.callClosure (s.limits.maxCallDepth + 1) c args s m

/-- Run the statements of a chunk from its beginning. A `break` that no loop has taken is at its own
    line. -/
def execChunk (A : Attribution) (chunk : Chunk ν) : Eval ν Unit := fun s m =>
  (do
    let leaving ← A.block A.callWithin [] 0 chunk.body
    atLine leaving.last
    match leaving.flow with
    | .broken => fault .breakOutside
    | _ => pure () : Eval ν Unit) s { m.restarted with chunk := chunk.name, line := 0 }

/-- Call a global function with fresh counts. -/
def callGlobal (A : Attribution) (name : String) (args : List Value) : Eval ν (List Value) :=
  fun s m =>
    let m := m.restarted
    match m.global name with
    | .nil => .error (.unplaced (.notCallable .nil (.global name))) m
    | f =>
      let position := A.outside (m.chunk, m.line)
      callValue A.callWithin .none f args s { m with chunk := position.1, line := position.2 }

/-! ## Engines -/

/-- Do what a host asks. -/
def answer (A : Attribution) (e : Engine ν) : HostOp ν → HostAnswer × Engine ν
  | .run chunk =>
    let (result, e) := e.run (A.execChunk chunk)
    (.ran result, e)
  | .call name args =>
    let (args, machine) := e.machine.onTables (HostValue.allToScript args)
    let (result, e) := Engine.run ⟨e.setting, machine⟩ (A.callGlobal name args)
    (.called (result.map fun vs => HostValue.ofScript e.machine.tables (vs.headD .nil)), e)
  | op => e.answer op

/-- Do what a host asks, one thing after the other. -/
def answers (A : Attribution) (e : Engine ν) : List (HostOp ν) → List HostAnswer × Engine ν
  | [] => ([], e)
  | op :: ops =>
    let (answer, e) := A.answer e op
    let (rest, e) := A.answers e ops
    (answer :: rest, e)

end Attribution

end Script

end PixelEffects
