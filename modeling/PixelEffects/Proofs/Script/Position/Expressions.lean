import PixelEffects.Proofs.Script.Course

/-!
# Positions of Expressions

Evaluating an expression leaves the machine at its line.

Only statements move to lines, and the statements that an expression can lead to are in functions that
it calls. A call comes back to where it was, whether it ended with a result or with a fault. So a
computation *stays* if its line is the same before and after it, and to stay is a course of evaluation.
No induction over statements is needed.

## Main definitions

* `Stays`: A computation that leaves the line as it is.
* `lineCourse`: To stay, as a course of evaluation.

## Theorems

* `Stays.framed`: Calls stay, whatever is in them.
* `Expr.results_stays`, `resultsOfAll_stays`, `places_stays`: Expressions.
* `callWithin_stays`: Calls.
-/

namespace PixelEffects

namespace Script

variable {ν α β : Type}

/-- A computation that leaves the machine at the line at which it was. -/
def Stays (x : Eval ν α) : Prop :=
  ∀ s m, (machineAfter (x s m)).line = m.line

/-- To stay at a line. -/
def lineCourse : Course ν where
  Rel m m' := m'.line = m.line
  refl _ := rfl
  trans h h' := h'.trans h
  counted _ _ _ := rfl
  newTable _ _ := rfl
  newClosure _ _ := rfl

namespace Stays

-- To stay is to lead along that course, in any setting.
theorem bind {x : Eval ν α} {f : α → Eval ν β} (hx : Stays x) (hf : ∀ a, Stays (f a)) :
    Stays (x >>= f) :=
  fun s => Course.Keeps.bind (C := lineCourse) (hx s) fun a => hf a s

-- A plain step sees the tables and the scopes only.
theorem plain {x y : Eval ν α} (hx : Plain x y) : Stays x := by
  rcases hx with ⟨g, -, rfl, -⟩
  intro s m
  simp only [StoreStep.toEval]
  rcases g m.tables m.scopes with ⟨c | a, t, sc⟩ <;> rfl

theorem pure (a : α) : Stays (pure a : Eval ν α) :=
  fun _ _ => rfl

theorem fault (cause : Cause) : Stays (fault cause : Eval ν α) :=
  fun _ _ => rfl

theorem line_note (m : Machine ν) (e : Event) : (m.note e).line = m.line :=
  Course.Keeps.rel_note (C := lineCourse) m e

/-- A call comes back to its line, whatever its body does. -/
theorem framed (chunk : String) (line : Nat) (x : Eval ν α) : Stays (framed chunk line x) := by
  intro s m
  unfold Script.framed
  split
  · rfl
  · dsimp only
    cases x s { m with depth := m.depth + 1, chunk := chunk, line := line } <;> rfl

theorem tick : Stays (tick : Eval ν Unit) := by
  intro s m
  unfold Script.tick
  dsimp only
  split <;> rfl

theorem takeStep : Stays (takeStep : Eval ν Unit) :=
  tick.bind fun _ _ m => line_note m _

theorem newClosure (definition : Function ν) (env : Env) :
    Stays (newClosure definition env : Eval ν Value) :=
  fun _ _ => rfl

theorem newScope (scope : Scope) : Stays (newScope scope : Eval ν ScopeId) :=
  fun _ _ => rfl

theorem onInnermost (env : Env) (f : Scope → Scope) : Stays (onInnermost env f : Eval ν Unit) := by
  intro s m
  cases env <;> rfl

/-! ## What expressions are put together with -/

theorem single {x : Eval ν (List Value)} (hx : Stays x) : Stays (single x) :=
  fun s => Course.Keeps.single (C := lineCourse) (hx s)

theorem spread {isMulti : Bool} {x : Eval ν (List Value)} (hx : Stays x) :
    Stays (spread isMulti x) :=
  fun s => Course.Keeps.spread (C := lineCourse) (hx s)

theorem callValue {call : Caller ν} (hcall : ∀ c args, Stays (call c args)) (site : Site)
    (f : Value) (args : List Value) : Stays (callValue call site f args) :=
  fun s => Course.keepsCalls (C := lineCourse) (fun h => plain h s) (fun c args => hcall c args s)
    site f args

end Stays

section Syntax

variable [Reference ν] {call : Caller ν} (hcall : ∀ c args, Stays (call c args))

include hcall

/-- Evaluating an expression stays, if calling functions does. -/
theorem Expr.results_stays (env : Env) (e : Expr ν) : Stays (e.results call env) :=
  fun s => e.results_keeps (C := lineCourse) env fun _ site f args => Stays.callValue hcall site f args s

theorem resultsOfAll_stays (env : Env) (es : List (Expr ν)) :
    Stays (resultsOfAll call env es) :=
  fun s => resultsOfAll_keeps (C := lineCourse) env es fun _ site f args =>
    Stays.callValue hcall site f args s

theorem places_stays (env : Env) (targets : List (Expr ν)) :
    Stays (places call env targets) :=
  fun s => places_keeps (C := lineCourse) env targets fun _ site f args =>
    Stays.callValue hcall site f args s

end Syntax

/-! ## Calls -/

variable [Reference ν]

theorem callClosure_stays (fuel : Nat) (c : Closure ν) (args : List Value) :
    Stays (callClosure fuel c args) := by
  cases fuel with
  | zero => exact Stays.fault _
  | succ fuel =>
      unfold callClosure
      refine (Stays.framed _ _ _).bind fun flow => ?_
      cases flow with
      | returned vs => exact Stays.pure _
      | normal => exact Stays.pure _
      | broken => exact Stays.fault _

theorem callWithin_stays (c : Closure ν) (args : List Value) : Stays (callWithin c args) :=
  fun s m => callClosure_stays (s.limits.maxCallDepth + 1) c args s m

end Script

end PixelEffects
