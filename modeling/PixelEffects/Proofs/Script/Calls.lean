import PixelEffects.Proofs.Script.Congruence
import PixelEffects.Script.Engine

/-!
# Congruence of Calls

The induction over the syntax leaves open how functions are called. Here they are called as they
are, so that nothing is left open, and operations are evaluated from their beginning.

A call is evaluated as deep as the limits allow, and the induction is on that. A relation that frames
respect, and that a call which is cut off is in as well, goes through it in the same way whatever it
says. That leaves out what depends on how deep a call is: statements about limits and counters take
an induction of their own.

## Main definitions

* `unplacedFault`: How an operation fails that finds nothing to call.
* `CallCongruence`: A congruence that calls and the beginnings of operations respect.

## Theorems

* `CallCongruence.callWithin_rel`: Calling a script function.
* `CallCongruence.execChunk_rel`, `CallCongruence.callGlobal_rel`: Operations.
-/

namespace PixelEffects

namespace Script

/-- Stop with a fault that has no place in a source. -/
def unplacedFault {ν α : Type} (cause : Cause) : Eval ν α := fun _ m =>
  .error (.unplaced cause) m

/-- A congruence for all functions and for any amount of room, that is also respected by what calls
    and operations begin with. -/
structure CallCongruence (ν : Type) extends UniformCongruence ν where
  admits : ∀ c, Admits c
  anyRoom : ∀ {α : Type} {n n' : Nat} {x y : Eval ν α}, Rel n x y → Rel n' x y
  cutOff : ∀ {n : Nat}, Rel n (fault .outOfFuel : Eval ν (List Value)) (fault .outOfFuel)
  framed : ∀ {α : Type} {n : Nat} {x y : Eval ν α} (chunk : String) (line : Nat),
    Rel n x y → Rel n (framed chunk line x) (framed chunk line y)
  within : ∀ {α : Type} {n : Nat} {x y : Nat → Eval ν α}, (∀ depth, Rel n (x depth) (y depth)) →
    Rel n (fun s m => x s.limits.maxCallDepth s m) (fun s m => y s.limits.maxCallDepth s m)
  restarted : ∀ {α : Type} {n : Nat} {x y : Eval ν α},
    Rel n x y → Rel n (fun s m => x s m.restarted) (fun s m => y s m.restarted)
  located : ∀ {α : Type} {n : Nat} {x y : Eval ν α} (chunk : String) (line : Nat), Rel n x y →
    Rel n (fun s m => x s { m with chunk := chunk, line := line })
      (fun s m => y s { m with chunk := chunk, line := line })
  unplaced : ∀ {α : Type} {n : Nat} (cause : Cause),
    Rel n (unplacedFault cause : Eval ν α) (unplacedFault cause)

namespace CallCongruence

variable {ν : Type} [Reference ν] (C : CallCongruence ν)

theorem callClosure_rel (fuel : Nat) (c : Closure ν) (args : List Value) :
    C.Rel 0 (callClosure fuel c args) (callClosure fuel c args) := by
  induction fuel generalizing c args with
  | zero => exact C.cutOff
  | succ fuel ih =>
      simp only [callClosure]
      refine C.bind (C.framed _ _ (C.bind (C.newScope _) fun frame => ?_)) fun flow => ?_
      · exact C.anyRoom (block_rel C.toUniformCongruence (fun c args _ => ih c args) _ _
          (Nat.le_refl _))
      · cases flow with
        | broken => exact C.fault_rel rfl
        | _ => exact C.pure_rel _

theorem callWithin_rel (c : Closure ν) (args : List Value) :
    C.Rel 0 (callWithin c args) (callWithin c args) :=
  C.within fun depth => C.callClosure_rel (depth + 1) c args

theorem execChunk_rel (chunk : Chunk ν) : C.Rel 0 (execChunk chunk) (execChunk chunk) := by
  have hblock : C.Rel 0 (block callWithin [] chunk.body) (block callWithin [] chunk.body) :=
    C.anyRoom (block_rel C.toUniformCongruence (fun c args _ => C.callWithin_rel c args) [] _
      (Nat.le_refl _))
  refine C.restarted (C.located chunk.name 0 (C.bind hblock fun flow => ?_))
  cases flow with
  | broken => exact C.fault_rel rfl
  | _ => exact C.pure_rel _

theorem callGlobal_rel (name : String) (args : List Value) :
    C.Rel 0 (callGlobal name args) (callGlobal name args : Eval ν (List Value)) := by
  -- What the name stands for is a value like another one, except when there is nothing to call.
  have hrun : (callGlobal name args : Eval ν (List Value)) = fun s m =>
      (readGlobal name >>= fun f =>
        if f.isNil then unplacedFault (.notCallable .nil (.global name))
        else callValue callWithin .none f args) s m.restarted := by
    funext s m
    unfold callGlobal
    dsimp only
    rw [run_bind]
    dsimp only [readGlobal]
    cases m.restarted.global name <;> rfl
  rw [hrun]
  refine C.restarted (C.bind (C.plain (plain_readGlobal name)) fun f => ?_)
  split
  · exact C.unplaced _
  · exact C.callValue_rel (fun c args _ => C.callWithin_rel c args) _ f args

end CallCongruence

end Script

end PixelEffects
