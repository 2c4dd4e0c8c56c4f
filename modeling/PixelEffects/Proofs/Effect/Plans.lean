import Mathlib.Tactic.SplitIfs
import PixelEffects.Proofs.Effect.Parallel

/-!
# Plans That Do Not Differ

When it does not matter what the machine does with workers.

An effect that remembers pixels can give another image each time it is applied with workers, since the
rows may be divided differently. So two runs can only be compared if there are no workers, if the machine
does the same in both, or if the effect is steady. In the last case the plans may differ in all that they
decide, as long as both divide the rows. Only whether there is a pool at all has to be the same.

## Main definitions

* `Plan.Divides`: A plan by which each row is some worker's.
* `Plan.halves`: One with two workers.
* `Plan.Interchangeable`: Plans between which an effect makes no difference.

## Theorems

* `Plan.Interchangeable.outcome_apply`: What they have in common.
-/

namespace PixelEffects

namespace Plan

/-- A plan by which each row of an image is given to one worker. -/
def Divides (plan : Plan) : Prop :=
  ∀ height, (plan.rows height).flatten.Perm (List.range height)

theorem single_divides : single.Divides := by
  intro height
  show [List.range height].flatten.Perm (List.range height)
  rw [List.flatten_singleton]

/-- Two workers, each with a half of the rows, that take turns. -/
def halves : Plan :=
  pooled (fun height => [(List.range height).take (height / 2), (List.range height).drop (height / 2)])
    [1, 0, 1]

theorem halves_divides : halves.Divides := by
  intro height
  show [(List.range height).take _, (List.range height).drop _].flatten.Perm (List.range height)
  rw [List.flatten_cons, List.flatten_singleton, List.take_append_drop]

/-- Two plans that do the same for an effect with some number of threads: they are not used, there is
    only one of them, or the effect is steady and a pool can be built for both or for none. -/
inductive Interchangeable (plan plan' : Plan) (threads : Option Nat) (effect : Effect) : Prop
  | unused (h : ∀ n ∈ threads, n = 0)
  | same (h : plan = plan')
  | steady (hsteady : effect.Steady ⟨none, none⟩) (hpool : plan.pool threads = plan'.pool threads)
      (hrows : plan.Divides) (hrows' : plan'.Divides)

namespace Interchangeable

variable {plan plan' : Plan} {threads : Option Nat} {effect : Effect}

/-- With workers, a steady effect ends in the same way for both plans. -/
theorem outcome_applyParallel (hsteady : effect.Steady ⟨none, none⟩)
    (hpool : plan.pool threads = plan'.pool threads) (hrows : plan.Divides)
    (hrows' : plan'.Divides) (source : Image) :
    (effect.applyParallel threads plan source).outcome ⟨none, none⟩ =
      (effect.applyParallel threads plan' source).outcome ⟨none, none⟩ := by
  have hflag : CancelFlag.Unset none := fun _ h => nomatch h
  cases hbuilt : plan.pool threads with
  | error cause =>
      rw [Effect.applyParallel_of_no_pool hbuilt,
        Effect.applyParallel_of_no_pool (hpool.symm.trans hbuilt)]
  | ok u =>
      -- An image comes to one thing only in a fresh sandbox.
      rcases hsteady.spawns ⟨none, none⟩ .here with ⟨fresh, s', hspawn⟩
      have hfresh : effect.Fresh ⟨none, none⟩ fresh := ⟨_, s', .here, hspawn⟩
      exact (Effect.applyParallel_transforms hsteady hflag hfresh hbuilt source
          (hrows source.height)).unique
        (Effect.applyParallel_transforms hsteady hflag hfresh (hpool.symm.trans hbuilt) source
          (hrows' source.height))

/-- Applying an effect ends in the same way for both plans. -/
theorem outcome_apply (h : plan.Interchangeable plan' threads effect) (source : Image) :
    (effect.apply ⟨threads.isSome, threads, plan⟩ source).outcome ⟨none, none⟩ =
      (effect.apply ⟨threads.isSome, threads, plan'⟩ source).outcome ⟨none, none⟩ := by
  cases h with
  | unused h =>
      cases threads with
      | none => rfl
      | some n =>
          cases h n rfl
          rfl
  | same h => rw [h]
  | steady hsteady hpool hrows hrows' =>
      unfold Effect.apply
      dsimp only
      split_ifs
      · rfl
      · rfl
      · exact outcome_applyParallel hsteady hpool hrows hrows' source
      · rfl

end Interchangeable

end Plan

end PixelEffects
