import PixelEffects.Proofs.Chain
import PixelEffects.Proofs.Effect.Schedule
import PixelEffects.Proofs.Effect.Uncached

/-!
# Operations That Leave No Trace

An operation that does not use the cache, and that nobody stops, leaves the session as it was.

A session is a cache and a flag. The cache is changed by loading scripts and by nothing else, and an
unset flag is the same after each look, also when several workers look at it. So such an operation
can be put anywhere in a sequence, and what comes behind it cannot tell. For a chain this means that
a stage which gives back the image that it gets might as well not be there.

## Main definitions

* `Operation.Traceless`: An operation leaves the session as it was, unless it is stopped.

## Theorems

* `Crew.cancel_run`, `Crew.cancel_finish`: Workers leave an unset flag as it is.
* `Effect.apply_traceless`, `Stage.runAll_traceless`: Effects and chains leave no trace.
* `Stage.runAll_split`: Stages in two parts.
* `Stage.runAll_drop`: A stage that changes no image can be left out.
-/

namespace PixelEffects

namespace Operation

variable {α β : Type}

/-- An operation leaves the session as it was, however it ends, as long as nobody sets the flag. -/
def Traceless (op : Operation α) : Prop :=
  ∀ session, CancelFlag.Unset session.cancel → op.sessionAfter session = session

/-- What such an operation ends with is all that there is to say about it. -/
theorem Traceless.eq_of_outcome {op : Operation α} (hop : op.Traceless) {session : Session}
    (hflag : CancelFlag.Unset session.cancel) {result : Except Error α}
    (h : op.outcome session = result) : op session = ofExcept result session := by
  have hafter := hop session hflag
  subst h
  unfold sessionAfter at hafter
  unfold outcome
  cases hrun : op session <;>
    · rw [hrun] at hafter
      cases hafter
      rfl

theorem traceless_of_detached {good : α → Prop} {op : Operation α} (h : Detached good op) :
    op.Traceless := by
  rcases h with ⟨result, rfl, _⟩
  intro session _
  cases result <;> rfl

theorem traceless_pure (a : α) : Traceless (pure a : Operation α) :=
  fun _ _ => rfl

theorem traceless_fail (e : Error) : Traceless (fail e : Operation α) :=
  fun _ _ => rfl

theorem traceless_ofExcept (result : Except Error α) : (ofExcept result).Traceless := by
  cases result with
  | ok a => exact traceless_pure a
  | error e => exact traceless_fail e

theorem traceless_bind {op : Operation α} {next : α → Operation β} (hop : op.Traceless)
    (hnext : ∀ a, (next a).Traceless) : (op >>= next).Traceless := by
  intro session hflag
  have hrun := hop.eq_of_outcome hflag rfl
  unfold sessionAfter
  cases hout : op.outcome session with
  | error e =>
      rw [hout] at hrun
      rw [bind_of_error hrun]
  | ok a =>
      rw [hout] at hrun
      rw [bind_of_ok hrun]
      exact hnext a session hflag

theorem traceless_attempt {op : Operation α} (hop : op.Traceless) : (attempt op).Traceless := by
  intro session hflag
  have hafter := hop session hflag
  unfold sessionAfter at hafter ⊢
  unfold attempt
  cases hrun : op session <;>
    · rw [hrun] at hafter
      exact hafter

theorem traceless_mapError {op : Operation α} (f : Error → Error) (hop : op.Traceless) :
    (mapError f op).Traceless := by
  intro session hflag
  have hafter := hop session hflag
  unfold sessionAfter at hafter ⊢
  unfold mapError
  cases hrun : op session <;>
    · rw [hrun] at hafter
      exact hafter

theorem traceless_checkCancel : checkCancel.Traceless := by
  intro session hflag
  unfold sessionAfter
  rw [checkCancel_unset hflag]

theorem traceless_sharing {body : Option CancelFlag → Except Error α × Option CancelFlag}
    (h : ∀ cancel, CancelFlag.Unset cancel → (body cancel).2 = cancel) :
    (sharing body).Traceless := by
  intro session hflag
  rcases session with ⟨cache, cancel⟩
  have hcancel := h cancel hflag
  unfold sessionAfter sharing
  dsimp only
  cases hrun : body cancel with
  | mk result cancel' =>
      rw [hrun] at hcancel
      subst hcancel
      cases result <;> rfl

end Operation

/-! ## Workers -/

section Workers

variable {ρ : Type} {task : Task ρ}

theorem Worker.cancel_step (task : Task ρ) (w : Worker ρ) {s : Shared}
    (h : CancelFlag.Unset s.cancel) : (w.step task s).2.cancel = s.cancel := by
  rcases w with ⟨sandbox, rows, position⟩
  cases position with
  | between =>
      cases rows with
      | nil => rfl
      | cons y rows =>
          show (begin task sandbox rows y s).2.cancel = s.cancel
          unfold begin
          split
          · rfl
          · cases sandbox <;> rfl
  | before x y =>
      rw [step_before]
      unfold approach
      rw [Shared.checkFlag_unset h]
      split <;> rfl
  | inside x y =>
      rw [step_inside]
      unfold transform
      split
      · rfl
      · split <;> rfl
  | leaving y e =>
      rw [step_leaving]
      rfl

namespace Crew

theorem cancel_step {crew : Crew ρ} {cancel : Option CancelFlag} (hflag : CancelFlag.Unset cancel)
    (i : Nat) (h : crew.shared.cancel = cancel) : (crew.step task i).shared.cancel = cancel := by
  cases hw : crew.workers[i]? with
  | none =>
      rw [step_of_none hw]
      exact h
  | some w =>
      subst h
      rw [step_of_some hw]
      exact w.cancel_step task hflag

/-- Workers leave an unset flag as it is, in whatever order they take their steps. -/
theorem cancel_run {crew : Crew ρ} (hflag : CancelFlag.Unset crew.shared.cancel)
    (order : List Nat) : (crew.run task order).shared.cancel = crew.shared.cancel :=
  run_induction (I := fun c => c.shared.cancel = crew.shared.cancel)
    (fun _ i h => cancel_step hflag i h) rfl order

theorem cancel_finish {crew : Crew ρ} (hflag : CancelFlag.Unset crew.shared.cancel) :
    (crew.finish task).shared.cancel = crew.shared.cancel :=
  finish_induction (I := fun c => c.shared.cancel = crew.shared.cancel)
    (fun _ i h => cancel_step hflag i h) rfl

end Crew

end Workers

/-! ## Effects -/

open Operation

namespace Effect

variable {effect : Effect}

theorem spawn_traceless (h : effect.engines.caching = false) : effect.spawn.Traceless :=
  traceless_of_detached (Sandbox.spawn_detached h _ _ _ _)

theorem sweep_traceless {ρ : Type} (task : Task ρ) (todo : List (Nat × Nat)) (sandbox : ρ)
    (out : Image) : (sweep task todo sandbox out).Traceless := by
  induction todo generalizing sandbox out with
  | nil => exact traceless_pure out
  | cons coordinate rest ih =>
      rcases coordinate with ⟨x, y⟩
      refine traceless_bind traceless_checkCancel fun _ => ?_
      rcases task.invoke sandbox (task.source.pixel x y) with ⟨result, sandbox'⟩
      cases result with
      | ok p => exact ih sandbox' (out.set x y p.rgba)
      | error e => exact traceless_fail e

theorem spawnAll_traceless (h : effect.engines.caching = false) (rows : List (List Nat)) :
    (effect.spawnAll rows).Traceless := by
  induction rows with
  | nil => exact traceless_pure []
  | cons row rows ih =>
      refine traceless_bind (traceless_attempt (spawn_traceless h)) fun sandbox => ?_
      exact traceless_bind ih fun others => traceless_pure _

theorem runWorkers_traceless (h : effect.engines.caching = false) (plan : Plan)
    (source : Image) : (effect.runWorkers plan source).Traceless := by
  refine traceless_bind (spawnAll_traceless h _) fun workers => ?_
  refine traceless_sharing fun cancel hflag => ?_
  have hstarted : (Crew.start (effect.task source) cancel workers).shared.cancel = cancel := rfl
  have hrun : ((Crew.start (effect.task source) cancel workers).run (effect.task source)
      plan.order).shared.cancel = (Crew.start (effect.task source) cancel workers).shared.cancel :=
    Crew.cancel_run (by rw [hstarted]; exact hflag) plan.order
  dsimp only
  rw [Crew.cancel_finish (by rw [hrun]; exact hflag), hrun, hstarted]

theorem applyParallel_traceless (h : effect.engines.caching = false) (threads : Option Nat)
    (plan : Plan) (source : Image) : (effect.applyParallel threads plan source).Traceless :=
  traceless_bind (traceless_ofExcept _) fun _ => runWorkers_traceless h plan source

/-- Applying an effect without a cache leaves no trace, with workers or without. -/
theorem apply_traceless (h : effect.engines.caching = false) (options : ApplyOptions)
    (source : Image) : (effect.apply options source).Traceless := by
  unfold apply
  split
  · exact traceless_fail _
  · split
    · exact traceless_pure _
    · split
      · exact applyParallel_traceless h options.threads options.plan source
      · exact traceless_bind (spawn_traceless h) fun sandbox => sweep_traceless _ _ sandbox _

end Effect

/-! ## Chains -/

namespace EffectLoader

theorem caching_of_find {loader : EffectLoader} {id : String} {params : Params} {effect : Effect}
    (h : loader.find id params = .ok effect) :
    effect.engines.caching = loader.engines.caching := by
  unfold find at h
  rcases bind_eq_ok h with ⟨package, _, h⟩
  rcases bind_eq_ok h with ⟨libs, _, h⟩
  cases h
  rfl

/-- A loader without a cache gives effects without one, and loading them leaves no trace. -/
theorem load_detached {loader : EffectLoader} (h : loader.engines.caching = false) (id : String)
    (params : Params) :
    (loader.load id params).Detached fun effect => effect.engines.caching = false := by
  have hfind : (ofExcept (loader.find id params)).Detached
      fun effect => effect.engines.caching = false :=
    ⟨_, rfl, fun effect hfound => (caching_of_find hfound).trans h⟩
  refine detached_bind hfind fun effect heffect => ?_
  exact detached_bind (Sandbox.spawn_detached heffect _ _ _ _) fun _ _ => detached_pure heffect

end EffectLoader

namespace Stage

variable {loader : EffectLoader} {options : ApplyOptions}

theorem run_traceless (h : loader.engines.caching = false) (stage : Stage) (image : Image) :
    (stage.run loader options image).Traceless := by
  rcases EffectLoader.load_detached h stage.effectId stage.params with ⟨result, hload, huncached⟩
  unfold run
  rw [hload]
  cases result with
  | ok effect => exact Effect.apply_traceless (huncached effect rfl) options image
  | error e => exact traceless_fail e

/-- Running stages without a cache leaves no trace. -/
theorem runAll_traceless (h : loader.engines.caching = false) (index : Nat) (stages : List Stage)
    (image : Image) : (runAll loader options index stages image).Traceless := by
  induction stages generalizing index image with
  | nil => exact traceless_pure image
  | cons stage rest ih =>
      refine traceless_bind traceless_checkCancel fun _ => ?_
      exact traceless_bind (traceless_mapError _ (run_traceless h stage image)) fun out => ih _ out

/-- Stages in two parts are run one part after the other. -/
theorem runAll_split (loader : EffectLoader) (options : ApplyOptions) (index : Nat)
    (before after : List Stage) (image : Image) :
    runAll loader options index (before ++ after) image =
      runAll loader options index before image >>= fun mid =>
        runAll loader options (index + before.length) after mid := by
  induction before generalizing index image with
  | nil => rfl
  | cons stage before ih =>
      have hindex : index + (stage :: before).length = index + 1 + before.length := by
        rw [List.length_cons]
        omega
      rw [List.cons_append, runAll, runAll, hindex, bind_assoc]
      refine congrArg _ (funext fun _ => ?_)
      rw [bind_assoc]
      exact congrArg _ (funext fun out => ih (index + 1) out)

/-- A stage that gives back every image can be left out of a chain, wherever it stands. Those behind
    it keep their numbers. -/
theorem runAll_drop (h : loader.engines.caching = false) {stage : Stage} {session : Session}
    (hflag : CancelFlag.Unset session.cancel)
    (hstage : ∀ image, (stage.run loader options image).outcome session = .ok image) (index : Nat)
    (before after : List Stage) (image : Image) :
    (runAll loader options index (before ++ stage :: after) image).outcome session =
      (runAll loader options index before image >>= fun mid =>
        runAll loader options (index + before.length + 1) after mid).outcome session := by
  rw [runAll_split]
  have htraceless : (runAll loader options index before image).Traceless :=
    runAll_traceless h index before image
  have hbefore := htraceless.eq_of_outcome hflag rfl
  cases hout : (runAll loader options index before image).outcome session with
  | error e =>
      rw [hout] at hbefore
      rw [outcome_bind_error hbefore, outcome_bind_error hbefore]
  | ok mid =>
      rw [hout] at hbefore
      have hrun := (run_traceless h stage mid).eq_of_outcome hflag (hstage mid)
      rw [outcome_bind hbefore, outcome_bind hbefore]
      unfold outcome
      rw [runAll_cons_ok hflag hrun]

end Stage

end PixelEffects
