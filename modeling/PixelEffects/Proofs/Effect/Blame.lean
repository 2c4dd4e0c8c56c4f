import PixelEffects.Effect.Application
import PixelEffects.Proofs.Effect.Failure
import PixelEffects.Proofs.Effect.Parallel

/-!
# What Workers Report

Which errors an application with workers can end with.

An error comes up in three places: a sandbox cannot be made, an invocation fails, or the flag is found
set. Workers hand on what comes up there and make nothing of it, apart from a note that a worker was
never started. So if nobody sets the flag, all that is reported is of the kind of error that sandboxes
and invocations have, for every division of the rows and every order of steps.

## Main definitions

* `Crew.Blames`: All errors that workers know of are of a kind, and the flag is unset.

## Theorems

* `Worker.step_blames`, `Crew.Blames.step`: A step brings no error of another kind.
* `Effect.apply_ofEffect`: With workers or without, an application fails with an error of the effect.
-/

namespace PixelEffects

open Operation

variable {ρ : Type} {kind : Error → Prop}

/-- The errors that a worker knows of are of a kind: why it has no sandbox, and why it leaves a row. -/
structure Worker.Blames (kind : Error → Prop) (w : Worker ρ) : Prop where
  sandbox : ∀ e, w.sandbox = .error e → kind e
  leaving : ∀ y e, w.position = .leaving y e → kind e

/-- The errors that were reported are of a kind, and nobody sets the flag. -/
structure Shared.Blames (kind : Error → Prop) (s : Shared) : Prop where
  unset : CancelFlag.Unset s.cancel
  failures : ∀ failure ∈ s.failures, kind failure.2

/-- All errors that workers know of are of a kind, and nobody sets the flag. -/
structure Crew.Blames (kind : Error → Prop) (crew : Crew ρ) : Prop where
  shared : crew.shared.Blames kind
  workers : ∀ w ∈ crew.workers, w.Blames kind

variable {task : Task ρ}

namespace Worker

/-- A step of a worker hands on errors that it knows of, or takes in one of an invocation. -/
theorem step_blames (hlost : kind (notStarted task.effectId))
    (hinvoke : ∀ sandbox p e, (task.invoke sandbox p).1 = .error e → kind e) {w : Worker ρ}
    {s : Shared} (hw : w.Blames kind) (hs : s.Blames kind) :
    (w.step task s).1.Blames kind ∧ (w.step task s).2.Blames kind := by
  rcases w with ⟨sandbox, rows, position⟩
  have hsandbox : ∀ e, sandbox = .error e → kind e := hw.sandbox
  -- A worker that keeps its sandbox and is not about to report has nothing new to say.
  have hkeeps : ∀ {rows : List Nat} {p : Position}, (∀ y e, p ≠ .leaving y e) →
      Blames kind (⟨sandbox, rows, p⟩ : Worker ρ) :=
    fun hp => ⟨hsandbox, fun y e hleaving => absurd hleaving (hp y e)⟩
  cases position with
  | between =>
      cases rows with
      | nil => exact ⟨hw, hs⟩
      | cons y rows =>
          unfold step begin
          dsimp only
          split
          · exact ⟨hkeeps nofun, hs⟩
          · cases sandbox with
            | ok sandbox => exact ⟨hkeeps nofun, hs⟩
            | error e =>
                refine ⟨⟨fun e' h => ?_, fun y' e' h => ?_⟩, hs⟩
                · cases h
                  exact hlost
                · cases h
                  exact hsandbox e rfl
  | before x y =>
      rw [step_before]
      unfold approach
      rw [Shared.checkFlag_unset hs.unset]
      split
      · exact ⟨hkeeps nofun, hs⟩
      · exact ⟨hkeeps nofun, hs⟩
  | inside x y =>
      rw [step_inside]
      unfold transform
      cases sandbox with
      | error e =>
          refine ⟨⟨hsandbox, fun y' e' h => ?_⟩, hs⟩
          cases h
          exact hsandbox e rfl
      | ok r =>
          dsimp only
          rcases hresult : task.invoke r (task.source.pixel x y) with ⟨result, r'⟩
          cases result with
          | ok p => exact ⟨⟨nofun, nofun⟩, ⟨hs.unset, hs.failures⟩⟩
          | error e =>
              refine ⟨⟨nofun, fun y' e' h => ?_⟩, hs⟩
              cases h
              exact hinvoke r (task.source.pixel x y) e (by rw [hresult])
  | leaving y e =>
      rw [step_leaving]
      refine ⟨hkeeps nofun, hs.unset, fun failure hmem => ?_⟩
      rcases List.mem_append.mp hmem with hold | hnew
      · exact hs.failures failure hold
      · rw [List.mem_singleton.mp hnew]
        exact hw.leaving y e rfl

end Worker

namespace Crew

theorem Blames.step (hlost : kind (Worker.notStarted task.effectId))
    (hinvoke : ∀ sandbox p e, (task.invoke sandbox p).1 = .error e → kind e) {crew : Crew ρ}
    (h : crew.Blames kind) (i : Nat) : (crew.step task i).Blames kind := by
  cases hget : crew.workers[i]? with
  | none =>
      rw [step_of_none hget]
      exact h
  | some w =>
      have hstep := Worker.step_blames hlost hinvoke (h.workers w (List.mem_of_getElem? hget))
        h.shared
      rw [step_of_some hget]
      refine ⟨hstep.2, fun w' hmem => ?_⟩
      rcases List.mem_or_eq_of_mem_set hmem with hold | rfl
      · exact h.workers w' hold
      · exact hstep.1

/-- Workers that have begun nothing know of the errors of their sandboxes. -/
theorem start_blames {cancel : Option CancelFlag} (hunset : CancelFlag.Unset cancel)
    {workers : List (Except Error ρ × List Nat)}
    (hworkers : ∀ w ∈ workers, ∀ e, w.1 = .error e → kind e) :
    (Crew.start task cancel workers).Blames kind := by
  refine ⟨⟨hunset, fun _ hmem => (List.not_mem_nil hmem).elim⟩, fun w hmem => ?_⟩
  rcases List.mem_map.mp hmem with ⟨given, hgiven, rfl⟩
  exact ⟨hworkers given hgiven, nofun⟩

end Crew

/-- What comes out is one of the errors that were reported, if none of them is a stop. -/
theorem Shared.Blames.result {s : Shared} (h : s.Blames kind)
    (hkind : ∀ e, kind e → e.isCancelled = false) {e : Error} (he : s.result = .error e) :
    kind e := by
  have hnone : s.failures.any (·.2.isCancelled) = false := by
    rw [List.any_eq_false]
    exact fun failure hmem hstop => by
      rw [hkind _ (h.failures failure hmem)] at hstop
      cases hstop
  unfold Shared.result at he
  rw [hnone, if_neg Bool.false_ne_true] at he
  have hspec := leastFailure_spec s.failures
  cases hleast : leastFailure s.failures with
  | none =>
      rw [hleast] at he
      cases he
  | some least =>
      rw [hleast] at hspec he
      cases he
      exact h.failures least hspec.1

namespace Effect

/-- Whether or not sandboxes can be made, there are as many as workers, and the errors of those that
    cannot are errors of the effect. -/
theorem spawnAll_blames (effect : Effect) (rows : List (List Nat)) (session : Session)
    (hflag : CancelFlag.Unset session.cancel) :
    ∃ workers session', spawnAll effect rows session = .ok workers session' ∧
      CancelFlag.Unset session'.cancel ∧ ∀ w ∈ workers, ∀ e, w.1 = .error e → e.OfEffect := by
  induction rows generalizing session with
  | nil => exact ⟨[], session, rfl, hflag, fun _ hmem => (List.not_mem_nil hmem).elim⟩
  | cons first rows ih =>
      -- An attempt leaves the flag as it is, and its error is one of the effect.
      have hone : ∃ sandbox s, attempt effect.spawn session = .ok sandbox s ∧
          CancelFlag.Unset s.cancel ∧ ∀ e, sandbox = .error e → e.OfEffect := by
        have hkeeps := effect.spawn_keepsFlag session
        have hspawns : effect.spawn.FailsWith Error.OfEffect :=
          Sandbox.spawn_failsWith effect.engines effect.missing effect.package effect.libs
            effect.params
        have hkind := hspawns session hflag
        unfold sessionAfter at hkeeps
        unfold attempt
        cases hspawn : effect.spawn session with
        | ok sandbox s =>
            rw [hspawn] at hkind
            exact ⟨.ok sandbox, s, rfl, hkind, nofun⟩
        | error e s =>
            rw [hspawn] at hkeeps hkind
            have hkeeps : s.cancel = session.cancel := hkeeps
            refine ⟨.error e, s, rfl, by rw [hkeeps]; exact hflag, fun e' he' => ?_⟩
            cases he'
            exact hkind
      rcases hone with ⟨sandbox, s, hsandbox, hs, herror⟩
      rcases ih s hs with ⟨workers, s', hworkers, hs', hothers⟩
      refine ⟨(sandbox, first) :: workers, s', ?_, hs', List.forall_mem_cons.mpr ⟨herror, hothers⟩⟩
      simp only [spawnAll, bind, EStateM.bind]
      rw [hsandbox]
      dsimp only
      rw [hworkers]
      rfl

/-- Workers that nobody stops fail with an error of the effect. -/
theorem runWorkers_ofEffect (effect : Effect) (plan : Plan) (source : Image) :
    (effect.runWorkers plan source).FailsWith Error.OfEffect := by
  intro session hflag
  rcases spawnAll_blames effect (plan.rows source.height) session hflag with
    ⟨workers, s, hspawn, hs, herrors⟩
  have hinvoke : ∀ sandbox p e, ((effect.task source).invoke sandbox p).1 = .error e →
      e.OfEffect := by
    intro sandbox p e h
    have h : (sandbox.invoke p).1.mapError Error.script = .error e := h
    cases hresult : (sandbox.invoke p).1 with
    | ok q =>
        rw [hresult] at h
        cases h
    | error e' =>
        rw [hresult] at h
        cases h
        trivial
  have hstep : ∀ (crew : Crew Sandbox) (i : Nat), crew.Blames Error.OfEffect →
      (crew.step (effect.task source) i).Blames Error.OfEffect :=
    fun _ i hi => hi.step trivial hinvoke i
  have hstart : (Crew.start (effect.task source) s.cancel workers).Blames Error.OfEffect :=
    Crew.start_blames hs herrors
  have hblames := Crew.finish_induction hstep (Crew.run_induction hstep hstart plan.order)
  have hkind : ∀ e : Error, e.OfEffect → e.isCancelled = false := by
    intro e he
    cases e with
    | cancelled => exact he.elim
    | _ => rfl
  unfold runWorkers
  rw [bind_of_ok hspawn]
  unfold sharing
  dsimp only
  cases hresult : (((Crew.start (effect.task source) s.cancel workers).run (effect.task source)
      plan.order).finish (effect.task source)).shared.result with
  | ok image => exact hblames.shared.unset
  | error e => exact hblames.shared.result hkind hresult

/-- With workers, an application that nobody stops fails with an error of the effect, or since there is
    no pool for them. -/
theorem applyParallel_ofEffect (effect : Effect) (threads : Option Nat) (plan : Plan)
    (source : Image) : (effect.applyParallel threads plan source).FailsWith Error.OfEffect := by
  refine failsWith_bind (failsWith_ofExcept fun e he => ?_) fun _ =>
    effect.runWorkers_ofEffect plan source
  unfold Plan.buildPool at he
  cases hpool : plan.pool threads with
  | ok _ =>
      rw [hpool] at he
      cases he
  | error cause =>
      rw [hpool] at he
      cases he
      trivial

/-- With workers or without, an application that nobody stops fails with an error of the effect. -/
theorem apply_ofEffect (effect : Effect) (options : ApplyOptions) (source : Image) :
    (effect.apply options source).FailsWith Error.OfEffect := by
  by_cases hparallel : options.parallel = true
  · unfold apply
    split
    · exact failsWith_fail trivial
    · split
      · exact failsWith_pure _
      · exact applyParallel_ofEffect effect options.threads options.plan source
  · exact effect.apply_failsWith (eq_false_of_ne_true hparallel) source

end Effect

end PixelEffects
