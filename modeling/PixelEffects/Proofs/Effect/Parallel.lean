import PixelEffects.Proofs.Effect.Schedule
import PixelEffects.Proofs.Effect.Steady

/-!
# Workers or None

A steady effect gives the same with workers and without.

Both ways of applying it end with what the image comes to, pixel by pixel, in a fresh sandbox. With
workers that is so for every division of the rows and every order of steps, which includes the orders
in which a row is skipped because a lower one has failed. Since an image comes to one thing only, the
two ways agree, on the image as well as on the error.

That there are threads to run workers on cannot be taken for granted. Without a pool of them the two
ways do not agree, since then there is an error before anything is done to the image.

## Main definitions

* `Effect.pixelwise`: What a fresh sandbox does to each pixel.

## Theorems

* `Effect.spawnAll_fresh`: All workers of a steady effect get fresh sandboxes.
* `Effect.applyParallel_of_pool`, `Effect.applyParallel_of_no_pool`: What a pool of threads decides.
* `Effect.applySequential_transforms`, `Effect.applyParallel_transforms`: What each way ends with.
* `Effect.parallel_eq_sequential`: So they end with the same.
-/

namespace PixelEffects

namespace Effect

variable {effect : Effect} {session : Session}

/-- What a sandbox does to each pixel, with its error as one of the application. -/
def pixelwise (fresh : Sandbox) (p : Pixel) : Except Error Pixel :=
  (fresh.invoke p).1.mapError .script

/-- A pixel does not come to a stop. -/
theorem pixelwise_not_cancelled (fresh : Sandbox) (p : Pixel) (e : Error)
    (h : pixelwise fresh p = .error e) : e.isCancelled = false := by
  unfold pixelwise at h
  cases hinv : (fresh.invoke p).1 with
  | ok q =>
      rw [hinv] at h
      cases h
  | error e' =>
      rw [hinv] at h
      cases h
      rfl

/-- What a steady effect does to pixels is what a fresh sandbox does. -/
theorem Steady.computes (h : effect.Steady session) {fresh : Sandbox}
    (hfresh : effect.Fresh session fresh) (source : Image) :
    (effect.task source).Computes (pixelwise fresh) (effect.Reachable session) := by
  refine ⟨fun sandbox p hreach => ?_, fun sandbox p hreach => hreach.used p⟩
  have hsame := h.same fresh sandbox p hfresh hreach
  exact congrArg (Except.mapError Error.script) hsame

/-- Making a sandbox leaves the flag as it is. -/
theorem spawn_keepsFlag (effect : Effect) : effect.spawn.KeepsFlag :=
  Sandbox.spawn_keepsFlag _ _ _ _ _

/-- All workers of a steady effect get fresh sandboxes, and the rows that are meant for them. -/
theorem spawnAll_fresh (h : effect.Steady session) (rows : List (List Nat)) {s : Session}
    (hs : effect.After session s) : ∃ workers s', spawnAll effect rows s = .ok workers s' ∧
      s'.cancel = s.cancel ∧ workers.map (·.2) = rows ∧
      ∀ w ∈ workers, ∃ sandbox, w.1 = .ok sandbox ∧ effect.Fresh session sandbox := by
  induction rows generalizing s with
  | nil => exact ⟨[], s, rfl, rfl, rfl, fun _ hmem => (List.not_mem_nil hmem).elim⟩
  | cons first rows ih =>
      -- The first sandbox is made in this session, and the others in what it leaves behind.
      rcases h.spawns s hs with ⟨sandbox, s₁, hspawn⟩
      have hafter : effect.spawn.sessionAfter s = s₁ := by
        unfold Operation.sessionAfter
        rw [hspawn]
      have hflag := effect.spawn_keepsFlag s
      rw [hafter] at hflag
      have hs₁ := hs.spawned
      rw [hafter] at hs₁
      rcases ih hs₁ with ⟨workers, s₂, hrest, hrestFlag, hrestRows, hfresh⟩
      refine ⟨(.ok sandbox, first) :: workers, s₂, ?_, hrestFlag.trans hflag, ?_, fun w hmem => ?_⟩
      · simp only [spawnAll, bind, EStateM.bind, Operation.attempt]
        rw [hspawn]
        dsimp only
        rw [hrest]
        rfl
      · rw [List.map_cons, hrestRows]
      · rcases List.mem_cons.mp hmem with heq | hrest
        · rw [heq]
          exact ⟨sandbox, rfl, s, s₁, hs, hspawn⟩
        · exact hfresh w hrest

/-- Without workers, a steady effect gives what the image comes to. -/
theorem applySequential_transforms (h : effect.Steady session)
    (hflag : CancelFlag.Unset session.cancel) {fresh : Sandbox}
    (hfresh : effect.Fresh session fresh) (source : Image) :
    source.Transforms (pixelwise fresh) ((effect.applySequential source).outcome session) := by
  rcases h.spawns session .here with ⟨sandbox, s', hspawn⟩
  -- The sweep looks at the flag that making the sandbox left, which is the one from before.
  have hkeeps := effect.spawn_keepsFlag session
  unfold Operation.sessionAfter at hkeeps
  rw [hspawn] at hkeeps
  have hkeeps : s'.cancel = session.cancel := hkeeps
  have hrun : (effect.applySequential source).outcome session = _ :=
    Operation.outcome_bind hspawn
  rw [hrun]
  exact sweep_transforms (h.computes hfresh source) (by rw [hkeeps]; exact hflag)
    (.fresh ⟨session, s', .here, hspawn⟩)

/-- Where a pool can be built, workers take care of the rows. -/
theorem applyParallel_of_pool {threads : Option Nat} {plan : Plan}
    (hpool : plan.pool threads = .ok ()) (effect : Effect) (source : Image) :
    effect.applyParallel threads plan source = effect.runWorkers plan source := by
  unfold applyParallel Plan.buildPool
  rw [hpool]
  rfl

/-- Where a pool cannot be built, that is the error, and nothing is done to the image. -/
theorem applyParallel_of_no_pool {threads : Option Nat} {plan : Plan} {cause : String}
    (hpool : plan.pool threads = .error cause) (effect : Effect) (source : Image) :
    effect.applyParallel threads plan source =
      Operation.fail (.config (.noThreadPool cause)) := by
  unfold applyParallel Plan.buildPool
  rw [hpool]
  rfl

/-- With workers it does so too where there is a pool for them, for any division of the rows and any
    order of steps. -/
theorem applyParallel_transforms (h : effect.Steady session)
    (hflag : CancelFlag.Unset session.cancel) {fresh : Sandbox}
    (hfresh : effect.Fresh session fresh) {threads : Option Nat} {plan : Plan}
    (hpool : plan.pool threads = .ok ()) (source : Image)
    (hrows : (plan.rows source.height).flatten.Perm (List.range source.height)) :
    source.Transforms (pixelwise fresh)
      ((effect.applyParallel threads plan source).outcome session) := by
  rcases spawnAll_fresh h (plan.rows source.height) .here with
    ⟨workers, s', hspawn, hkeeps, hgiven, hworkers⟩
  have hrun : (effect.runWorkers plan source).outcome session = _ :=
    Operation.outcome_bind hspawn
  rw [applyParallel_of_pool hpool, hrun, Operation.outcome_sharing]
  -- The rows that the workers were given are those of the plan.
  rw [← hgiven] at hrows
  refine Crew.result_transforms (h.computes hfresh source) (pixelwise_not_cancelled fresh)
    (fun w hmem => ?_) hrows (by rw [hkeeps]; exact hflag) plan.order
  rcases hworkers w hmem with ⟨sandbox, hok, hmade⟩
  exact ⟨sandbox, hok, .fresh hmade⟩

/-- Applying a steady effect with workers ends with what applying it on one sandbox ends with, for
    every number of threads for which a pool can be built, every division of the rows among workers
    and every order in which these take their steps, as long as nobody stops it. Both end with the
    image that a fresh sandbox makes pixel by pixel, or with the error of the first pixel, row by row,
    for which a fresh sandbox has one. -/
theorem parallel_eq_sequential (effect : Effect) (session : Session) (threads : Option Nat)
    (plan : Plan) (source : Image) (hsteady : effect.Steady session)
    (hflag : CancelFlag.Unset session.cancel) (hpool : plan.pool threads = .ok ())
    (hrows : (plan.rows source.height).flatten.Perm (List.range source.height)) :
    (effect.applyParallel threads plan source).outcome session =
        (effect.applySequential source).outcome session ∧
      ∀ fresh, effect.Fresh session fresh → source.Transforms (pixelwise fresh)
        ((effect.applyParallel threads plan source).outcome session) := by
  refine ⟨?_, fun fresh hfresh => applyParallel_transforms hsteady hflag hfresh hpool source hrows⟩
  -- One fresh sandbox is enough to say what the image comes to, and it comes to one thing.
  rcases hsteady.spawns session .here with ⟨fresh, s', hspawn⟩
  have hfresh : effect.Fresh session fresh := ⟨session, s', .here, hspawn⟩
  have hpar := applyParallel_transforms hsteady hflag hfresh hpool source hrows
  have hseq := applySequential_transforms hsteady hflag hfresh source
  exact hpar.unique hseq

/-- Threads for at most two workers. Each of these has a row, and the one with the later row goes
    ahead. -/
def keepPlan : Plan where
  pool threads := if threads.all (· ≤ 2) then .ok () else .error "too many threads"
  rows _ := [[1], [0]]
  order := [0, 0, 1, 0]

/-- Two workers with a row each, of which the one with the later row goes ahead. -/
theorem parallel_eq_sequential_keepEffect :
    keepEffect.Steady ⟨none, none⟩ ∧ CancelFlag.Unset none ∧ keepPlan.pool (some 2) = .ok () ∧
      (keepPlan.rows 2).flatten.Perm (List.range 2) ∧
      (keepEffect.applyParallel (some 2) keepPlan (.gradient 2)).outcome ⟨none, none⟩ =
        (keepEffect.applySequential (.gradient 2)).outcome ⟨none, none⟩ := by
  have hflag : CancelFlag.Unset none := fun flag h => by cases h
  have hpool : keepPlan.pool (some 2) = .ok () := rfl
  have hrows : (keepPlan.rows 2).flatten.Perm (List.range 2) := by decide
  exact ⟨keepEffect_steady ⟨none, none⟩, hflag, hpool, hrows,
    (parallel_eq_sequential keepEffect ⟨none, none⟩ (some 2) keepPlan (.gradient 2)
      (keepEffect_steady ⟨none, none⟩) hflag hpool hrows).1⟩

end Effect

end PixelEffects
