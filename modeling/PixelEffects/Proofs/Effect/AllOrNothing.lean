import PixelEffects.Proofs.Effect.History
import PixelEffects.Proofs.Effect.Steady

/-!
# All or Nothing

An image comes out only if every pixel of it was transformed, exactly once and without an error.

Here nothing is assumed of what the effect does, and so there is no function from pixels to results
that the image could be compared with. What it is compared with is the history of its own run.

As long as nothing has gone wrong there is an account: the pixels that were transformed and those that
workers still have to transform are together the pixels of the image, each one once. Moving on leaves
the account as it is, and a call takes a pixel from one side to the other. It is also the account that
keeps what was written: the pixel that is written next was not transformed before, so it is not
written over.

Once something has gone wrong nothing has to be known of the account any more, only that it shows. An
error is with a worker that is about to report it, and then among the failures, and it never gets lost
on the way. A skipped row is the one incident without an error of its own, but it is skipped because a
failure was reported.

## Main definitions

* `Image.AllOrNothing`: What a history says about an outcome.
* `Crew.Intact`: The account, while nothing has gone wrong.
* `Crew.Flawed`: An error that is on its way or reported.
* `Crew.Accounted`: One of the two holds.

## Theorems

* `Crew.Flawed.step`: An error does not get lost.
* `Crew.Intact.step`: A step keeps the account or brings an error.
* `Crew.Accounted.run`: So it is throughout a run.
* `Crew.allOrNothing`, `Effect.sweep_allOrNothing`: Workers in any order, and one after the other.
* `Effect.apply_allOrNothing`: Applying an effect in any way.
-/

namespace PixelEffects

variable {ρ : Type} {task : Task ρ}

/-- What a history says about an outcome. With an image, every pixel was transformed once, and is what
    the call gave. With an incident that fails, there is an error, and it is the stop if the flag was
    found set. -/
structure Image.AllOrNothing (source : Image) (history : List Incident)
    (outcome : Except Error Image) : Prop where
  image : ∀ out, outcome = .ok out →
    out.width = source.width ∧ out.height = source.height ∧
    (callsIn history).Perm (Image.coordinates source.width source.height) ∧
    ∀ x y r, .called x y r ∈ history → ∃ p, r = .ok p ∧ out.get x y = p.rgba
  failure : ∀ i ∈ history, i.fails = true → ∃ e, outcome = .error e
  stop : ∀ x y, .stopped x y ∈ history → outcome = .error .cancelled

theorem callsIn_append (history later : List Incident) :
    callsIn (history ++ later) = callsIn history ++ callsIn later := by
  unfold callsIn
  rw [List.filterMap_append]

/-- The coordinates of an image are listed once each. -/
theorem Image.nodup_coordinates (width height : Nat) : (coordinates width height).Nodup := by
  refine (pairwise_coordinates width height).imp fun hbefore heq => ?_
  rw [heq] at hbefore
  exact Precedes.irrefl _ hbefore

/-- A call is where the calls are. -/
theorem mem_callsIn {history : List Incident} {x y : Nat} {r : Except Error Pixel}
    (h : .called x y r ∈ history) : (x, y) ∈ callsIn history :=
  List.mem_filterMap.mpr ⟨.called x y r, h, rfl⟩

/-! ## Steps of workers -/

namespace Worker.Moves

variable {width : Nat} {w : Worker ρ} {s : Shared} {i : Option Incident} {next : Worker ρ × Shared}

theorem inside (h : w.Moves width s i next) : next.1.position.Inside width := by
  cases h with
  | on w' cancel htodo hinside hstays => exact hinside
  | writes w' x y p htodo hinside hstays => exact hinside
  | fails i w' cancel y e hposition hstopped =>
      rw [hposition]
      trivial
  | skips w' y hfailed hposition =>
      rw [hposition]
      trivial
  | reports w' y e hleaving hposition =>
      rw [hposition]
      trivial

/-- No step takes a failure back. -/
theorem keeps_failures (h : w.Moves width s i next) :
    ∀ failure ∈ s.failures, failure ∈ next.2.failures := by
  intro failure hmem
  cases h with
  | reports w' y e hleaving hposition => exact List.mem_append_left _ hmem
  | _ => exact hmem

end Worker.Moves

namespace Crew

/-- What all workers have to do. -/
def todo (width : Nat) (crew : Crew ρ) : List (Nat × Nat) :=
  crew.workers.flatMap (Worker.todo width)

/-- All workers that are at a pixel are inside the image. -/
def AllInside (width : Nat) (crew : Crew ρ) : Prop :=
  ∀ w ∈ crew.workers, w.position.Inside width

/-- An error of some kind is reported, or a worker is about to report it. -/
def Flawed (P : Error → Prop) (crew : Crew ρ) : Prop :=
  (∃ failure ∈ crew.shared.failures, P failure.2) ∨
    ∃ w ∈ crew.workers, ∃ y e, w.position = .leaving y e ∧ P e

/-- Nothing has gone wrong: there were only calls with a result, these and what is left to do are the
    pixels of the image, and what they gave is written. -/
structure Intact (source : Image) (history : List Incident) (crew : Crew ρ) : Prop where
  clean : ∀ i ∈ history, i.fails = false
  account : (callsIn history ++ crew.todo source.width).Perm
    (Image.coordinates source.width source.height)
  written : ∀ x y p, .called x y (.ok p) ∈ history → crew.shared.image.get x y = p.rgba
  width_eq : crew.shared.image.width = source.width
  height_eq : crew.shared.image.height = source.height
  failedRow : crew.shared.failedRow = none
  stays : ∀ w ∈ crew.workers, w.position.isLeaving = false

/-- The account is right, or an error is known. A row that was stopped is known as such. -/
structure Accounted (source : Image) (history : List Incident) (crew : Crew ρ) : Prop where
  inside : crew.AllInside source.width
  intact : crew.Intact source history ∨ crew.Flawed fun _ => True
  stopped : ∀ x y, .stopped x y ∈ history → crew.Flawed (· = .cancelled)

/-- A step leaves all workers inside, since the one that takes it stays inside. -/
theorem AllInside.step {crew : Crew ρ} (h : crew.AllInside task.source.width) (i : Nat) :
    (crew.step task i).AllInside task.source.width := by
  cases hget : crew.workers[i]? with
  | none =>
      rw [step_of_none hget]
      exact h
  | some w =>
      have hw := h w (List.mem_of_getElem? hget)
      rw [step_of_some hget]
      intro w' hmem
      rcases List.mem_or_eq_of_mem_set hmem with hold | heq
      · exact h w' hold
      · rw [heq]
        exact (Worker.step_moves task crew.shared hw).inside

/-- An error does not get lost: it stays with its worker until this one reports it, and then it is a
    failure for good. -/
theorem Flawed.step {P : Error → Prop} {crew : Crew ρ} (hinside : crew.AllInside task.source.width)
    (h : crew.Flawed P) (i : Nat) : (crew.step task i).Flawed P := by
  cases hget : crew.workers[i]? with
  | none =>
      rw [step_of_none hget]
      exact h
  | some w =>
      have hw := hinside w (List.mem_of_getElem? hget)
      rw [step_of_some hget]
      rcases h with ⟨failure, hmem, hP⟩ | ⟨w', hmem, y, e, hposition, hP⟩
      · exact .inl ⟨failure, (Worker.step_moves task crew.shared hw).keeps_failures failure hmem, hP⟩
      · rcases List.mem_iff_getElem?.mp hmem with ⟨j, hj⟩
        by_cases hij : i = j
        · -- The worker with the error takes the step, which is to report it.
          subst hij
          rw [hget] at hj
          cases hj
          rcases w with ⟨sandbox, rows, position⟩
          dsimp only at hposition
          subst hposition
          refine .inl ⟨(y, e), ?_, hP⟩
          rw [Worker.step_leaving]
          exact List.mem_append_right _ (List.mem_singleton.mpr rfl)
        · refine .inr ⟨w', List.mem_iff_getElem?.mpr ⟨j, ?_⟩, y, e, hposition, hP⟩
          rw [List.getElem?_set_ne hij]
          exact hj

/-- A step keeps the account or brings an error. -/
theorem Intact.step {history : List Incident} {crew : Crew ρ}
    (hinside : crew.AllInside task.source.width) (h : crew.Intact task.source history) (i : Nat) :
    (crew.step task i).Intact task.source (history ++ (crew.incident? task i).toList) ∨
      (crew.step task i).Flawed fun _ => True := by
  unfold incident?
  cases hget : crew.workers[i]? with
  | none =>
      rw [step_of_none hget]
      simp only [Option.bind_none, Option.toList_none, List.append_nil]
      exact .inl h
  | some w =>
      rcases List.getElem?_eq_some_iff.mp hget with ⟨hi, hw⟩
      have hmoves := Worker.step_moves task crew.shared
        (hinside w (List.mem_of_getElem? hget))
      rw [step_of_some hget, Option.bind_some]
      generalize w.incident? task crew.shared = incident, w.step task crew.shared = next at hmoves
      -- The worker that takes the step stands between the others, and only its own part changes.
      rcases @List.exists_of_set _ i next.1 crew.workers hi with ⟨front, back, hbefore, -, hafter⟩
      rw [hw] at hbefore
      have haccount := h.account
      unfold Crew.todo at haccount
      rw [hbefore, List.flatMap_append, List.flatMap_cons] at haccount
      have hothers : next.1.position.isLeaving = false →
          ∀ w' ∈ crew.workers.set i next.1, w'.position.isLeaving = false := by
        intro hnext w' hmem
        rcases List.mem_or_eq_of_mem_set hmem with hold | heq
        · exact h.stays w' hold
        · rw [heq]
          exact hnext
      cases hmoves with
      | on w' cancel htodo hinside hstays =>
          rw [Option.toList_none, List.append_nil]
          refine .inl ⟨h.clean, ?_, h.written, h.width_eq, h.height_eq, h.failedRow,
            hothers hstays⟩
          unfold Crew.todo
          rw [hafter, List.flatMap_append, List.flatMap_cons, htodo]
          exact haccount
      | writes w' x y p htodo hinside hstays =>
          rw [Option.toList_some]
          rw [htodo] at haccount
          -- The pixel goes from what is left to do to what was called.
          have hmoved : (callsIn (history ++ [.called x y (.ok p)]) ++
              (front.flatMap (Worker.todo task.source.width) ++
                (w'.todo task.source.width ++
                  back.flatMap (Worker.todo task.source.width)))).Perm
              (Image.coordinates task.source.width task.source.height) := by
            refine List.Perm.trans ?_ haccount
            have hone : callsIn [.called x y (.ok p)] = [(x, y)] := rfl
            rw [callsIn_append, List.append_assoc, hone, List.singleton_append, List.cons_append]
            exact List.Perm.append_left _ List.perm_middle.symm
          -- In the account each pixel is listed once, so this one was not called before.
          have hnodup := hmoved.nodup_iff.mpr (Image.nodup_coordinates _ _)
          rw [callsIn_append] at hnodup
          have hfresh := (List.nodup_append.mp (List.nodup_append.mp hnodup).1).2.2
          have hxy : (x, y) ∈ Image.coordinates task.source.width task.source.height := by
            refine hmoved.mem_iff.mp (List.mem_append_left _ ?_)
            rw [callsIn_append]
            exact List.mem_append_right _ (List.mem_singleton.mpr rfl)
          rcases Image.mem_coordinates.mp hxy with ⟨hx, hy⟩
          rw [← h.width_eq] at hx
          rw [← h.height_eq] at hy
          refine .inl ⟨fun i hi => ?_, ?_, fun x' y' p' hmem => ?_, h.width_eq, h.height_eq,
            h.failedRow, hothers hstays⟩
          · rcases List.mem_append.mp hi with hold | hnew
            · exact h.clean i hold
            · rw [List.mem_singleton.mp hnew]
              rfl
          · unfold Crew.todo
            rw [hafter, List.flatMap_append, List.flatMap_cons]
            exact hmoved
          · rcases List.mem_append.mp hmem with hold | hnew
            · have hcalled := mem_callsIn hold
              have hne : (x, y) ≠ (x', y') :=
                (hfresh (x', y') hcalled (x, y) (List.mem_singleton.mpr rfl)).symm
              have hx' : x' < crew.shared.image.width := by
                have hlisted := haccount.mem_iff.mp (List.mem_append_left _ hcalled)
                rw [h.width_eq]
                exact (Image.mem_coordinates.mp hlisted).1
              exact (Image.get_set_of_ne _ hx hx' hne p.rgba).trans (h.written x' y' p' hold)
            · cases List.mem_singleton.mp hnew
              exact Image.get_set_self _ hx hy p.rgba
      | fails incident w' cancel y e hposition hstopped =>
          exact .inr (.inr ⟨w', List.mem_set hi _, y, e, hposition, trivial⟩)
      | skips w' y hfailed hposition => exact (hfailed h.failedRow).elim
      | reports w' y e hleaving hposition =>
          -- Nobody is about to report anything.
          have hstays := h.stays w (List.mem_of_getElem? hget)
          rw [hleaving] at hstays
          cases hstays

/-- Where the flag is found set, the worker is about to report the stop. -/
theorem flawed_of_stopped {crew : Crew ρ} (hinside : crew.AllInside task.source.width) {i x y : Nat}
    (h : crew.incident? task i = some (.stopped x y)) :
    (crew.step task i).Flawed (· = .cancelled) := by
  unfold incident? at h
  cases hget : crew.workers[i]? with
  | none =>
      rw [hget] at h
      cases h
  | some w =>
      rw [hget, Option.bind_some] at h
      have hi := (List.getElem?_eq_some_iff.mp hget).1
      -- Of all that a step can be, only a failure comes with this incident.
      have hmoves := Worker.step_moves task crew.shared
        (hinside w (List.mem_of_getElem? hget))
      rw [step_of_some hget]
      rw [h] at hmoves
      generalize w.step task crew.shared = next at hmoves
      cases hmoves with
      | fails incident w' cancel y' e hposition hstopped =>
          exact .inr ⟨w', List.mem_set hi _, y', e, hposition, hstopped x y rfl⟩

/-- What one step does to the account. -/
theorem Accounted.step {history : List Incident} {crew : Crew ρ}
    (h : crew.Accounted task.source history) (i : Nat) :
    (crew.step task i).Accounted task.source (history ++ (crew.incident? task i).toList) := by
  refine ⟨h.inside.step i, ?_, fun x y hmem => ?_⟩
  · rcases h.intact with hintact | hflawed
    · exact hintact.step h.inside i
    · exact .inr (hflawed.step h.inside i)
  · rcases List.mem_append.mp hmem with hold | hnew
    · exact (h.stopped x y hold).step h.inside i
    · exact flawed_of_stopped h.inside (Option.mem_toList.mp hnew)

/-- What a run does to the account. The induction is on the steps. -/
theorem Accounted.run {history : List Incident} {crew : Crew ρ}
    (h : crew.Accounted task.source history) (order : List Nat) :
    (crew.run task order).Accounted task.source (history ++ crew.incidents task order) := by
  induction order generalizing history crew with
  | nil =>
      simp only [incidents, List.append_nil]
      exact h
  | cons i order ih =>
      have hrest := ih (h.step i)
      rw [List.append_assoc] at hrest
      exact hrest

section Start

variable {workers : List (Except Error ρ × List Nat)}

/-- When no worker has begun, all pixels are left to do, if each row is given to one worker. -/
theorem start_accounted (cancel : Option CancelFlag)
    (hrows : (workers.map (·.2)).flatten.Perm (List.range task.source.height)) :
    (Crew.start task cancel workers).Accounted task.source [] := by
  have hready : ∀ w ∈ (Crew.start task cancel workers).workers, w.position = .between := by
    intro w hmem
    rcases List.mem_map.mp hmem with ⟨given, -, rfl⟩
    rfl
  -- What is left to do is the rows of all workers, pixel by pixel.
  have htodo : (Crew.start task cancel workers).todo task.source.width =
      (workers.map (·.2)).flatten.flatMap (Image.rowFrom task.source.width 0) := by
    unfold Crew.todo Crew.start
    dsimp only
    rw [List.flatMap_map, List.flatMap_def (l := workers), List.flatMap_def, List.map_flatten,
      List.flatten_flatten, List.map_map, List.map_map]
    rfl
  refine ⟨fun w hmem => ?_, .inl ⟨fun i hi => ?_, ?_, fun x y p hmem => ?_, rfl, rfl, rfl,
    fun w hmem => ?_⟩, fun x y hmem => ?_⟩
  · rw [hready w hmem]
    trivial
  · exact (List.not_mem_nil hi).elim
  · rw [htodo, Image.coordinates_eq]
    exact hrows.flatMap_right _
  · exact (List.not_mem_nil hmem).elim
  · rw [hready w hmem]
    rfl
  · exact (List.not_mem_nil hmem).elim

/-- When all workers are done, no error is on its way any more. -/
theorem Flawed.reported {P : Error → Prop} {crew : Crew ρ}
    (hdone : ∀ w ∈ crew.workers, w.rows = [] ∧ w.position = .between) (h : crew.Flawed P) :
    ∃ failure ∈ crew.shared.failures, P failure.2 := by
  rcases h with hreported | ⟨w, hmem, y, e, hposition, -⟩
  · exact hreported
  · rw [(hdone w hmem).2] at hposition
    cases hposition

/-- When all workers are done, nothing is left to do. -/
theorem todo_of_done {width : Nat} {crew : Crew ρ}
    (hdone : ∀ w ∈ crew.workers, w.rows = [] ∧ w.position = .between) : crew.todo width = [] := by
  unfold Crew.todo
  rw [List.flatMap_eq_nil_iff]
  intro w hmem
  rcases hdone w hmem with ⟨hrows, hposition⟩
  unfold Worker.todo
  rw [hrows, hposition]
  rfl

end Start

end Crew

namespace Shared

/-- With a failure there is no image. -/
theorem result_of_failure {s : Shared} {failure : Nat × Error} (h : failure ∈ s.failures) :
    ∃ e, s.result = .error e := by
  unfold result
  split
  · exact ⟨_, rfl⟩
  · have hspec := leastFailure_spec s.failures
    cases hleast : leastFailure s.failures with
    | none =>
        rw [hleast] at hspec
        rw [hspec] at h
        exact (List.not_mem_nil h).elim
    | some least => exact ⟨_, rfl⟩

/-- A stop among the failures outdoes the others. -/
theorem result_of_stop {s : Shared} {failure : Nat × Error} (h : failure ∈ s.failures)
    (hstop : failure.2 = .cancelled) : s.result = .error .cancelled := by
  unfold result
  rw [if_pos]
  refine List.any_eq_true.mpr ⟨failure, h, ?_⟩
  rw [hstop]
  rfl

/-- An image that comes out is the one that was written. -/
theorem image_of_result {s : Shared} {out : Image} (h : s.result = .ok out) : s.image = out := by
  unfold result at h
  split at h
  · cases h
  · split at h
    · cases h
    · exact Except.ok.inj h

end Shared

/-- Workers give an image only if they have transformed each pixel of it once, for all sandboxes or
    errors that they were given instead, and every order of steps. -/
theorem Crew.allOrNothing (task : Task ρ) (cancel : Option CancelFlag)
    (workers : List (Except Error ρ × List Nat)) (order : List Nat)
    (hrows : (workers.map (·.2)).flatten.Perm (List.range task.source.height)) :
    task.source.AllOrNothing ((Crew.start task cancel workers).history task order)
      (((Crew.start task cancel workers).run task order).finish task).shared.result := by
  -- The account is drawn up at the end, when all workers are done.
  have hended := ((start_accounted cancel hrows).run order).run
    (finishingOrder task ((Crew.start task cancel workers).run task order))
  rw [← finish_eq_run, List.nil_append] at hended
  have hdone := finish_isDone ((start_cost cancel hrows).run order)
  change Crew.Accounted _ ((Crew.start task cancel workers).history task order) _ at hended
  generalize (Crew.start task cancel workers).history task order = history at hended ⊢
  generalize ((Crew.start task cancel workers).run task order).finish task = crew at hended hdone ⊢
  have hcases : crew.Intact task.source history ∨ ∃ e, crew.shared.result = .error e := by
    rcases hended.intact with hintact | hflawed
    · exact .inl hintact
    · rcases hflawed.reported hdone with ⟨failure, hmem, -⟩
      exact .inr (Shared.result_of_failure hmem)
  refine ⟨fun out hout => ?_, fun i hi hfails => ?_, fun x y hmem => ?_⟩
  · rcases hcases with hintact | ⟨e, he⟩
    · have haccount := hintact.account
      rw [todo_of_done hdone, List.append_nil] at haccount
      rw [← Shared.image_of_result hout]
      refine ⟨hintact.width_eq, hintact.height_eq, haccount, fun x y r hmem => ?_⟩
      cases r with
      | ok p => exact ⟨p, rfl, hintact.written x y p hmem⟩
      | error e => cases hintact.clean _ hmem
    · rw [he] at hout
      cases hout
  · rcases hcases with hintact | hfailed
    · rw [hintact.clean i hi] at hfails
      cases hfails
    · exact hfailed
  · rcases (hended.stopped x y hmem).reported hdone with ⟨failure, hmem, hstop⟩
    exact Shared.result_of_stop hmem hstop

namespace Effect

/-! ## One after the other -/

/-- What a sweep leaves where it was not, and what it writes. -/
theorem sweep_image {session : Session} {todo : List (Nat × Nat)} {sandbox : ρ} {out out' : Image}
    (hnodup : todo.Nodup) (hinside : ∀ x y, (x, y) ∈ todo → x < out.width ∧ y < out.height)
    (h : (sweep task todo sandbox out).outcome session = .ok out') :
    out'.width = out.width ∧ out'.height = out.height ∧
      callsIn (sweepIncidents task todo sandbox session) = todo ∧
      (∀ x y r, .called x y r ∈ sweepIncidents task todo sandbox session →
        ∃ p, r = .ok p ∧ out'.get x y = p.rgba) ∧
      ∀ x y, x < out.width → (x, y) ∉ todo → out'.get x y = out.get x y := by
  induction todo generalizing session sandbox out with
  | nil =>
      cases h
      exact ⟨rfl, rfl, rfl, fun _ _ _ hmem => (List.not_mem_nil hmem).elim, fun _ _ _ _ => rfl⟩
  | cons c todo ih =>
      rcases c with ⟨x, y⟩
      rcases List.nodup_cons.mp hnodup with ⟨hnew, hrest⟩
      have hxy := hinside x y List.mem_cons_self
      rw [sweep] at h
      rw [sweepIncidents]
      rcases Operation.checkCancel_cases session with hstop | ⟨session', hgo⟩
      · rw [Operation.outcome_bind_error hstop] at h
        cases h
      rw [Operation.outcome_bind hgo] at h
      rw [hgo]
      dsimp only
      rcases hinv : task.invoke sandbox (task.source.pixel x y) with ⟨result, sandbox'⟩
      rw [hinv] at h
      cases result with
      | error e => cases h
      | ok p =>
          have h : (sweep task todo sandbox' (out.set x y p.rgba)).outcome session' = .ok out' := h
          have hinside' : ∀ x' y', (x', y') ∈ todo →
              x' < (out.set x y p.rgba).width ∧ y' < (out.set x y p.rgba).height :=
            fun x' y' hmem => hinside x' y' (List.mem_cons_of_mem _ hmem)
          rcases ih hrest hinside' h with
            ⟨hwidth, hheight, hcalls, hresults, hothers⟩
          -- The pixel is not written again, since it is not listed again.
          have hkept : out'.get x y = p.rgba := by
            rw [hothers x y hxy.1 hnew]
            exact Image.get_set_self out hxy.1 hxy.2 p.rgba
          refine ⟨hwidth, hheight, ?_, fun x' y' r hmem => ?_, fun x' y' hx' hmem => ?_⟩
          · exact congrArg ((x, y) :: ·) hcalls
          · rcases List.mem_cons.mp hmem with heq | hmem
            · cases heq
              exact ⟨p, rfl, hkept⟩
            · exact hresults x' y' r hmem
          · rw [hothers x' y' hx' (List.not_mem_of_not_mem_cons hmem)]
            exact Image.get_set_of_ne out hxy.1 hx' (List.ne_of_not_mem_cons hmem).symm p.rgba

/-- A sweep in which anything fails has no image, and one that was stopped says so. -/
theorem sweep_failure {session : Session} {todo : List (Nat × Nat)} {sandbox : ρ} {out : Image}
    {i : Incident} (hmem : i ∈ sweepIncidents task todo sandbox session) (hfails : i.fails = true) :
    (∃ e, (sweep task todo sandbox out).outcome session = .error e) ∧
      ∀ x y, i = .stopped x y → (sweep task todo sandbox out).outcome session = .error .cancelled := by
  induction todo generalizing session sandbox out with
  | nil => exact (List.not_mem_nil hmem).elim
  | cons c todo ih =>
      rcases c with ⟨x, y⟩
      rw [sweepIncidents] at hmem
      rw [sweep]
      rcases Operation.checkCancel_cases session with hstop | ⟨session', hgo⟩
      · rw [Operation.outcome_bind_error hstop]
        exact ⟨⟨_, rfl⟩, fun _ _ _ => rfl⟩
      rw [hgo] at hmem
      rw [Operation.outcome_bind hgo]
      dsimp only at hmem ⊢
      rcases hinv : task.invoke sandbox (task.source.pixel x y) with ⟨result, sandbox'⟩
      rw [hinv] at hmem
      cases result with
      | error e =>
          -- The only incident is the call that failed.
          rw [List.mem_singleton.mp hmem]
          exact ⟨⟨e, rfl⟩, fun _ _ h => by cases h⟩
      | ok p =>
          rcases List.mem_cons.mp hmem with heq | hmem
          · rw [heq] at hfails
            cases hfails
          · exact ih hmem

/-- One sandbox gives an image only if it has transformed each pixel of it once. -/
theorem sweep_allOrNothing (task : Task ρ) (sandbox : ρ) (session : Session) :
    task.source.AllOrNothing
      (sweepIncidents task (Image.coordinates task.source.width task.source.height) sandbox session)
      ((sweep task (Image.coordinates task.source.width task.source.height) sandbox
        (.blank task.source.width task.source.height)).outcome session) := by
  refine ⟨fun out hout => ?_, fun i hi hfails => (sweep_failure hi hfails).1, fun x y hmem => ?_⟩
  · have hinside : ∀ x y, (x, y) ∈ Image.coordinates task.source.width task.source.height →
        x < (Image.blank task.source.width task.source.height).width ∧
          y < (Image.blank task.source.width task.source.height).height :=
      fun x y hmem => Image.mem_coordinates.mp hmem
    rcases sweep_image (Image.nodup_coordinates _ _) hinside hout with
      ⟨hwidth, hheight, hcalls, hresults, -⟩
    exact ⟨hwidth, hheight, by rw [hcalls], hresults⟩
  · exact (sweep_failure hmem rfl).2 x y rfl

/-! ## Any way -/

/-- Every worker is given its rows, with a sandbox or with the error that there is instead. -/
theorem spawnAll_rows (effect : Effect) (rows : List (List Nat)) (session : Session) :
    ∃ workers session', spawnAll effect rows session = .ok workers session' ∧
      workers.map (·.2) = rows := by
  induction rows generalizing session with
  | nil => exact ⟨[], session, rfl, rfl⟩
  | cons first rows ih =>
      -- An attempt gives the error to the worker and does not end the loop.
      have hone : ∃ sandbox s, Operation.attempt effect.spawn session = .ok sandbox s := by
        unfold Operation.attempt
        cases effect.spawn session with
        | ok sandbox s => exact ⟨_, _, rfl⟩
        | error e s => exact ⟨_, _, rfl⟩
      rcases hone with ⟨sandbox, s, hsandbox⟩
      rcases ih s with ⟨workers, s', hworkers, hgiven⟩
      refine ⟨(sandbox, first) :: workers, s', ?_, by rw [List.map_cons, hgiven]⟩
      simp only [spawnAll, bind, EStateM.bind]
      rw [hsandbox]
      dsimp only
      rw [hworkers]
      rfl

/-- An application that ends before anything is done to a pixel has an error, or the image has no
    pixels. -/
theorem allOrNothing_nil {source : Image} {outcome : Except Error Image}
    (h : ∀ out, outcome = .ok out → out.width = source.width ∧ out.height = source.height ∧
      source.isEmpty = true) : source.AllOrNothing [] outcome := by
  refine ⟨fun out hout => ?_, fun _ hmem => (List.not_mem_nil hmem).elim,
    fun _ _ hmem => (List.not_mem_nil hmem).elim⟩
  rcases h out hout with ⟨hwidth, hheight, hempty⟩
  refine ⟨hwidth, hheight, ?_, fun _ _ _ hmem => (List.not_mem_nil hmem).elim⟩
  -- An image without columns or without rows has no coordinates.
  have hnone : Image.coordinates source.width source.height = [] := by
    refine List.eq_nil_iff_forall_not_mem.mpr fun c hmem => ?_
    rcases c with ⟨x, y⟩
    rcases Image.mem_coordinates.mp hmem with ⟨hx, hy⟩
    unfold Image.isEmpty at hempty
    rcases Bool.or_eq_true_iff.mp hempty with hzero | hzero
    · rw [beq_iff_eq.mp hzero] at hx
      exact Nat.not_lt_zero x hx
    · rw [beq_iff_eq.mp hzero] at hy
      exact Nat.not_lt_zero y hy
  rw [hnone]
  exact List.Perm.nil

/-- An image comes out only if every pixel of it was transformed once and successfully, and it holds
    each result at its own coordinate. Where a row was skipped, left because of a failure or of the
    flag, or had no sandbox to be transformed in, there is an error, and it is the stop if the flag
    was found set. This holds of workers with whatever they were given for a sandbox, for any task,
    division of the rows and order of steps, and so of every effect that is applied, with workers and
    without. -/
theorem apply_allOrNothing :
    (∀ {ρ : Type} (task : Task ρ) (cancel : Option CancelFlag)
      (workers : List (Except Error ρ × List Nat)) (order : List Nat),
      (workers.map (·.2)).flatten.Perm (List.range task.source.height) →
      task.source.AllOrNothing ((Crew.start task cancel workers).history task order)
        (((Crew.start task cancel workers).run task order).finish task).shared.result) ∧
    ∀ (effect : Effect) (options : ApplyOptions) (source : Image) (session : Session),
      (options.plan.rows source.height).flatten.Perm (List.range source.height) →
      source.AllOrNothing (effect.history options source session)
        ((effect.apply options source).outcome session) := by
  refine ⟨fun task cancel workers order hrows => Crew.allOrNothing task cancel workers order hrows,
    fun effect options source session hrows => ?_⟩
  unfold apply history
  dsimp only
  -- No image comes out without threads, and there is nothing to do without pixels.
  by_cases hthreads : (options.threads == some 0) = true
  · rw [if_pos hthreads, if_pos (by rw [hthreads, Bool.true_or])]
    exact allOrNothing_nil fun out hout => by cases hout
  rw [if_neg hthreads]
  by_cases hempty : source.isEmpty = true
  · rw [if_pos hempty, if_pos (by rw [hempty, Bool.or_true])]
    refine allOrNothing_nil fun out hout => ?_
    cases hout
    exact ⟨rfl, rfl, hempty⟩
  have hgoes : ¬ (options.threads == some 0 || source.isEmpty) = true := by
    rw [Bool.or_eq_true_iff]
    exact fun h => h.elim hthreads hempty
  rw [if_neg hempty, if_neg hgoes]
  by_cases hparallel : options.parallel = true
  · rw [if_pos hparallel, if_pos hparallel]
    unfold applyParallel Plan.buildPool
    cases options.plan.pool options.threads with
    | error cause => exact allOrNothing_nil fun out hout => by cases hout
    | ok _ =>
        rcases spawnAll_rows effect (options.plan.rows source.height) session with
          ⟨workers, session', hworkers, hgiven⟩
        have hrun : (effect.runWorkers options.plan source).outcome session = _ :=
          Operation.outcome_bind hworkers
        change source.AllOrNothing _ ((effect.runWorkers options.plan source).outcome session)
        rw [hrun, Operation.outcome_sharing, hworkers]
        rw [← hgiven] at hrows
        exact Crew.allOrNothing (effect.task source) session'.cancel workers options.plan.order
          hrows
  · rw [if_neg hparallel, if_neg hparallel]
    -- In sequence there is one sandbox, and the sweep goes through all rows.
    cases hspawn : effect.spawn session with
    | ok sandbox session' =>
        have hrun : (effect.applySequential source).outcome session = _ :=
          Operation.outcome_bind hspawn
        rw [hrun]
        exact sweep_allOrNothing (effect.task source) sandbox session'
    | error e session' =>
        have hrun : (effect.applySequential source).outcome session = _ :=
          Operation.outcome_bind_error hspawn
        rw [hrun]
        exact allOrNothing_nil fun out hout => by cases hout

/-- Two workers of which one has no sandbox, and two workers with a flag that is set on the way. -/
theorem apply_allOrNothing_two_workers :
    [[1], [0]].flatten.Perm (List.range 2) ∧
      Image.AllOrNothing (.gradient 2)
        ((Crew.start (keepEffect.task (.gradient 2)) none
          [(.error (Worker.notStarted "keep"), [1]), (.error .cancelled, [0])]).history
            (keepEffect.task (.gradient 2)) [0, 1, 1, 0])
        (((Crew.start (keepEffect.task (.gradient 2)) none
          [(.error (Worker.notStarted "keep"), [1]), (.error .cancelled, [0])]).run
            (keepEffect.task (.gradient 2)) [0, 1, 1, 0]).finish
              (keepEffect.task (.gradient 2))).shared.result ∧
      Image.AllOrNothing (.gradient 2)
        (keepEffect.history ⟨true, none, .pooled (fun _ => [[1], [0]]) [0, 0, 1, 0]⟩ (.gradient 2)
          ⟨none, some ⟨some 2⟩⟩)
        ((keepEffect.apply ⟨true, none, .pooled (fun _ => [[1], [0]]) [0, 0, 1, 0]⟩
          (.gradient 2)).outcome ⟨none, some ⟨some 2⟩⟩) := by
  have hrows : [[1], [0]].flatten.Perm (List.range 2) := by decide
  exact ⟨hrows, apply_allOrNothing.1 (keepEffect.task (.gradient 2)) none
      [(.error (Worker.notStarted "keep"), [1]), (.error .cancelled, [0])] [0, 1, 1, 0] hrows,
    apply_allOrNothing.2 keepEffect ⟨true, none, .pooled (fun _ => [[1], [0]]) [0, 0, 1, 0]⟩
      (.gradient 2) ⟨none, some ⟨some 2⟩⟩ hrows⟩

end Effect

end PixelEffects
