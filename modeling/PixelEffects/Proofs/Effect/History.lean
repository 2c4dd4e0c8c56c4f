import PixelEffects.Proofs.Effect.Schedule

/-!
# Histories

What happened to the pixels of an image while an effect was applied.

The result of an application does not say which pixels were transformed and how often, and an image
without errors could be one in which a row was left out. The history says it. It is read off the run
from outside: each step of a worker is looked at before it is taken, and what it is about to do to a
pixel or a row is noted. Nothing in a run depends on it.

A step that only moves on has no incident. The others are those that could spoil an image, and the
calls, which make it.

## Main definitions

* `Incident`: What can happen to a pixel or a row.
* `callsIn`: The coordinates of the pixels that were transformed, in the order of the calls.
* `Worker.incident?`, `Crew.incidents`, `Crew.history`: What happens while workers run.
* `Effect.sweepIncidents`, `Effect.history`: What happens while an effect is applied.

## Theorems

* `Worker.step_moves`: All that a step of a worker can do.
* `Crew.finish_eq_run`: Finishing is a run as well.
-/

namespace PixelEffects

/-- What can happen to a pixel or a row. -/
inductive Incident
  | called (x y : Nat) (result : Except Error Pixel)
  | stopped (x y : Nat)
  | skipped (y : Nat)
  | stranded (y : Nat) (e : Error)

namespace Incident

/-- Whether an incident leaves a pixel untransformed: the effect failed on it, or its row was cut
    short, skipped, or begun by a worker without a sandbox. -/
def fails : Incident → Bool
  | called _ _ (.ok _) => false
  | _ => true

/-- The coordinate of the pixel that was transformed, or was to be. -/
def call? : Incident → Option (Nat × Nat)
  | called x y _ => some (x, y)
  | _ => none

end Incident

/-- The coordinates of all pixels that the effect was invoked on, once for each time. -/
def callsIn (history : List Incident) : List (Nat × Nat) :=
  history.filterMap Incident.call?

variable {ρ : Type}

namespace Worker

/-- What a worker is about to do to a pixel or a row, when it takes its next step. -/
def incident? (task : Task ρ) (w : Worker ρ) (s : Shared) : Option Incident :=
  match w with
  | ⟨_, [], .between⟩ => none
  | ⟨sandbox, y :: _, .between⟩ =>
    if s.skips y then some (.skipped y)
    else
      match sandbox with
      | .ok _ => none
      | .error e => some (.stranded y e)
  | ⟨_, _, .before x y⟩ =>
    if x < task.source.width && s.checkFlag.1 then some (.stopped x y) else none
  | ⟨.ok sandbox, _, .inside x y⟩ =>
    some (.called x y (task.invoke sandbox (task.source.pixel x y)).1)
  | ⟨.error e, _, .inside _ y⟩ => some (.stranded y e)
  | ⟨_, _, .leaving _ _⟩ => none

end Worker

namespace Crew

/-- What happens when one of the workers takes its next step. -/
def incident? (task : Task ρ) (crew : Crew ρ) (i : Nat) : Option Incident :=
  (crew.workers[i]?).bind fun w => w.incident? task crew.shared

/-- What happens while workers take steps in an order. -/
def incidents (task : Task ρ) (crew : Crew ρ) : List Nat → List Incident
  | [] => []
  | i :: order => (crew.incident? task i).toList ++ incidents task (crew.step task i) order

/-- The order in which workers finish, one after the other. -/
def finishingOrder (task : Task ρ) (crew : Crew ρ) : List Nat :=
  (List.range crew.workers.length).flatMap
    (List.replicate (Worker.enoughSteps task.source.width task.source.height))

/-- What happens while workers take steps in an order and then finish. -/
def history (task : Task ρ) (crew : Crew ρ) (order : List Nat) : List Incident :=
  crew.incidents task order ++
    (crew.run task order).incidents task (finishingOrder task (crew.run task order))

end Crew

namespace Effect

/-- What happens while pixels are transformed one after the other. -/
def sweepIncidents (task : Task ρ) : List (Nat × Nat) → ρ → Session → List Incident
  | [], _, _ => []
  | (x, y) :: rest, sandbox, session =>
    match Operation.checkCancel session with
    | .error _ _ => [.stopped x y]
    | .ok _ session =>
      match task.invoke sandbox (task.source.pixel x y) with
      | (.ok p, sandbox) => .called x y (.ok p) :: sweepIncidents task rest sandbox session
      | (.error e, _) => [.called x y (.error e)]

/-- What happens to the pixels of an image while an effect is applied to it. -/
def history (effect : Effect) (options : ApplyOptions) (source : Image) (session : Session) :
    List Incident :=
  let task := effect.task source
  if options.threads == some 0 || source.isEmpty then []
  else if options.parallel then
    match options.plan.pool options.threads with
    | .error _ => []
    | .ok _ =>
      match spawnAll effect (options.plan.rows source.height) session with
      | .ok workers session =>
        (Crew.start task session.cancel workers).history task options.plan.order
      | .error _ _ => []
  else
    match effect.spawn session with
    | .ok sandbox session =>
      sweepIncidents task (Image.coordinates source.width source.height) sandbox session
    | .error _ _ => []

end Effect

/-! ## Steps -/

namespace Image

/-- The coordinates of a row from a column on. -/
def rowFrom (width x y : Nat) : List (Nat × Nat) :=
  (List.range' x (width - x)).map fun x => (x, y)

theorem rowFrom_of_lt {width x : Nat} (h : x < width) (y : Nat) :
    rowFrom width x y = (x, y) :: rowFrom width (x + 1) y := by
  unfold rowFrom
  have hlength : width - x = (width - (x + 1)) + 1 := by omega
  rw [hlength, List.range'_succ, List.map_cons]

theorem rowFrom_of_le {width x : Nat} (h : width ≤ x) (y : Nat) : rowFrom width x y = [] := by
  unfold rowFrom
  rw [Nat.sub_eq_zero_of_le h]
  rfl

/-- The coordinates of an image are those of all its rows from the first column on. -/
theorem coordinates_eq (width height : Nat) :
    coordinates width height = (List.range height).flatMap (rowFrom width 0) := by
  unfold coordinates rowFrom
  simp only [List.range_eq_range', Nat.sub_zero]

end Image

/-- The pixels of the row that a worker is in which it has not transformed. A row that it is about to
    leave with an error has none that it will transform. -/
def Position.todo (width : Nat) : Position → List (Nat × Nat)
  | between => []
  | before x y => Image.rowFrom width x y
  | inside x y => Image.rowFrom width x y
  | leaving _ _ => []

/-- Where a worker that is at a pixel may be: inside the image. -/
def Position.Inside (width : Nat) : Position → Prop
  | inside x _ => x < width
  | _ => True

/-- Whether a worker is about to report an error. -/
def Position.isLeaving : Position → Bool
  | leaving _ _ => true
  | _ => false

namespace Worker

/-- The pixels that a worker is to transform and has not. -/
def todo (width : Nat) (w : Worker ρ) : List (Nat × Nat) :=
  w.position.todo width ++ w.rows.flatMap (Image.rowFrom width 0)

/-- All that a step of a worker can do, when it is inside the image. It moves on, it writes the result
    for a pixel that it had to transform, it turns away from its row because of an error, it skips a
    row, or it reports the error. Only of a row that was stopped it is said here what the error is. -/
inductive Moves (width : Nat) (w : Worker ρ) (s : Shared) :
    Option Incident → Worker ρ × Shared → Prop
  | on (w' : Worker ρ) (cancel : Option CancelFlag) (htodo : w'.todo width = w.todo width)
      (hinside : w'.position.Inside width) (hstays : w'.position.isLeaving = false) :
      Moves width w s none (w', { s with cancel := cancel })
  | writes (w' : Worker ρ) (x y : Nat) (p : Pixel)
      (htodo : w.todo width = (x, y) :: w'.todo width) (hinside : w'.position.Inside width)
      (hstays : w'.position.isLeaving = false) :
      Moves width w s (some (.called x y (.ok p))) (w', s.put x y p.rgba)
  | fails (i : Incident) (w' : Worker ρ) (cancel : Option CancelFlag) (y : Nat) (e : Error)
      (hposition : w'.position = .leaving y e)
      (hstopped : ∀ x y, i = .stopped x y → e = .cancelled) :
      Moves width w s (some i) (w', { s with cancel := cancel })
  | skips (w' : Worker ρ) (y : Nat) (hfailed : s.failedRow ≠ none)
      (hposition : w'.position = .between) : Moves width w s (some (.skipped y)) (w', s)
  | reports (w' : Worker ρ) (y : Nat) (e : Error) (hleaving : w.position = .leaving y e)
      (hposition : w'.position = .between) : Moves width w s none (w', s.report y e)

variable {task : Task ρ}

theorem begin_moves (sandbox : Except Error ρ) (rows : List Nat) (y : Nat) (s : Shared) :
    Moves task.source.width ⟨sandbox, y :: rows, .between⟩ s
      (incident? task ⟨sandbox, y :: rows, .between⟩ s) (begin task sandbox rows y s) := by
  unfold begin incident?
  dsimp only
  by_cases hskip : s.skips y = true
  · rw [if_pos hskip, if_pos hskip]
    refine .skips _ y (fun hnone => ?_) rfl
    -- Without a failed row nothing is skipped.
    unfold Shared.skips at hskip
    rw [hnone] at hskip
    cases hskip
  · rw [if_neg hskip, if_neg hskip]
    cases sandbox with
    | ok r =>
        -- The row that is begun moves from the list of rows into the position.
        refine .on _ s.cancel ?_ trivial rfl
        simp only [todo, Position.todo, List.flatMap_cons, List.nil_append]
    | error e => exact .fails _ _ s.cancel y e rfl fun _ _ h => by cases h

theorem approach_moves (sandbox : Except Error ρ) (rows : List Nat) (x y : Nat) (s : Shared) :
    Moves task.source.width ⟨sandbox, rows, .before x y⟩ s
      (incident? task ⟨sandbox, rows, .before x y⟩ s) (approach task sandbox rows x y s) := by
  have hcase : incident? task ⟨sandbox, rows, .before x y⟩ s =
      if x < task.source.width && s.checkFlag.1 then some (.stopped x y) else none := by
    cases sandbox <;> cases rows <;> rfl
  rw [hcase]
  unfold approach
  by_cases hlt : x < task.source.width
  · rw [if_pos hlt, decide_eq_true hlt, Bool.true_and]
    -- Looking at the flag changes nothing but the flag.
    have hcheck : ∃ cancel, s.checkFlag.2 = { s with cancel := cancel } := by
      rcases s with ⟨image, _ | flag, failedRow, failures⟩
      · exact ⟨none, rfl⟩
      · exact ⟨some flag.next, rfl⟩
    rcases hcheck with ⟨cancel, hcancel⟩
    rcases hset : s.checkFlag with ⟨isSet, s'⟩
    rw [hset] at hcancel
    dsimp only at hcancel
    subst hcancel
    cases isSet with
    | true =>
        rw [if_pos rfl]
        exact .fails _ _ cancel y .cancelled rfl fun _ _ _ => rfl
    | false =>
        rw [if_neg Bool.false_ne_true]
        exact .on _ cancel rfl hlt rfl
  · rw [if_neg hlt, decide_eq_false hlt, Bool.false_and, if_neg Bool.false_ne_true]
    -- At the end of a row nothing is left of it.
    refine .on _ s.cancel ?_ trivial rfl
    simp only [todo, Position.todo, Image.rowFrom_of_le (Nat.le_of_not_lt hlt)]

theorem transform_moves (sandbox : Except Error ρ) (rows : List Nat) {x : Nat} (y : Nat)
    (hx : x < task.source.width) (s : Shared) :
    Moves task.source.width ⟨sandbox, rows, .inside x y⟩ s
      (incident? task ⟨sandbox, rows, .inside x y⟩ s) (transform task sandbox rows x y s) := by
  unfold transform
  cases sandbox with
  | error e =>
      have hcase : incident? task ⟨.error e, rows, .inside x y⟩ s = some (.stranded y e) := by
        cases rows <;> rfl
      rw [hcase]
      exact .fails _ _ s.cancel y e rfl fun _ _ h => by cases h
  | ok r =>
      have hcase : incident? task ⟨.ok r, rows, .inside x y⟩ s =
          some (.called x y (task.invoke r (task.source.pixel x y)).1) := by
        cases rows <;> rfl
      rw [hcase]
      dsimp only
      rcases task.invoke r (task.source.pixel x y) with ⟨result, r'⟩
      cases result with
      | ok p =>
          refine .writes _ x y p ?_ trivial rfl
          simp only [todo, Position.todo, Image.rowFrom_of_lt hx, List.cons_append]
      | error e => exact .fails _ _ s.cancel y e rfl fun _ _ h => by cases h

/-- What a step of a worker that is inside the image does, and its incident. -/
theorem step_moves (task : Task ρ) {w : Worker ρ} (s : Shared)
    (hinside : w.position.Inside task.source.width) :
    Moves task.source.width w s (w.incident? task s) (w.step task s) := by
  rcases w with ⟨sandbox, rows, position⟩
  cases position with
  | between =>
      cases rows with
      | nil => exact .on _ s.cancel rfl trivial rfl
      | cons y rows => exact begin_moves sandbox rows y s
  | before x y =>
      rw [step_before]
      exact approach_moves sandbox rows x y s
  | inside x y =>
      rw [step_inside]
      exact transform_moves sandbox rows y hinside s
  | leaving y e =>
      have hcase : incident? task ⟨sandbox, rows, .leaving y e⟩ s = none := by
        cases sandbox <;> cases rows <;> rfl
      rw [step_leaving, hcase]
      exact .reports _ y e rfl rfl

end Worker

namespace Crew

variable {task : Task ρ}

theorem run_append (crew : Crew ρ) (order later : List Nat) :
    crew.run task (order ++ later) = (crew.run task order).run task later := by
  unfold run
  rw [List.foldl_append]

theorem runAlone_eq_run (i n : Nat) (crew : Crew ρ) :
    runAlone task i n crew = crew.run task (List.replicate n i) := by
  induction n generalizing crew with
  | zero => rfl
  | succ n ih =>
      rw [runAlone, ih]
      rfl

/-- Finishing is a run in an order in which each worker has its turn. -/
theorem finish_eq_run (crew : Crew ρ) :
    crew.finish task = crew.run task (finishingOrder task crew) := by
  have hfirst : ∀ steps n, finishFirst task steps n crew =
      crew.run task ((List.range n).flatMap (List.replicate steps)) := by
    intro steps n
    induction n with
    | zero => rfl
    | succ n ih =>
        rw [finishFirst, runAlone_eq_run, ih, ← run_append, List.range_succ, List.flatMap_append]
        simp only [List.flatMap_cons, List.flatMap_nil, List.append_nil]
  exact hfirst _ _

end Crew

end PixelEffects
