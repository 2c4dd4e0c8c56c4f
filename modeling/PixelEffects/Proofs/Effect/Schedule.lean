import PixelEffects.Proofs.Effect.Pixelwise

/-!
# Workers in Any Order

What comes out when workers share the rows of an image does not depend on how they run.

Every way of running is a list that says which worker takes the next step, so the invariant has to
survive a step of any worker at any time. It has three parts. What is shared is sound: a pixel that
is written is what it comes to, a reported failure is the first one of its row, and the row below
which nothing is begun any more is one with a reported failure. Each worker is where its position
says, with everything to the left of it written. And each row of the image is still to be done by
some worker, or it is *settled*: all of it is written, or a failure in it or below it was reported.

Settled is the part that makes skipping harmless. A row is skipped only if a lower one has failed,
and the reported failure of that row settles it. When nothing is left to do, all rows are settled,
so the rows below the lowest reported failure are all written, and that failure is the first of the
image.

The other workers keep what they know while one takes a step, because what is shared only grows.
That two workers could write one pixel is no exception, since both would write the same.

## Main definitions

* `Image.RowFails`: The first failure of a row.
* `Shared.Sound`, `Shared.Settled`, `Shared.Grows`: What holds of what is shared.
* `Worker.Pends`, `Worker.OnTrack`: What holds of a worker.
* `Worker.Advances`: What a step of a worker brings.
* `Crew.Invariant`: What holds of all of it at each moment.
* `Worker.cost`, `Crew.WithinCost`: An upper bound for the steps that a worker has left.

## Theorems

* `Worker.step_advances`: What one step brings.
* `Crew.Invariant.step`, `Crew.Invariant.run`, `Crew.Invariant.finish`: The invariant holds always.
* `Worker.cost_step`, `Crew.finish_isDone`: All workers finish.
* `Shared.result_transforms`: With every row settled, the result is what the image comes to.
* `Crew.result_transforms`: So it is for every order of steps.
-/

namespace PixelEffects

variable {ρ : Type} {task : Task ρ} {f : Pixel → Except Error Pixel} {good : ρ → Prop}
variable {source : Image}

namespace Image

/-- A row has a pixel that fails, and this is the error of the first one. -/
def RowFails (f : Pixel → Except Error Pixel) (source : Image) (y : Nat) (e : Error) : Prop :=
  ∃ x, x < source.width ∧ f (source.pixel x y) = .error e ∧
    ∀ x', x' < x → ∃ p, f (source.pixel x' y) = .ok p

/-- The pixels of a row to the left of a column are written. -/
def WrittenUpTo (f : Pixel → Except Error Pixel) (source out : Image) (x y : Nat) : Prop :=
  ∀ x', x' < x → Written f source out x' y

end Image

namespace Shared

/-- What is shared is right as far as it goes. -/
structure Sound (f : Pixel → Except Error Pixel) (source : Image) (s : Shared) : Prop where
  width_eq : s.image.width = source.width
  height_eq : s.image.height = source.height
  unset : CancelFlag.Unset s.cancel
  failure : ∀ y e, (y, e) ∈ s.failures → y < source.height ∧ source.RowFails f y e
  failedRow : ∀ y, s.failedRow = some y → ∃ e, (y, e) ∈ s.failures

/-- A row that needs no more work: it is written, or a failure in it or below it is reported. -/
def Settled (f : Pixel → Except Error Pixel) (source : Image) (s : Shared) (y : Nat) : Prop :=
  source.WrittenUpTo f s.image source.width y ∨ ∃ y' e, (y', e) ∈ s.failures ∧ y' ≤ y

/-- Nothing that was written or reported is lost. -/
structure Grows (f : Pixel → Except Error Pixel) (source : Image) (s s' : Shared) : Prop where
  written : ∀ x y, x < source.width → source.Written f s.image x y → source.Written f s'.image x y
  failures : ∀ failure ∈ s.failures, failure ∈ s'.failures

namespace Grows

theorem refl (s : Shared) : Grows f source s s :=
  ⟨fun _ _ _ h => h, fun _ h => h⟩

theorem writtenUpTo {s s' : Shared} (hg : Grows f source s s') {x y : Nat}
    (hx : x ≤ source.width) (h : source.WrittenUpTo f s.image x y) :
    source.WrittenUpTo f s'.image x y :=
  fun x' hx' => hg.written x' y (by omega) (h x' hx')

theorem settled {s s' : Shared} (hg : Grows f source s s') {y : Nat}
    (h : Settled f source s y) : Settled f source s' y := by
  rcases h with hw | ⟨y', e, hmem, hle⟩
  · exact .inl (hg.writtenUpTo (Nat.le_refl _) hw)
  · exact .inr ⟨y', e, hg.failures _ hmem, hle⟩

end Grows

/-- Looking at an unset flag finds it unset and changes nothing. -/
theorem checkFlag_unset {s : Shared} (h : CancelFlag.Unset s.cancel) :
    s.checkFlag = (false, s) := by
  rcases s with ⟨image, cancel, failedRow, failures⟩
  cases cancel with
  | none => rfl
  | some flag =>
      rcases flag with ⟨after⟩
      -- An unset flag has no moment at which it is set, so looking at it does not count down.
      have hafter : after = none := h _ rfl
      subst hafter
      rfl

/-- A row that is skipped is settled. -/
theorem settled_of_skips {s : Shared} (hs : s.Sound f source) {y : Nat} (h : s.skips y = true) :
    Settled f source s y := by
  unfold skips at h
  cases hrow : s.failedRow with
  | none =>
      rw [hrow] at h
      cases h
  | some y' =>
      rw [hrow] at h
      -- Only a row above the lowest failed one is skipped, so that failure settles it.
      have hlt : y' < y := of_decide_eq_true h
      rcases hs.failedRow y' hrow with ⟨e, hmem⟩
      exact .inr ⟨y', e, hmem, Nat.le_of_lt hlt⟩

/-- Writing what a pixel comes to keeps everything right, and loses nothing. -/
theorem put_sound {s : Shared} (hs : s.Sound f source) (x y : Nat) (c : Rgba) :
    (s.put x y c).Sound f source :=
  ⟨hs.width_eq, hs.height_eq, hs.unset, hs.failure, hs.failedRow⟩

theorem put_grows {s : Shared} (hs : s.Sound f source) {x y : Nat} {p : Pixel}
    (hx : x < source.width) (hy : y < source.height) (hp : f (source.pixel x y) = .ok p) :
    Grows f source s (s.put x y p.rgba) := by
  -- If the pixel is written twice, both times it gets what it comes to.
  refine ⟨fun x' y' hx' h => ?_, fun _ h => h⟩
  rw [← hs.width_eq] at hx hx'
  rw [← hs.height_eq] at hy
  exact h.set hx hy hx' hp

/-- After writing a pixel, it is written. -/
theorem put_written {s : Shared} (hs : s.Sound f source) {x y : Nat} {p : Pixel}
    (hx : x < source.width) (hy : y < source.height) (hp : f (source.pixel x y) = .ok p) :
    source.Written f (s.put x y p.rgba).image x y := by
  rw [← hs.width_eq] at hx
  rw [← hs.height_eq] at hy
  exact Image.written_set_self hx hy hp

/-- Reporting the first failure of a row keeps everything right. The lowest failed row is the one
    that was reported now or the one that was lowest before. -/
theorem report_sound {s : Shared} (hs : s.Sound f source) {y : Nat} {e : Error}
    (hy : y < source.height) (he : source.RowFails f y e) : (s.report y e).Sound f source := by
  refine ⟨hs.width_eq, hs.height_eq, hs.unset, fun y' e' hmem => ?_, fun m hm => ?_⟩
  · rcases List.mem_append.mp hmem with hold | hnew
    · exact hs.failure y' e' hold
    · cases List.mem_singleton.mp hnew
      exact ⟨hy, he⟩
  · unfold report at hm ⊢
    cases hrow : s.failedRow with
    | none =>
        rw [hrow] at hm
        cases hm
        exact ⟨e, List.mem_append_right _ (List.mem_singleton.mpr rfl)⟩
    | some y' =>
        rw [hrow] at hm
        -- Either of the two rows may be the lower one now.
        have hmin : min y y' = m := Option.some.inj hm
        rcases Nat.le_total y y' with hle | hle
        · rw [Nat.min_eq_left hle] at hmin
          subst hmin
          exact ⟨e, List.mem_append_right _ (List.mem_singleton.mpr rfl)⟩
        · rw [Nat.min_eq_right hle] at hmin
          subst hmin
          rcases hs.failedRow y' hrow with ⟨e', hmem⟩
          exact ⟨e', List.mem_append_left _ hmem⟩

theorem report_grows (s : Shared) (y : Nat) (e : Error) : Grows f source s (s.report y e) :=
  ⟨fun _ _ _ h => h, fun _ h => List.mem_append_left _ h⟩

theorem report_settles (s : Shared) (y : Nat) (e : Error) :
    Settled f source (s.report y e) y :=
  .inr ⟨y, e, List.mem_append_right _ (List.mem_singleton.mpr rfl), Nat.le_refl y⟩

end Shared

/-- The row that a worker is in. -/
def Position.row? : Position → Option Nat
  | between => none
  | before _ y => some y
  | inside _ y => some y
  | leaving y _ => some y

/-- An upper bound for the steps that are left in a row of a width. -/
def Position.cost (width : Nat) : Position → Nat
  | between => 0
  | before x _ => 2 * (width - x) + 1
  | inside x _ => 2 * (width - (x + 1)) + 2
  | leaving _ _ => 1

/-- A position is inside the image, and what is to the left of it is written. Where a row is left,
    it is because of its first failure. -/
def Position.OnTrack (f : Pixel → Except Error Pixel) (source : Image) (s : Shared) :
    Position → Prop
  | between => True
  | before x y => x ≤ source.width ∧ y < source.height ∧ source.WrittenUpTo f s.image x y
  | inside x y => x < source.width ∧ y < source.height ∧ source.WrittenUpTo f s.image x y
  | leaving y e => y < source.height ∧ source.RowFails f y e

namespace Worker

/-- A worker has a row to do, or is doing it. -/
def Pends (w : Worker ρ) (y : Nat) : Prop :=
  y ∈ w.rows ∨ w.position.row? = some y

/-- A worker has a good sandbox, rows of the image, and is where its position says. -/
structure OnTrack (f : Pixel → Except Error Pixel) (source : Image) (good : ρ → Prop)
    (s : Shared) (w : Worker ρ) : Prop where
  sandbox : ∃ sandbox, w.sandbox = .ok sandbox ∧ good sandbox
  rows : ∀ y ∈ w.rows, y < source.height
  position : w.position.OnTrack f source s

/-- A worker stays on track while others take steps. -/
theorem OnTrack.grows {s s' : Shared} {w : Worker ρ} (h : w.OnTrack f source good s)
    (hg : Shared.Grows f source s s') : w.OnTrack f source good s' := by
  refine ⟨h.sandbox, h.rows, ?_⟩
  have hpos := h.position
  cases hw : w.position with
  | between => trivial
  | before x y =>
      rw [hw] at hpos
      exact ⟨hpos.1, hpos.2.1, hg.writtenUpTo hpos.1 hpos.2.2⟩
  | inside x y =>
      rw [hw] at hpos
      exact ⟨hpos.1, hpos.2.1, hg.writtenUpTo (Nat.le_of_lt hpos.1) hpos.2.2⟩
  | leaving y e =>
      rw [hw] at hpos
      exact hpos

/-- What a step of a worker brings: all is right, nothing is lost, and a row that the worker does
    not have any more is settled. -/
structure Advances (f : Pixel → Except Error Pixel) (source : Image) (good : ρ → Prop)
    (w : Worker ρ) (s : Shared) (next : Worker ρ × Shared) : Prop where
  sound : next.2.Sound f source
  onTrack : next.1.OnTrack f source good next.2
  grows : s.Grows f source next.2
  pends : ∀ y, w.Pends y → next.1.Pends y ∨ next.2.Settled f source y

theorem begin_advances {s : Shared} (hs : s.Sound f source) {sandbox : Except Error ρ}
    {rows : List Nat} {y : Nat}
    (hw : OnTrack f source good s ⟨sandbox, y :: rows, .between⟩) :
    Advances f source good ⟨sandbox, y :: rows, .between⟩ s (begin task sandbox rows y s) := by
  -- The worker has the row that it begins no more in its list, whether or not it skips it.
  have hrows : ∀ y' ∈ rows, y' < source.height :=
    fun y' hmem => hw.rows y' (List.mem_cons_of_mem y hmem)
  rcases hw.sandbox with ⟨r, hr, hgood⟩
  have hr : sandbox = .ok r := hr
  subst hr
  unfold begin
  by_cases hskip : s.skips y = true
  · rw [if_pos hskip]
    refine ⟨hs, ⟨⟨r, rfl, hgood⟩, hrows, trivial⟩, .refl s, fun y' hpend => ?_⟩
    rcases hpend with hmem | hrow
    · rcases List.mem_cons.mp hmem with heq | hmem
      · rw [heq]
        exact .inr (Shared.settled_of_skips hs hskip)
      · exact .inl (.inl hmem)
    · cases hrow
  · rw [if_neg hskip]
    -- A row that is begun is now the row that the worker is in.
    have hy : y < source.height := hw.rows y List.mem_cons_self
    refine ⟨hs, ⟨⟨r, rfl, hgood⟩, hrows, ?_⟩, .refl s, fun y' hpend => .inl ?_⟩
    · -- To the left of the first pixel there is nothing to be written.
      exact ⟨Nat.zero_le _, hy, fun x' hx' => (Nat.not_lt_zero x' hx').elim⟩
    · rcases hpend with hmem | hrow
      · rcases List.mem_cons.mp hmem with heq | hmem
        · rw [heq]
          exact .inr rfl
        · exact .inl hmem
      · cases hrow

theorem approach_advances {s : Shared} (hs : s.Sound f task.source) {sandbox : Except Error ρ}
    {rows : List Nat} {x y : Nat}
    (hw : OnTrack f task.source good s ⟨sandbox, rows, .before x y⟩) :
    Advances f task.source good ⟨sandbox, rows, .before x y⟩ s
      (approach task sandbox rows x y s) := by
  rcases hw.position with ⟨hx, hy, hwritten⟩
  unfold approach
  by_cases hlt : x < task.source.width
  · rw [if_pos hlt, Shared.checkFlag_unset hs.unset]
    exact ⟨hs, ⟨hw.sandbox, hw.rows, hlt, hy, hwritten⟩, .refl s, fun y' hpend => .inl hpend⟩
  · rw [if_neg hlt]
    refine ⟨hs, ⟨hw.sandbox, hw.rows, trivial⟩, .refl s, fun y' hpend => ?_⟩
    rcases hpend with hmem | hrow
    · exact .inl (.inl hmem)
    · -- The row is left at its end, so all of it is written.
      have hend : x = task.source.width := by omega
      cases hrow
      rw [hend] at hwritten
      exact .inr (.inl hwritten)

theorem transform_advances (hc : task.Computes f good) {s : Shared}
    (hs : s.Sound f task.source) {sandbox : Except Error ρ} {rows : List Nat} {x y : Nat}
    (hw : OnTrack f task.source good s ⟨sandbox, rows, .inside x y⟩) :
    Advances f task.source good ⟨sandbox, rows, .inside x y⟩ s
      (transform task sandbox rows x y s) := by
  rcases hw.position with ⟨hx, hy, hwritten⟩
  rcases hw.sandbox with ⟨r, hr, hgood⟩
  have hr : sandbox = .ok r := hr
  subst hr
  -- The sandbox is good, so its answer is what the pixel comes to, and it stays good.
  have hresult := hc.outcome r (task.source.pixel x y) hgood
  have hstays := hc.keeps r (task.source.pixel x y) hgood
  unfold transform
  rcases hinv : task.invoke r (task.source.pixel x y) with ⟨result, r'⟩
  rw [hinv] at hresult hstays
  simp only [hinv]
  cases result with
  | ok p =>
      have hp : f (task.source.pixel x y) = .ok p := hresult.symm
      -- Writing the pixel extends what is written by one column.
      have hgrows := Shared.put_grows hs hx hy hp
      refine ⟨Shared.put_sound hs x y p.rgba, ⟨⟨r', rfl, hstays⟩, hw.rows, hx, hy, ?_⟩, hgrows,
        fun y' hpend => .inl hpend⟩
      intro x' hx'
      by_cases heq : x' = x
      · rw [heq]
        exact Shared.put_written hs hx hy hp
      · exact hgrows.written x' y (by omega) (hwritten x' (by omega))
  | error e =>
      -- The pixels to the left are written, so none of them failed, and this failure is the first.
      refine ⟨hs, ⟨⟨r', rfl, hstays⟩, hw.rows, hy, x, hx, hresult.symm, fun x' hx' => ?_⟩, .refl s,
        fun y' hpend => .inl hpend⟩
      rcases hwritten x' hx' with ⟨p, hp, _⟩
      exact ⟨p, hp⟩

theorem report_advances {s : Shared} (hs : s.Sound f source) {sandbox : Except Error ρ}
    {rows : List Nat} {y : Nat} {e : Error}
    (hw : OnTrack f source good s ⟨sandbox, rows, .leaving y e⟩) :
    Advances f source good ⟨sandbox, rows, .leaving y e⟩ s
      (⟨sandbox, rows, .between⟩, s.report y e) := by
  refine ⟨Shared.report_sound hs hw.position.1 hw.position.2, ⟨hw.sandbox, hw.rows, trivial⟩,
    Shared.report_grows s y e, fun y' hpend => ?_⟩
  rcases hpend with hmem | hrow
  · exact .inl (.inl hmem)
  · cases hrow
    exact .inr (Shared.report_settles s y e)

@[simp]
theorem step_before (task : Task ρ) (sandbox : Except Error ρ) (rows : List Nat) (x y : Nat)
    (s : Shared) :
    step task ⟨sandbox, rows, .before x y⟩ s = approach task sandbox rows x y s := by
  cases rows <;> rfl

@[simp]
theorem step_inside (task : Task ρ) (sandbox : Except Error ρ) (rows : List Nat) (x y : Nat)
    (s : Shared) :
    step task ⟨sandbox, rows, .inside x y⟩ s = transform task sandbox rows x y s := by
  cases rows <;> rfl

@[simp]
theorem step_leaving (task : Task ρ) (sandbox : Except Error ρ) (rows : List Nat) (y : Nat)
    (e : Error) (s : Shared) :
    step task ⟨sandbox, rows, .leaving y e⟩ s = (⟨sandbox, rows, .between⟩, s.report y e) := by
  cases rows <;> rfl

/-- What one step of a worker brings. -/
theorem step_advances (hc : task.Computes f good) {s : Shared} (hs : s.Sound f task.source)
    {w : Worker ρ} (hw : w.OnTrack f task.source good s) :
    Advances f task.source good w s (w.step task s) := by
  rcases w with ⟨sandbox, rows, position⟩
  cases position with
  | between =>
      cases rows with
      | nil => exact ⟨hs, hw, .refl s, fun _ hpend => .inl hpend⟩
      | cons y rows => exact begin_advances hs hw
  | before x y =>
      rw [step_before]
      exact approach_advances hs hw
  | inside x y =>
      rw [step_inside]
      exact transform_advances hc hs hw
  | leaving y e =>
      rw [step_leaving]
      exact report_advances hs hw

/-- An upper bound for the steps that a worker has left. A row takes two for each pixel, one to
    begin it, one to find its end, and one to report. -/
def cost (width : Nat) (w : Worker ρ) : Nat :=
  w.rows.length * (2 * width + 3) + w.position.cost width

theorem cost_eq_zero {width : Nat} {w : Worker ρ} (h : w.cost width = 0) :
    w.rows = [] ∧ w.position = .between := by
  rcases w with ⟨sandbox, rows, position⟩
  unfold cost at h
  rcases Nat.add_eq_zero_iff.mp h with ⟨hrows, hposition⟩
  -- A row costs something even in an image without columns.
  have hempty : rows = [] := by
    rcases Nat.mul_eq_zero.mp hrows with hlength | hwidth
    · exact List.length_eq_zero_iff.mp hlength
    · omega
  cases position with
  | between => exact ⟨hempty, rfl⟩
  | before x y => cases hposition
  | inside x y => cases hposition
  | leaving y e => cases hposition

/-- Each step makes what is left smaller, whatever the sandbox does, until nothing is left. -/
theorem cost_step (task : Task ρ) (w : Worker ρ) (s : Shared) :
    (w.step task s).1.cost task.source.width ≤ w.cost task.source.width - 1 := by
  rcases w with ⟨sandbox, rows, position⟩
  cases position with
  | between =>
      cases rows with
      | nil => exact Nat.le_of_eq (by simp [step, cost, Position.cost])
      | cons y rows =>
          -- What the row may cost is set aside when the worker is given it.
          have hlength : (rows.length + 1) * (2 * task.source.width + 3) =
              rows.length * (2 * task.source.width + 3) + (2 * task.source.width + 3) := by
            rw [Nat.add_mul, Nat.one_mul]
          simp only [step, begin]
          split
          · simp only [cost, Position.cost, List.length_cons]
            omega
          · split <;> simp only [cost, Position.cost, List.length_cons] <;> omega
  | before x y =>
      rw [step_before]
      unfold approach
      split
      · split <;> simp only [cost, Position.cost] <;> omega
      · simp only [cost, Position.cost]
        omega
  | inside x y =>
      rw [step_inside]
      unfold transform
      split
      · simp only [cost, Position.cost]
        omega
      · split <;> simp only [cost, Position.cost] <;> omega
  | leaving y e =>
      rw [step_leaving]
      simp only [cost, Position.cost]
      omega

end Worker

namespace Crew

/-- With which workers and what is shared a step among them ends: one of them has taken a step, if
    the number is that of one. -/
theorem stepAmong_eq (task : Task ρ) (workers : List (Worker ρ)) (s : Shared) (i : Nat) :
    stepAmong task i workers s =
      match workers[i]? with
      | none => (workers, s)
      | some w => (workers.set i (w.step task s).1, (w.step task s).2) := by
  induction workers generalizing i with
  | nil => cases i <;> rfl
  | cons w workers ih =>
      cases i with
      | zero => rfl
      | succ i =>
          simp only [stepAmong, List.getElem?_cons_succ, List.set_cons_succ]
          rw [ih i]
          cases workers[i]? <;> rfl

theorem step_of_none {crew : Crew ρ} {i : Nat} (h : crew.workers[i]? = none) :
    crew.step task i = crew := by
  unfold step
  dsimp only
  rw [stepAmong_eq, h]

theorem step_of_some {crew : Crew ρ} {i : Nat} {w : Worker ρ} (h : crew.workers[i]? = some w) :
    crew.step task i =
      ⟨crew.workers.set i (w.step task crew.shared).1, (w.step task crew.shared).2⟩ := by
  unfold step
  dsimp only
  rw [stepAmong_eq, h]

/-- What holds at each moment: what is shared is right, all workers are on track, and each row is
    still to be done or settled. -/
structure Invariant (f : Pixel → Except Error Pixel) (source : Image) (good : ρ → Prop)
    (crew : Crew ρ) : Prop where
  sound : crew.shared.Sound f source
  onTrack : ∀ w ∈ crew.workers, w.OnTrack f source good crew.shared
  covers : ∀ y, y < source.height →
    (∃ w ∈ crew.workers, w.Pends y) ∨ crew.shared.Settled f source y

/-- The invariant survives a step of any worker. -/
theorem Invariant.step (hc : task.Computes f good) {crew : Crew ρ}
    (h : crew.Invariant f task.source good) (i : Nat) :
    (crew.step task i).Invariant f task.source good := by
  cases hget : crew.workers[i]? with
  | none =>
      rw [step_of_none hget]
      exact h
  | some w =>
      rcases List.getElem?_eq_some_iff.mp hget with ⟨hi, hw⟩
      -- The worker that takes the step advances, and what is shared grows for the others.
      have hmem : w ∈ crew.workers := List.mem_of_getElem? hget
      have hadv := Worker.step_advances hc h.sound (h.onTrack w hmem)
      have hnext : (w.step task crew.shared).1 ∈
          crew.workers.set i (w.step task crew.shared).1 := List.mem_set hi _
      rw [step_of_some hget]
      refine ⟨hadv.sound, fun w' hmem' => ?_, fun y hy => ?_⟩
      · rcases List.mem_or_eq_of_mem_set hmem' with hold | heq
        · exact (h.onTrack w' hold).grows hadv.grows
        · rw [heq]
          exact hadv.onTrack
      · rcases h.covers y hy with ⟨w', hmem', hpend⟩ | hsettled
        · -- The worker that has the row is the one that took the step, or it is still there.
          rcases List.mem_iff_getElem?.mp hmem' with ⟨j, hj⟩
          by_cases hij : i = j
          · subst hij
            rw [hget] at hj
            cases hj
            rcases hadv.pends y hpend with hpend | hsettled
            · exact .inl ⟨_, hnext, hpend⟩
            · exact .inr hsettled
          · refine .inl ⟨w', List.mem_iff_getElem?.mpr ⟨j, ?_⟩, hpend⟩
            rw [List.getElem?_set_ne hij]
            exact hj
        · exact .inr (hadv.grows.settled hsettled)

/-- No worker has more than so many steps left. -/
def WithinCost (task : Task ρ) (bound : Nat) (crew : Crew ρ) : Prop :=
  ∀ w ∈ crew.workers, w.cost task.source.width ≤ bound

/-- No step makes what any worker has left larger. -/
theorem WithinCost.step {crew : Crew ρ} {bound : Nat} (h : crew.WithinCost task bound) (i : Nat) :
    (crew.step task i).WithinCost task bound := by
  intro w hmem
  cases hget : crew.workers[i]? with
  | none =>
      rw [step_of_none hget] at hmem
      exact h w hmem
  | some w' =>
      rw [step_of_some hget] at hmem
      rcases List.mem_or_eq_of_mem_set hmem with hold | heq
      · exact h w hold
      · have hbefore := h w' (List.mem_of_getElem? hget)
        have hone := Worker.cost_step task w' crew.shared
        rw [heq]
        omega

section Runs

/-! ### What steps keep -/

variable {I : Crew ρ → Prop} (hstep : ∀ crew i, I crew → I (crew.step task i))
include hstep

theorem run_induction {crew : Crew ρ} (h : I crew) (order : List Nat) :
    I (crew.run task order) := by
  unfold run
  induction order generalizing crew with
  | nil => exact h
  | cons i order ih => exact ih (hstep crew i h)

theorem runAlone_induction {crew : Crew ρ} (h : I crew) (i n : Nat) :
    I (runAlone task i n crew) := by
  induction n generalizing crew with
  | zero => exact h
  | succ n ih => exact ih (hstep crew i h)

theorem finish_induction {crew : Crew ρ} (h : I crew) : I (crew.finish task) := by
  -- Finishing is letting each worker in turn run alone, so it consists of steps as well.
  have hfirst : ∀ steps n, I (finishFirst task steps n crew) := by
    intro steps n
    induction n with
    | zero => exact h
    | succ n ih => exact runAlone_induction hstep ih n steps
  exact hfirst _ _

end Runs

theorem Invariant.run (hc : task.Computes f good) {crew : Crew ρ}
    (h : crew.Invariant f task.source good) (order : List Nat) :
    (crew.run task order).Invariant f task.source good :=
  run_induction (fun _ i hi => hi.step hc i) h order

theorem WithinCost.run {crew : Crew ρ} {bound : Nat} (h : crew.WithinCost task bound)
    (order : List Nat) : (crew.run task order).WithinCost task bound :=
  run_induction (I := WithinCost task bound) (fun _ i hi => hi.step i) h order

theorem Invariant.finish (hc : task.Computes f good) {crew : Crew ρ}
    (h : crew.Invariant f task.source good) :
    (crew.finish task).Invariant f task.source good :=
  finish_induction (fun _ i hi => hi.step hc i) h

/-! ### All workers finish -/

/-- A step of one worker leaves the others where they are. -/
theorem workers_step_of_ne {i j : Nat} (hij : i ≠ j) (crew : Crew ρ) :
    (crew.step task i).workers[j]? = crew.workers[j]? := by
  cases hget : crew.workers[i]? with
  | none => rw [step_of_none hget]
  | some w =>
      rw [step_of_some hget]
      exact List.getElem?_set_ne hij

theorem workers_runAlone_of_ne {i j : Nat} (hij : i ≠ j) (n : Nat) (crew : Crew ρ) :
    (runAlone task i n crew).workers[j]? = crew.workers[j]? := by
  induction n generalizing crew with
  | zero => rfl
  | succ n ih =>
      rw [runAlone, ih, workers_step_of_ne hij]

/-- A worker that took a step was there before, with one more left. -/
theorem cost_step {i : Nat} {crew : Crew ρ} {w : Worker ρ}
    (h : (crew.step task i).workers[i]? = some w) : ∃ w₀, crew.workers[i]? = some w₀ ∧
      w.cost task.source.width ≤ w₀.cost task.source.width - 1 := by
  cases hget : crew.workers[i]? with
  | none =>
      rw [step_of_none hget, hget] at h
      cases h
  | some w₀ =>
      have hi := (List.getElem?_eq_some_iff.mp hget).1
      rw [step_of_some hget, List.getElem?_set_self hi] at h
      cases h
      exact ⟨w₀, rfl, Worker.cost_step task w₀ crew.shared⟩

theorem cost_runAlone {i : Nat} (n : Nat) {crew : Crew ρ} {w : Worker ρ}
    (h : (runAlone task i n crew).workers[i]? = some w) : ∃ w₀, crew.workers[i]? = some w₀ ∧
      w.cost task.source.width ≤ w₀.cost task.source.width - n := by
  induction n generalizing crew with
  | zero => exact ⟨w, h, Nat.le_refl _⟩
  | succ n ih =>
      rcases ih h with ⟨w₁, hw₁, hrest⟩
      rcases cost_step hw₁ with ⟨w₀, hw₀, hone⟩
      exact ⟨w₀, hw₀, by omega⟩

theorem length_step (crew : Crew ρ) (i : Nat) :
    (crew.step task i).workers.length = crew.workers.length := by
  cases hget : crew.workers[i]? with
  | none => rw [step_of_none hget]
  | some w =>
      rw [step_of_some hget]
      exact List.length_set

/-- When so many of the first workers had their turn, these have nothing left. -/
theorem cost_finishFirst {crew : Crew ρ} {steps : Nat}
    (h : crew.WithinCost task steps) (n : Nat) :
    ∀ j w, (finishFirst task steps n crew).workers[j]? = some w →
      w.cost task.source.width ≤ steps ∧ (j < n → w.cost task.source.width = 0) := by
  induction n with
  | zero =>
      intro j w hget
      exact ⟨h w (List.mem_of_getElem? hget), fun hj => (Nat.not_lt_zero j hj).elim⟩
  | succ n ih =>
      intro j w hget
      rw [finishFirst] at hget
      by_cases hj : n = j
      · -- It is the turn of this worker: it had at most `steps` left, and took that many.
        subst hj
        rcases cost_runAlone steps hget with ⟨w₀, hw₀, hcost⟩
        have hbound := (ih n w₀ hw₀).1
        exact ⟨by omega, fun _ => by omega⟩
      · rw [workers_runAlone_of_ne hj] at hget
        rcases ih j w hget with ⟨hcost, hdone⟩
        exact ⟨hcost, fun hlt => hdone (by omega)⟩

/-- All workers finish, if each has at most as many rows to begin as the image has. -/
theorem finish_isDone {crew : Crew ρ}
    (h : crew.WithinCost task (Worker.enoughSteps task.source.width task.source.height)) :
    ∀ w ∈ (crew.finish task).workers, w.rows = [] ∧ w.position = .between := by
  intro w hmem
  -- No step adds or drops a worker, so each of them is one of those that had a turn.
  rcases List.mem_iff_getElem?.mp hmem with ⟨j, hj⟩
  have hlength : (crew.finish task).workers.length = crew.workers.length :=
    finish_induction (I := fun c => c.workers.length = crew.workers.length)
      (fun c i hc => (length_step c i).trans hc) rfl
  have hj' : j < crew.workers.length := by
    rw [← hlength]
    exact (List.getElem?_eq_some_iff.mp hj).1
  exact Worker.cost_eq_zero ((cost_finishFirst h crew.workers.length j w hj).2 hj')

end Crew

namespace Shared

/-- The failure that counts is one of those that were reported, and none of them is lower. -/
theorem leastFailure_spec (failures : List (Nat × Error)) :
    match leastFailure failures with
    | none => failures = []
    | some least => least ∈ failures ∧ ∀ failure ∈ failures, least.1 ≤ failure.1 := by
  induction failures with
  | nil => rfl
  | cons failure failures ih =>
      unfold leastFailure
      cases hrest : leastFailure failures with
      | none =>
          rw [hrest] at ih
          rw [ih]
          refine ⟨List.mem_singleton.mpr rfl, fun other hmem => ?_⟩
          exact Nat.le_of_eq (by rw [List.mem_singleton.mp hmem])
      | some least =>
          rw [hrest] at ih
          rcases ih with ⟨hmem, hle⟩
          by_cases hlt : least.1 < failure.1
          · simp only [if_pos hlt]
            refine ⟨List.mem_cons_of_mem _ hmem, fun other hother => ?_⟩
            rcases List.mem_cons.mp hother with heq | hother
            · rw [heq]
              exact Nat.le_of_lt hlt
            · exact hle other hother
          · simp only [if_neg hlt]
            refine ⟨List.mem_cons_self, fun other hother => ?_⟩
            rcases List.mem_cons.mp hother with heq | hother
            · exact Nat.le_of_eq (by rw [heq])
            · have hothers := hle other hother
              omega

/-- With every row settled, the result is what the image comes to. No pixel comes to a stop, so
    the lowest failure is not outdone by one. -/
theorem result_transforms {s : Shared} (hs : s.Sound f source)
    (hstop : ∀ p e, f p = .error e → e.isCancelled = false)
    (hsettled : ∀ y, y < source.height → s.Settled f source y) :
    source.Transforms f s.result := by
  -- A stop outdoes every other failure, so there must be none.
  have hnone : s.failures.any (·.2.isCancelled) = false := by
    rw [List.any_eq_false]
    rintro ⟨y, e⟩ hmem
    rcases (hs.failure y e hmem).2 with ⟨x, _, hfail, _⟩
    rw [hstop _ e hfail]
    exact Bool.false_ne_true
  have hspec := leastFailure_spec s.failures
  unfold result
  rw [if_neg (by rw [hnone]; exact Bool.false_ne_true)]
  cases hleast : leastFailure s.failures with
  | none =>
      rw [hleast] at hspec
      refine .image s.image hs.width_eq hs.height_eq fun x y hx hy => ?_
      -- Nothing was reported, so a settled row is a written one.
      rcases hsettled y hy with hwritten | ⟨y', e, hmem, _⟩
      · exact hwritten x hx
      · rw [hspec] at hmem
        exact (List.not_mem_nil hmem).elim
  | some least =>
      rcases least with ⟨y, e⟩
      rw [hleast] at hspec
      rcases hspec with ⟨hmem, hlowest⟩
      rcases hs.failure y e hmem with ⟨hy, x, hx, hfail, hfirst⟩
      -- Everything before the first failed pixel of the lowest failed row has a result.
      refine .failure x y e hx hy hfail fun x' y' hx' hbefore => ?_
      rcases hbefore with hrow | ⟨hrow, hcol⟩
      · -- A lower row is settled, and not by a failure, since those are not lower.
        have hrow : y' < y := hrow
        rcases hsettled y' (by omega) with hwritten | ⟨y'', e', hmem', hle⟩
        · rcases hwritten x' hx' with ⟨p, hp, _⟩
          exact ⟨p, hp⟩
        · have hlow : y ≤ y'' := hlowest (y'', e') hmem'
          omega
      · have hrow : y' = y := hrow
        rw [hrow]
        exact hfirst x' hcol

end Shared

namespace Crew

section Start

variable {workers : List (Except Error ρ × List Nat)} {cancel : Option CancelFlag}

/-- When no worker has begun, all is as it should be, if each row is given to a worker. -/
theorem start_invariant (hgood : ∀ w ∈ workers, ∃ sandbox, w.1 = .ok sandbox ∧ good sandbox)
    (hrows : (workers.map (·.2)).flatten.Perm (List.range task.source.height))
    (hflag : CancelFlag.Unset cancel) :
    (Crew.start task cancel workers).Invariant f task.source good := by
  refine ⟨⟨rfl, rfl, hflag, fun _ _ hmem => (List.not_mem_nil hmem).elim, fun _ h => by cases h⟩,
    fun w hmem => ?_, fun y hy => ?_⟩
  · -- A worker is given only rows of the image, since all that are given are a permutation of them.
    rcases List.mem_map.mp hmem with ⟨given, hgiven, rfl⟩
    refine ⟨hgood given hgiven, fun y hy => List.mem_range.mp (hrows.mem_iff.mp ?_), trivial⟩
    exact List.mem_flatten.mpr ⟨given.2, List.mem_map_of_mem hgiven, hy⟩
  · -- Conversely, each row of the image is given to some worker, which has it still to do.
    have hmem := hrows.mem_iff.mpr (List.mem_range.mpr hy)
    rcases List.mem_flatten.mp hmem with ⟨rows, hrows, hy⟩
    rcases List.mem_map.mp hrows with ⟨given, hgiven, rfl⟩
    exact .inl ⟨_, List.mem_map_of_mem hgiven, .inl hy⟩

/-- No worker is given more rows than the image has. -/
theorem start_cost (cancel : Option CancelFlag)
    (hrows : (workers.map (·.2)).flatten.Perm (List.range task.source.height)) :
    (Crew.start task cancel workers).WithinCost task
      (Worker.enoughSteps task.source.width task.source.height) := by
  intro w hmem
  rcases List.mem_map.mp hmem with ⟨given, hgiven, rfl⟩
  -- The rows of one worker are part of all the rows that are given.
  have hsub := List.sublist_flatten_of_mem (List.mem_map_of_mem (f := Prod.snd) hgiven)
  have hlength : given.2.length ≤ task.source.height := by
    have hall := hrows.length_eq
    rw [List.length_range] at hall
    rw [← hall]
    exact hsub.length_le
  calc given.2.length * (2 * task.source.width + 3) + 0
      ≤ (task.source.height + 1) * (2 * task.source.width + 3) :=
        Nat.mul_le_mul_right _ (by omega)

/-- For every order of steps, the result is what the image comes to. -/
theorem result_transforms (hc : task.Computes f good)
    (hstop : ∀ p e, f p = .error e → e.isCancelled = false)
    (hgood : ∀ w ∈ workers, ∃ sandbox, w.1 = .ok sandbox ∧ good sandbox)
    (hrows : (workers.map (·.2)).flatten.Perm (List.range task.source.height))
    (hflag : CancelFlag.Unset cancel) (order : List Nat) :
    task.source.Transforms f
      (((Crew.start task cancel workers).run task order).finish task).shared.result := by
  -- The invariant holds after the steps in the given order, and after all workers have finished.
  have hbegun := (start_invariant hgood hrows hflag).run hc order
  have hended := hbegun.finish hc
  have hcost := (start_cost cancel hrows).run order
  have hdone := finish_isDone hcost
  refine Shared.result_transforms hended.sound hstop fun y hy => ?_
  rcases hended.covers y hy with ⟨w, hmem, hpend⟩ | hsettled
  · -- A worker that is done has no row.
    rcases hdone w hmem with ⟨hempty, hbetween⟩
    unfold Worker.Pends at hpend
    rw [hempty, hbetween] at hpend
    rcases hpend with hmem | hrow
    · exact (List.not_mem_nil hmem).elim
    · cases hrow
  · exact hsettled

end Start

end Crew

end PixelEffects
