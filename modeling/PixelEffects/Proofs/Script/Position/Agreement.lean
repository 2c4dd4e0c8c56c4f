import PixelEffects.Proofs.Script.Position
import PixelEffects.Proofs.Script.Position.Expressions

/-!
# Where Faults Are Raised

A machine raises its faults where an evaluation does that gives everything between two statements to
the one that was begun last.

The two evaluations are followed side by side. While a statement is under way, both are at its line.
When it ends, the one comes back and the other does not, and what it has not come back from is the
line of the statement that was begun last. So the difference between the two machines is one line at
any moment, and the other evaluation says which. A fault ends both at the same moment, and then there
is no difference.

A loop meets its beginning again, and there the two have to be on one line. Some loops move to their
own line before they count a step, and so it is that one. The loop over an iterator does not, and it
counts the step at the line of the statement that was begun last.

So the position of a fault is that of the statement that is under way, but for three kinds of them.
What goes wrong in the condition behind a `repeat` is given to the last statement of its body, and so
is a step of a loop over an iterator for which nothing is left. And what a host calls that is not a
script function fails at the position at which the operation before has ended.

## Main definitions

* `Settled`: Two outcomes of which one has come back.
* `Tracks`: Two computations that end like that, from two lines.
* `SettledTurn`: The same for rounds.
* `positions`: Where two engines say that something has failed.

## Theorems

* `loop_settled`, `Tracks.whileRounds` and others: Loops.
* `execAll_tracks`: Statements.
* `callClosure_byLast`: Calls.
* `answers_byLast`: A host is told the same.
* `answers_not_byStatement`: It is not what it would be told by the statements under way.
-/

namespace PixelEffects

namespace Script

variable {ν α β σ : Type}

/-! ## Coming back -/

/-- Two outcomes of a statement of which the second one has come back to a line, and says at which
    one the first is. -/
inductive Settled (line : Nat) : EStateM.Result Fault (Machine ν) Flow →
    EStateM.Result Fault (Machine ν) Leaving → Prop
  | ok (flow : Flow) (last : Nat) {m : Machine ν} (h : m.line = line) :
      Settled line (.ok flow { m with line := last }) (.ok ⟨flow, last⟩ m)
  | error (f : Fault) (m : Machine ν) : Settled line (.error f m) (.error f m)

/-- The second computation does the same on a line as the first one does on another, and comes back
    to it. -/
def Tracks (line last : Nat) (x : Eval ν Flow) (y : Eval ν Leaving) : Prop :=
  ∀ s m, m.line = line → Settled line (x s { m with line := last }) (y s m)

theorem machine_at {m : Machine ν} {line : Nat} (h : m.line = line) :
    { m with line := line } = m := by
  rw [← h]

namespace Tracks

variable {line last : Nat}

/-- What both begin with may be anything that stays. -/
theorem after {x : Eval ν α} {f : α → Eval ν Flow} {g : α → Eval ν Leaving} (hx : Stays x)
    (hf : ∀ a, Tracks line line (f a) (g a)) : Tracks line line (x >>= f) (x >>= g) := by
  intro s m hm
  have hline := hx s m
  rw [machine_at hm, run_bind, run_bind]
  generalize x s m = r at hline ⊢
  cases r with
  | error e m' => exact .error e m'
  | ok a m' =>
      have hm' : m'.line = line := hline.trans hm
      have hrest := hf a s m' hm'
      rwa [machine_at hm'] at hrest

theorem pure (flow : Flow) (last : Nat) :
    Tracks line last (pure flow : Eval ν Flow) (Pure.pure ⟨flow, last⟩) :=
  fun _ _ hm => .ok flow last hm

theorem fault (cause : Cause) :
    Tracks line line (fault cause : Eval ν Flow) (Script.fault cause : Eval ν Leaving) := by
  intro s m hm
  rw [machine_at hm]
  exact .error _ m

/-- A statement without others in it. -/
theorem of_stays {x : Eval ν Flow} (hx : Stays x) :
    Tracks line line x (do Pure.pure ⟨← x, line⟩) := by
  have h : Tracks line line (x >>= Pure.pure) _ := after hx fun flow => pure flow line
  rwa [bind_pure] at h

theorem around {before after : Machine ν → Machine ν} {x : Eval ν Flow} {y : Eval ν Leaving}
    (hbefore : ∀ m, (before m).line = m.line)
    (hafter : ∀ m l, after { m with line := l } = { after m with line := l })
    (h : Tracks line line x y) : Tracks line line (around before after x)
      (Script.around before after y) := by
  intro s m hm
  have hback : ∀ m' : Machine ν, (after m').line = m'.line := fun m' => by
    have hsame := congrArg Machine.line (hafter m' m'.line)
    exact hsame
  have hbody := h s (before m) ((hbefore m).trans hm)
  rw [machine_at ((hbefore m).trans hm)] at hbody
  rw [machine_at hm]
  unfold Script.around
  generalize x s (before m) = r, y s (before m) = r' at hbody
  cases hbody with
  | error f m' => exact .error f _
  | ok flow last hm' =>
      dsimp only
      rw [hafter]
      exact .ok flow last ((hback _).trans hm')

theorem note_line (m : Machine ν) (e : Event) (l : Nat) :
    Machine.note { m with line := l } e = { m.note e with line := l } := by
  rcases m with ⟨_, _, _, _, _, _, _, _, record⟩
  cases record <;> rfl

theorem watched (region : Region) {x : Eval ν Flow} {y : Eval ν Leaving}
    (h : Tracks line line x y) :
    Tracks line line (watched region x) (Script.watched region y) :=
  around (fun m => Stays.line_note m _) (fun m l => note_line m _ l) h

theorem nested {region : Region} {x : Eval ν Flow} {y : Eval ν Leaving}
    (h : Tracks line line x y) :
    Tracks line line (nested region x) (Script.nested region y) := by
  have hdeeper : Tracks line line (deeper x) (deeper y) :=
    around (fun _ => rfl) (fun _ _ => rfl) h
  intro s m hm
  have hwatched := hdeeper.watched region s m hm
  rw [machine_at hm] at hwatched ⊢
  unfold Script.nested
  split
  · exact .error _ m
  · exact hwatched

theorem inBlock {env : Env} {body : Env → Eval ν Flow} {body' : Env → Eval ν Leaving}
    (h : ∀ inner, Tracks line line (body inner) (body' inner)) :
    Tracks line line (inScope env body) (Script.inBlock env body') :=
  nested (after (Stays.newScope []) fun _ => h _)

end Tracks

/-! ## Loops -/

/-- Two outcomes of a round. If the loop goes on, there is no difference between them. -/
inductive SettledTurn (line : Nat) (goesOn : Nat → Prop) :
    EStateM.Result Fault (Machine ν) (Turn σ Flow) →
      EStateM.Result Fault (Machine ν) (Turn σ Leaving) → Prop
  | again (state : σ) {m : Machine ν} (h : goesOn m.line) :
      SettledTurn line goesOn (.ok (.again state) m) (.ok (.again state) m)
  | done (flow : Flow) (last : Nat) {m : Machine ν} (h : m.line = line) :
      SettledTurn line goesOn (.ok (.done flow) { m with line := last }) (.ok (.done ⟨flow, last⟩) m)
  | error (f : Fault) (m : Machine ν) : SettledTurn line goesOn (.error f m) (.error f m)

section Loops

variable {line : Nat} {goesOn : Nat → Prop}

/-- A loop may begin its rounds on any line of some, by induction on the rounds that are left. -/
theorem loop_settled {round : σ → Eval ν (Turn σ Flow)} {round' : σ → Eval ν (Turn σ Leaving)}
    (hround : ∀ state s m, goesOn m.line →
      SettledTurn line goesOn (round state s m) (round' state s m))
    (fuel : Nat) (state : σ) (s : Setting) {m : Machine ν} (hm : goesOn m.line) :
    Settled line (loop round fuel state s m) (loop round' fuel state s m) := by
  induction fuel generalizing state m with
  | zero => exact .error _ m
  | succ fuel ih =>
      have hturn := hround state s m hm
      rw [loop, loop, run_bind, run_bind]
      generalize round state s m = r, round' state s m = r' at hturn
      cases hturn with
      | error f m' => exact .error f m'
      | done flow last hm' => exact .ok flow last hm'
      | @again next m' hm' => exact ih next (Stays.line_note m' _ ▸ hm')

theorem Tracks.rounds (goesOn : Nat → Prop) {round : σ → Eval ν (Turn σ Flow)}
    {round' : σ → Eval ν (Turn σ Leaving)}
    (hstart : goesOn line)
    (hround : ∀ state s m, goesOn m.line →
      SettledTurn line goesOn (round state s m) (round' state s m)) (state : σ) :
    Tracks line line (rounds round state) (Script.rounds round' state) := by
  intro s m hm
  rw [machine_at hm]
  exact loop_settled hround _ state s (hm ▸ hstart)

/-- What comes after the body of a loop: the first machine goes on from the line of the statement that
    was begun last, and the second one is told about it. -/
theorem settledTurn_afterBody {body : Eval ν Flow} {body' : Eval ν Leaving}
    (hbody : Tracks line line body body') {again : Eval ν σ} {again' : Nat → Eval ν σ}
    (hagain : ∀ last s (m : Machine ν), m.line = line →
      again s { m with line := last } = again' last s m ∧
        ∀ state m', again' last s m = .ok state m' → goesOn m'.line)
    {s : Setting} {m : Machine ν} (hm : m.line = line) :
    SettledTurn line goesOn ((body >>= Script.afterBody again) s m)
      ((body' >>= Attribution.afterBody again') s m) := by
  have hsettled := hbody s m hm
  rw [machine_at hm] at hsettled
  rw [run_bind, run_bind]
  generalize body s m = r, body' s m = r' at hsettled
  cases hsettled with
  | error f m' => exact .error f m'
  | @ok flow last m' hm' =>
      cases flow with
      | broken => exact .done .normal last hm'
      | returned vs => exact .done (.returned vs) last hm'
      | normal =>
          rcases hagain last s m' hm' with ⟨hsame, hline⟩
          show SettledTurn line goesOn ((again >>= fun a => pure (.again a)) s _)
            ((again' last >>= fun a => pure (.again a)) s m')
          rw [run_bind, run_bind, hsame]
          cases hstate : again' last s m' with
          | error f m'' => exact .error f m''
          | ok state m'' => exact .again state (hline state m'' hstate)

/-- A loop that is over by itself is left at its own line. -/
theorem settledTurn_over {m : Machine ν} (hm : m.line = line) :
    SettledTurn (σ := σ) line goesOn (.ok (.done .normal) m) (.ok (.done ⟨.normal, line⟩) m) := by
  have hdone : SettledTurn (σ := σ) line goesOn _ _ := .done .normal line hm
  rwa [machine_at hm] at hdone

/-- What is done after moving to the line of the loop is done there in any case. -/
theorem run_atLine {x : Eval ν α} (hx : Stays x) (last : Nat) (s : Setting) (m : Machine ν)
    (hm : m.line = line) :
    (do
      atLine line
      x) s { m with line := last } = x s m ∧ ∀ a m', x s m = .ok a m' → m'.line = line := by
  refine ⟨?_, fun a m' hrun => ?_⟩
  · show x s { m with line := line } = x s m
    rw [machine_at hm]
  · have hline := hx s m
    rw [hrun] at hline
    exact hline.trans hm

/-- A step after which the loop goes on at its line. -/
theorem settledTurn_tick (state : σ) (s : Setting) {m : Machine ν} (hm : m.line = line) :
    SettledTurn line (· = line) ((tick >>= fun _ => pure (.again state)) s m)
      ((tick >>= fun _ => pure (.again state)) s m) := by
  have hline := Stays.tick s m
  rw [run_bind, run_bind]
  generalize tick s m = r at hline
  cases r with
  | error f m' => exact .error f m'
  | ok _ m' => exact .again state (hline.trans hm)

/-- The body of a `repeat`, in its scope. -/
theorem run_opened (env : Env) (body : Env → Eval ν α) (s : Setting) (m : Machine ν) :
    (do
      let scope ← newScope []
      let a ← watched .repeatBody (body (scope :: env))
      pure (a, scope :: env) : Eval ν (α × Env)) s m =
      match watched .repeatBody (body (⟨m.scopes.size⟩ :: env)) s
        { m with scopes := m.scopes.push [] } with
      | .ok a m' => .ok (a, ⟨m.scopes.size⟩ :: env) m'
      | .error f m' => .error f m' := by
  show ((watched .repeatBody (body (⟨m.scopes.size⟩ :: env)) >>= fun a => pure (a, _)) s
    { m with scopes := m.scopes.push [] }) = _
  rw [run_bind]
  cases watched .repeatBody (body (⟨m.scopes.size⟩ :: env)) s
    { m with scopes := m.scopes.push [] } <;> rfl

theorem tick_pure_stays (a : α) :
    Stays (do
      tick
      pure a : Eval ν α) :=
  Stays.tick.bind fun _ => Stays.pure a

namespace Tracks

theorem whileRounds {condition : Eval ν Value} (hcondition : Stays condition) {body : Eval ν Flow}
    {body' : Eval ν Leaving} (hbody : Tracks line line body body') :
    Tracks line line (whileRounds line condition body)
      (Attribution.whileRounds line condition body') := by
  refine Tracks.rounds (· = line) rfl (fun _ s m hm => ?_) ()
  have hline := hcondition s m
  rw [run_bind, run_bind]
  generalize condition s m = r at hline ⊢
  cases r with
  | error f m' => exact .error f m'
  | ok v m' =>
      have hm' : m'.line = line := hline.trans hm
      dsimp only
      split
      · exact settledTurn_afterBody hbody (run_atLine Stays.tick) hm'
      · exact settledTurn_over hm'

theorem countRounds {start limit step : Float} {body : Float → Eval ν Flow}
    {body' : Float → Eval ν Leaving} (hbody : ∀ i, Tracks line line (body i) (body' i)) :
    Tracks line line (countRounds line start limit step body)
      (Attribution.countRounds line start limit step body') := by
  refine Tracks.rounds (· = line) rfl (fun i s m hm => ?_) start
  split
  · exact settledTurn_afterBody (hbody i) (run_atLine (tick_pure_stays (i + step))) hm
  · exact settledTurn_over hm

/-- The step is counted before the loop is back at its line. -/
theorem eachRounds {iterate : Value → Eval ν (List Value)} (hiterate : ∀ v, Stays (iterate v))
    {body : List Value → Eval ν Flow} {body' : List Value → Eval ν Leaving}
    (hbody : ∀ vs, Tracks line line (body vs) (body' vs)) (control : Value) :
    Tracks line line (eachRounds line iterate control body)
      (Attribution.byLast.eachRounds line iterate control body') := by
  refine Tracks.rounds (fun _ => True) trivial (fun control s m _ => ?_) control
  have hline := hiterate control s { m with line := line }
  show SettledTurn line _ ((iterate control >>= fun vs => _) s { m with line := line })
    ((iterate control >>= fun vs => _) s { m with line := line })
  rw [run_bind, run_bind]
  generalize iterate control s { m with line := line } = r at hline ⊢
  cases r with
  | error f m' => exact .error f m'
  | ok vs m' =>
      dsimp only
      split
      · exact settledTurn_over hline
      · exact settledTurn_afterBody (hbody vs) (fun _ _ _ _ => ⟨rfl, fun _ _ _ => trivial⟩) hline

/-- The condition is evaluated before the loop is back at its line. -/
theorem repeatRounds {env : Env} {body : Env → Eval ν Flow} {body' : Env → Eval ν Leaving}
    (hbody : ∀ inner, Tracks line line (body inner) (body' inner))
    {condition : Env → Eval ν Value} (hcondition : ∀ inner, Stays (condition inner)) :
    Tracks line line (repeatRounds line (inOpenScope env body) condition)
      (Attribution.byLast.repeatRounds line (inOpenBlock env body') condition) := by
  refine Tracks.rounds (· = line) rfl (fun _ s m hm => ?_) ()
  have hopen : inOpenScope env body s m = _ := run_opened env body s m
  have hopen' : inOpenBlock env body' s m = _ := run_opened env body' s m
  have hsettled := (hbody (⟨m.scopes.size⟩ :: env)).watched .repeatBody s
    { m with scopes := m.scopes.push [] } hm
  rw [machine_at (by exact hm)] at hsettled
  rw [run_bind, run_bind, hopen, hopen']
  generalize Script.watched .repeatBody (body (⟨m.scopes.size⟩ :: env)) s
    { m with scopes := m.scopes.push [] } = r, Script.watched .repeatBody
    (body' (⟨m.scopes.size⟩ :: env)) s { m with scopes := m.scopes.push [] } = r' at hsettled
  cases hsettled with
  | error f m' => exact .error f m'
  | @ok flow last m' hm' =>
      cases flow with
      | broken => exact .done .normal last hm'
      | returned vs => exact .done (.returned vs) last hm'
      | normal =>
          -- Both evaluate the condition on the line of the last statement, and the second comes back.
          have hline := hcondition (⟨m.scopes.size⟩ :: env) s { m' with line := last }
          dsimp only
          rw [run_bind, run_bind]
          unfold onLine
          dsimp only [Attribution.byLast]
          generalize condition (⟨m.scopes.size⟩ :: env) s { m' with line := last } = r at hline ⊢
          cases r with
          | error f m'' => exact .error f m''
          | ok v m'' =>
              dsimp only
              split
              · cases hline
                exact .done .normal m''.line (m := { m'' with line := m'.line }) hm'
              · rw [hm']
                exact settledTurn_tick () s rfl

end Tracks

end Loops

/-! ## Statements -/

section Syntax

variable [Reference ν] {call : Caller ν} (hcall : ∀ c args, Stays (call c args))

include hcall

-- Only an expression calls functions itself, a statement does it through one.
set_option linter.unusedSectionVars false

mutual

/-- A statement moves to its line from any other, and one of the two comes back. -/
theorem execStmt_tracks (env : Env) (line last : Nat) : (stmt : Stmt ν) →
    Tracks line last (stmt.exec call env) (Attribution.byLast.execStmt call env stmt)
  | .mk own action => by
      have hown : Tracks own own (takeStep >>= fun _ => action.exec call env own)
          (takeStep >>= fun _ => Attribution.byLast.execAction call env own action) :=
        Tracks.after Stays.takeStep fun _ => execAction_tracks env own action
      intro s m hm
      have hsettled := hown s { m with line := own } rfl
      simp only [Stmt.exec, Attribution.execStmt, onLine]
      show Settled line ((takeStep >>= fun _ => action.exec call env own) s { m with line := own }) _
      generalize (takeStep >>= fun _ => action.exec call env own) s { m with line := own } = r,
        (takeStep >>= fun _ => Attribution.byLast.execAction call env own action) s
          { m with line := own } = r' at hsettled ⊢
      cases hsettled with
      | error f m' => exact .error f m'
      | @ok flow last' m' _ => exact .ok flow last' (m := { m' with line := m.line }) hm

/-- A block goes on where its last statement has left it. -/
theorem execAll_tracks (env : Env) (line last : Nat) : (stmts : List (Stmt ν)) →
    Tracks line last (execAll call env stmts) (Attribution.byLast.execAll call env last stmts)
  | [] => by
      simp only [execAll, Attribution.execAll]
      exact Tracks.pure .normal last
  | stmt :: rest => by
      intro s m hm
      have hsettled := execStmt_tracks env line last stmt s m hm
      simp only [execAll, Attribution.execAll]
      rw [run_bind, run_bind]
      generalize stmt.exec call env s { m with line := last } = r,
        Attribution.byLast.execStmt call env stmt s m = r' at hsettled
      cases hsettled with
      | error f m' => exact .error f m'
      | @ok flow last' m' hm' =>
          cases flow with
          | normal => exact execAll_tracks env line last' rest s m' hm'
          | broken => exact .ok .broken last' hm'
          | returned vs => exact .ok (.returned vs) last' hm'

theorem execArms_tracks (env : Env) (line : Nat) {otherwise : Eval ν Flow}
    {otherwise' : Eval ν Leaving} (h : Tracks line line otherwise otherwise') :
    (arms : List (Arm ν)) → Tracks line line (execArms call env otherwise arms)
      (Attribution.byLast.execArms call env line otherwise' arms)
  | [] => by
      simp only [execArms, Attribution.execArms]
      exact h
  | .mk condition body :: arms => by
      simp only [execArms, Attribution.execArms]
      refine Tracks.after (Expr.results_stays hcall env condition).single fun v => ?_
      split
      · exact Tracks.inBlock fun inner => execAll_tracks inner line line body
      · exact execArms_tracks env line h arms

theorem execAction_tracks (env : Env) (line : Nat) : (action : Action ν) →
    Tracks line line (action.exec call env line)
      (Attribution.byLast.execAction call env line action)
  | .block body => by
      simp only [Action.exec, Attribution.execAction]
      exact Tracks.inBlock fun inner => execAll_tracks inner line line body
  | .branch arms none => by
      simp only [Action.exec, Attribution.execAction]
      exact execArms_tracks env line (Tracks.pure .normal line) arms
  | .branch arms (some otherwise) => by
      simp only [Action.exec, Attribution.execAction]
      refine execArms_tracks env line (Tracks.inBlock fun inner => ?_) arms
      exact execAll_tracks inner line line otherwise
  | .whileLoop condition body => by
      simp only [Action.exec, Attribution.execAction]
      refine Tracks.whileRounds (Expr.results_stays hcall env condition).single ?_
      exact Tracks.inBlock fun inner => execAll_tracks inner line line body
  | .repeatLoop body condition => by
      simp only [Action.exec, Attribution.execAction]
      exact Tracks.repeatRounds (fun inner => execAll_tracks inner line line body)
        fun inner => (Expr.results_stays hcall inner condition).single
  | .countLoop counter start limit step body => by
      have hrounds : ∀ a b x : Float, Tracks line line
          (if x == 0 then fault .loopStepZero else countRounds line a b x fun i => do
            let outer ← newScope [(counter, .number i)]
            inScope (outer :: env) fun inner => execAll call inner body)
          (if x == 0 then fault .loopStepZero else Attribution.countRounds line a b x fun i => do
            let outer ← newScope [(counter, .number i)]
            inBlock (outer :: env) fun inner =>
              Attribution.byLast.execAll call inner line body) := by
        intro a b x
        split
        · exact Tracks.fault _
        · refine Tracks.countRounds fun i => Tracks.after (Stays.newScope _) fun outer => ?_
          exact Tracks.inBlock fun inner => execAll_tracks inner line line body
      have hnumber : ∀ part v, Stays (loopNumber part v : Eval ν Float) := fun part v =>
        Stays.plain (plain_loopNumber part v)
      simp only [Action.exec, Attribution.execAction]
      refine Tracks.after (Expr.results_stays hcall env start).single fun a => ?_
      refine Tracks.after (hnumber _ a) fun a => ?_
      refine Tracks.after (Expr.results_stays hcall env limit).single fun b => ?_
      refine Tracks.after (hnumber _ b) fun b => ?_
      cases step with
      | none => exact Tracks.after (Stays.pure _) fun x => hrounds a b x
      | some e =>
          refine Tracks.after (Expr.results_stays hcall env e).single fun v => ?_
          exact Tracks.after (hnumber _ v) fun x => hrounds a b x
  | .eachLoop names exprs body => by
      simp only [Action.exec, Attribution.execAction]
      refine Tracks.after (resultsOfAll_stays hcall env exprs) fun vs => ?_
      refine Tracks.eachRounds (fun v => Stays.callValue hcall _ _ _) (fun vs => ?_) _
      refine Tracks.after (Stays.newScope _) fun outer => ?_
      exact Tracks.inBlock fun inner => execAll_tracks inner line line body
  | .declare names values => by
      simp only [Action.exec, Attribution.execAction]
      refine Tracks.of_stays ?_
      refine (resultsOfAll_stays hcall env values).bind fun vs => ?_
      exact (Stays.onInnermost env _).bind fun _ => Stays.pure _
  | .assign targets values => by
      simp only [Action.exec, Attribution.execAction]
      refine Tracks.of_stays ?_
      refine (places_stays hcall env targets).bind fun ps => ?_
      refine (resultsOfAll_stays hcall env values).bind fun vs => ?_
      exact (Stays.plain (plain_storeAll env ps _)).bind fun _ => Stays.pure _
  | .call expr => by
      simp only [Action.exec, Attribution.execAction]
      refine Tracks.of_stays ?_
      exact (Expr.results_stays hcall env expr).spread.bind fun _ => Stays.pure _
  | .define root path _ definition => by
      simp only [Action.exec, Attribution.execAction]
      refine Tracks.of_stays ?_
      refine (Stays.newClosure definition env).bind fun f => ?_
      exact (Stays.plain (plain_defineAt env root path f)).bind fun _ => Stays.pure _
  | .declareFunction name definition => by
      simp only [Action.exec, Attribution.execAction]
      refine Tracks.of_stays ?_
      refine (Stays.onInnermost env _).bind fun _ => ?_
      refine (Stays.newClosure definition env).bind fun f => ?_
      exact (Stays.onInnermost env _).bind fun _ => Stays.pure _
  | .returnValues values => by
      simp only [Action.exec, Attribution.execAction]
      refine Tracks.of_stays ?_
      exact (resultsOfAll_stays hcall env values).bind fun vs => Stays.pure _
  | .breakLoop => by
      simp only [Action.exec, Attribution.execAction]
      exact Tracks.of_stays (Stays.pure _)

end

theorem block_tracks (env : Env) (line : Nat) (body : List (Stmt ν)) :
    Tracks line line (block call env body) (Attribution.byLast.block call env line body) :=
  Tracks.inBlock fun inner => execAll_tracks hcall inner line line body

end Syntax

/-! ## Calls -/

section Calls

/-- Behind a call there is no difference: both come back to where they were called. -/
theorem framed_eq (chunk : String) {line : Nat} {x : Eval ν Flow} {y : Eval ν Leaving}
    (h : Tracks line line x y) :
    framed chunk line x = (do Pure.pure (← framed chunk line y).flow) := by
  funext s m
  rw [run_bind]
  unfold framed
  split
  · rfl
  · have hsettled := h s { m with depth := m.depth + 1, chunk := chunk, line := line } rfl
    dsimp only at hsettled ⊢
    generalize x s { m with depth := m.depth + 1, chunk := chunk, line := line } = r,
      y s { m with depth := m.depth + 1, chunk := chunk, line := line } = r' at hsettled ⊢
    cases hsettled <;> rfl

variable [Reference ν]

theorem callClosure_byLast (fuel : Nat) :
    (Attribution.byLast.callClosure fuel : Caller ν) = callClosure fuel := by
  induction fuel with
  | zero => rfl
  | succ fuel ih =>
      funext c args
      simp only [Attribution.callClosure, callClosure]
      rw [ih, framed_eq c.definition.chunk (Tracks.after (Stays.newScope _) fun frame =>
        block_tracks (callClosure_stays fuel) (frame :: c.env) c.definition.line
          c.definition.body), bind_assoc]
      refine bind_congr fun leaving => ?_
      cases leaving.flow <;> rfl

theorem callWithin_byLast : (Attribution.byLast.callWithin : Caller ν) = callWithin := by
  funext c args s m
  unfold Attribution.callWithin callWithin
  rw [callClosure_byLast]

/-! ## Engines -/

/-- A chunk begins at no line, and it is over at that of its last statement. -/
theorem execChunk_byLast (chunk : Chunk ν) :
    Attribution.byLast.execChunk chunk = execChunk chunk := by
  funext s m
  have hsettled := block_tracks callWithin_stays [] 0 chunk.body s
    { m.restarted with chunk := chunk.name, line := 0 } rfl
  unfold Attribution.execChunk execChunk
  rw [callWithin_byLast, run_bind, run_bind]
  dsimp only at hsettled ⊢
  generalize block callWithin [] chunk.body s { m.restarted with chunk := chunk.name, line := 0 } = r,
    Attribution.byLast.block callWithin [] 0 chunk.body s
      { m.restarted with chunk := chunk.name, line := 0 } = r' at hsettled
  cases hsettled with
  | error f m' => rfl
  | ok flow last _ => cases flow <;> rfl

theorem callGlobal_byLast (name : String) (args : List Value) :
    (Attribution.byLast.callGlobal name args : Eval ν (List Value)) = callGlobal name args := by
  funext s m
  unfold Attribution.callGlobal callGlobal
  rw [callWithin_byLast]
  rfl

theorem answer_byLast (e : Engine ν) (op : HostOp ν) :
    Attribution.byLast.answer e op = e.answer op := by
  cases op with
  | run chunk =>
      simp only [Attribution.answer, Engine.answer, Engine.runChunk, execChunk_byLast]
  | call name args =>
      simp only [Attribution.answer, Engine.answer, Engine.call_eq, callGlobal_byLast]
  | bind | entryPoint => rfl

/-- A host is told what it would be told if everything between two statements belonged to the one that
    was begun last: the condition behind a `repeat`, the steps of a loop over an iterator, and what
    the host itself calls. Everything else belongs to the statement that is under way. -/
theorem answers_byLast (e : Engine ν) (ops : List (HostOp ν)) :
    Attribution.byLast.answers e ops = e.answers ops := by
  induction ops generalizing e with
  | nil => rfl
  | cons op ops ih =>
      simp only [Attribution.answers, Engine.answers]
      rw [answer_byLast, ih]

end Calls

/-! ## The difference -/

/-- Where a host is told that something has failed. -/
def HostAnswer.position? : HostAnswer → Option (String × Nat)
  | .ran (.error f) | .called (.error f) => some (f.chunk, f.line)
  | _ => none

/-- The places that a host is told of, by an engine and by the statements that are under way. -/
def positions (limits : Limits) (ops : List HostOp) :
    List (Option (String × Nat)) × List (Option (String × Nat)) :=
  let e : Engine := .new ⟨limits, .spaced⟩
  ((e.answers ops).1.map HostAnswer.position?,
    (Attribution.byStatement.answers e ops).1.map HostAnswer.position?)

theorem exists_parsed {name source : String} {P : Chunk → Prop} [DecidablePred P]
    (h : (parseChunk name source).toOption.any (fun chunk => decide (P chunk)) = true) :
    ∃ chunk, parseChunk name source = .ok chunk ∧ P chunk := by
  cases hparse : parseChunk name source with
  | error e =>
      rw [hparse] at h
      cases h
  | ok chunk =>
      rw [hparse] at h
      exact ⟨chunk, rfl, of_decide_eq_true h⟩

/-- Each of the three is seen by a host. What it calls itself fails at the last statement of an
    operation before, the condition behind a `repeat` at the statement above it, and so does the last
    step that a loop over an iterator has no budget for. -/
theorem answers_not_byStatement :
    (∃ chunk, parseChunk "t.lua" "x = 1" = .ok chunk ∧
      positions {} [.run chunk, .call "error" [.text "boom"]] =
        ([none, some ("t.lua", 1)], [none, some ("", 0)])) ∧
    (∃ chunk, parseChunk "t.lua" "repeat\n  x = 1\nuntil x.y.z" = .ok chunk ∧
      positions {} [.run chunk] = ([some ("t.lua", 2)], [some ("t.lua", 1)])) ∧
    ∃ chunk, parseChunk "t.lua"
        "local function f() return 1 end\nfor k in f do\n  x = 1\nend" = .ok chunk ∧
      positions ⟨4, 64⟩ [.run chunk] = ([some ("t.lua", 3)], [some ("t.lua", 2)]) := by
  refine ⟨exists_parsed ?_, exists_parsed ?_, exists_parsed ?_⟩
  · decide +kernel
  · decide +kernel
  · decide +kernel

end Script

end PixelEffects
