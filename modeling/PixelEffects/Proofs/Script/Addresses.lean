import PixelEffects.Proofs.Script.Record

/-!
# Where Things Live

What a script does depends on where tables and functions live only as far as texts show it.

A value holds a place, and everything but a text only asks whether two places are one. The text of a
table or a function shows the number of its place, and from there the number gets anywhere: into
lengths, comparisons and branches. So a script can do different things under two assignments, also
when no two places share a number under either of them (`address_leaks`).

What can be said is where the numbers come in. Only library functions look at the assignment, they
look up what they show, and the record of a machine says what that is. So a run is the same under
two assignments that agree on what it shows, and one that shows nothing is the same under all of
them. Nothing is asked of the places that the run does not show.

A computation is `Candid` when it notes all that it looks up. The relation is on one run: what is
noted under one assignment tells which others do not matter. That is enough, since the run under
another assignment is the same up to the first number that differs.

## Main definitions

* `Addressing.AgreesOn`: Two assignments with the same numbers for some places.
* `residentsIn`: What is shown between two moments of a run.
* `Candid`: A computation that notes what it looks up.
* `candidCongruence`, `candidCalls`: All evaluation is such a computation.
* `Engine.readdressed`, `Engine.shown`: Other numbers for places, and what operations show.

## Theorems

* `Library.call_readdressed`: A library function looks up no more than it shows.
* `execChunk_candid`, `callGlobal_candid`: Operations.
* `Engine.answers_readdressed`: A host gets the same answers under assignments that agree on what is
  shown.
* `address_leaks`: It need not get them under others.
-/

namespace PixelEffects

namespace Script

variable {ν α β σ : Type}

/-- Two assignments give some places the same numbers. -/
def Addressing.AgreesOn (address address' : Addressing) (rs : List Resident) : Prop :=
  ∀ r ∈ rs, address r = address' r

/-- The same limits, with other numbers for places. -/
def Setting.readdressed (s : Setting) (address : Addressing) : Setting :=
  { s with address := address }

/-! ## The library -/

section Library

variable {address address' : Addressing}

theorem display_readdressed {v : Value} (h : address.AgreesOn address' v.resident?.toList) :
    v.display address = v.display address' := by
  cases v with
  | table id => exact congrArg (Value.placeText "table") (h _ List.mem_cons_self)
  | function id => exact congrArg (Value.placeText "function") (h _ List.mem_cons_self)
  | _ => rfl

/-- The induction is on how many elements of the format there can still be. -/
theorem Texts.formatFrom?_readdressed {args : List Value} {bound i : Nat} {cs : List Char}
    (built : String) (h : address.AgreesOn address' (shownFrom args bound i cs)) :
    formatFrom? address args bound built i cs = formatFrom? address' args bound built i cs := by
  induction bound generalizing built i cs with
  | zero => rfl
  | succ bound ih =>
      cases cs with
      | nil => rfl
      | cons c cs =>
          rw [shownFrom] at h
          simp only [formatFrom?, bind, Except.bind]
          cases hd : directive? c cs with
          | error e => rfl
          | ok element =>
              rcases element with ⟨_ | _ | ⟨conversion, precision⟩, rest⟩ <;> rw [hd] at h
              · exact ih _ h
              · exact ih _ h
              · -- Only one conversion shows its argument, and all go on with the rest.
                have hparts : converted? address args i conversion precision =
                    converted? address' args i conversion precision ∧
                    address.AgreesOn address' (shownFrom args bound (i + 1) rest) := by
                  cases conversion with
                  | display =>
                      refine ⟨congrArg Except.ok (display_readdressed fun r hr => ?_),
                        fun r hr => h r (List.mem_append_right _ hr)⟩
                      exact h r (List.mem_append_left _ hr)
                  | _ => exact ⟨rfl, h⟩
                dsimp only
                rw [hparts.1]
                cases converted? address' args i conversion precision with
                | error e => rfl
                | ok piece =>
                    dsimp only
                    rw [ih _ hparts.2]

theorem Texts.format?_readdressed {args : List Value}
    (h : address.AgreesOn address' (shown args)) :
    format? address args = format? address' args := by
  unfold shown at h
  simp only [format?, bind, Except.bind]
  cases hformat : Argument.text? .format args 0 with
  | error e => rfl
  | ok format =>
      rw [hformat] at h
      exact formatFrom?_readdressed "" h

/-- A library function does the same under two assignments that agree on what it shows. -/
theorem Library.call_readdressed {b : Builtin} {args : List Value}
    (h : address.AgreesOn address' (shown b args)) :
    call address b args = call address' b args := by
  cases b with
  | assert =>
      simp only [call, assert]
      split
      · rfl
      · next htruthy =>
          rw [shown, if_neg htruthy] at h
          rw [display_readdressed h]
  | error => simp only [call, display_readdressed h]
  | toText => simp only [call, display_readdressed h]
  | format => simp only [call, Texts.format?_readdressed h]
  | _ => rfl

end Library

/-! ## What is noted -/

/-- What events note to be shown. -/
def residentsIn (events : List Event) : List Resident :=
  events.filterMap fun
    | .shown r => some r
    | _ => none

theorem residentsIn_append (later events : List Event) :
    residentsIn (later ++ events) = residentsIn later ++ residentsIn events :=
  List.filterMap_append

/-- A computation that notes what it looks up: it is the same under any assignment that agrees on
    what is noted. -/
def Candid (x : Eval ν α) : Prop :=
  ∀ s m events, m.record = some events →
    ∃ later, (machineAfter (x s m)).record = some (later ++ events) ∧
      ∀ address : Addressing, address.AgreesOn s.address (residentsIn later) →
        x (s.readdressed address) m = x s m

namespace Candid

/-- A computation that looks nothing up and notes nothing. -/
theorem quiet {x : Eval ν α} (hrecord : ∀ s m, (machineAfter (x s m)).record = m.record)
    (hsame : ∀ s address m, x (s.readdressed address) m = x s m) : Candid x := by
  intro s m events h
  exact ⟨[], (hrecord s m).trans h, fun address _ => hsame s address m⟩

theorem bind {x : Eval ν α} {f : α → Eval ν β} (hx : Candid x) (hf : ∀ a, Candid (f a)) :
    Candid (x >>= f) := by
  intro s m events h
  rcases hx s m events h with ⟨later, hrecord, hsame⟩
  cases hr : x s m with
  | error e m' =>
      rw [hr] at hrecord
      refine ⟨later, ?_, fun address hagree => ?_⟩
      · rw [run_bind, hr]
        exact hrecord
      · rw [run_bind, run_bind, hsame address hagree, hr]
  | ok a m' =>
      rw [hr] at hrecord
      rcases hf a s m' _ hrecord with ⟨last, hrecord', hsame'⟩
      refine ⟨last ++ later, ?_, fun address hagree => ?_⟩
      · rw [run_bind, hr, List.append_assoc]
        exact hrecord'
      · -- Both runs come to the same machine, and go on from it in the same way.
        rw [residentsIn_append] at hagree
        have hfirst := hsame address fun r hr => hagree r (List.mem_append_right _ hr)
        have hthen := hsame' address fun r hr => hagree r (List.mem_append_left _ hr)
        rw [run_bind, run_bind, hfirst, hr]
        exact hthen

-- A plain step has no use for the assignment.
theorem plain {x y : Eval ν α} (hx : Plain x y) : Candid x := by
  rcases hx with ⟨g, -, rfl, -⟩
  refine quiet (fun s m => ?_) fun _ _ _ => rfl
  simp only [StoreStep.toEval]
  rcases g m.tables m.scopes with ⟨c | a, t, sc⟩ <;> rfl

theorem tick : Candid (tick : Eval ν Unit) := by
  refine quiet (fun s m => ?_) fun _ _ _ => rfl
  unfold Script.tick
  dsimp only
  split <;> rfl

theorem noting (e : Event) : Candid (fun _ m => .ok () (m.note e) : Eval ν Unit) := by
  intro s m events h
  refine ⟨[e], ?_, fun _ _ => rfl⟩
  simp only [machineAfter, Machine.note, h, List.cons_append, List.nil_append]

theorem mark (p : Progress) : Candid (mark p : Eval ν Unit) :=
  noting _

/-- All that is to be shown is noted, whatever the numbers are. -/
theorem run_exposeAll (rs : List Resident) (m : Machine ν) (events : List Event)
    (h : m.record = some events) :
    ∃ m', (∀ s, exposeAll rs s m = .ok () m') ∧
      m'.record = some (rs.reverse.map .shown ++ events) := by
  induction rs generalizing m events with
  | nil => exact ⟨m, fun _ => rfl, h⟩
  | cons r rs ih =>
      have hnoted : (m.note (.shown r)).record = some (.shown r :: events) := by
        simp only [Machine.note, h]
      rcases ih (m.note (.shown r)) _ hnoted with ⟨m', hrun, hrecord⟩
      refine ⟨m', hrun, hrecord.trans ?_⟩
      rw [List.reverse_cons, List.map_append, List.append_assoc]
      rfl

theorem residentsIn_shown (rs : List Resident) : residentsIn (rs.map .shown) = rs := by
  unfold residentsIn
  rw [List.filterMap_map]
  exact List.filterMap_some

/-- What a library function shows has been noted before it is called. -/
theorem library (b : Builtin) (args : List Value) :
    Candid (callLibrary b args : Eval ν (List Value)) := by
  intro s m events h
  rcases run_exposeAll (Library.shown b args) m events h with ⟨m', hrun, hrecord⟩
  have hcall : ∀ s, callLibrary b args s m = (libraryStep s.address b args).toEval s m' := by
    intro s
    rw [callLibrary, run_bind, hrun]
    exact run_callBuiltin b args s m'
  refine ⟨(Library.shown b args).reverse.map .shown, ?_, fun address hagree => ?_⟩
  · rw [hcall, ← hrecord]
    simp only [StoreStep.toEval]
    rcases libraryStep s.address b args m'.tables m'.scopes with ⟨c | vs, t, sc⟩ <;> rfl
  · rw [residentsIn_shown] at hagree
    have hsame : libraryStep address b args = libraryStep s.address b args := by
      unfold libraryStep
      rw [Library.call_readdressed fun r hr => hagree r (List.mem_reverse.mpr hr)]
    rw [hcall, hcall]
    change (libraryStep address b args).toEval _ _ = _
    rw [hsame]
    rfl

/-- Changes before and after that note something. -/
theorem around (first last : List Event) {before after : Machine ν → Machine ν}
    (hbefore : ∀ m events, m.record = some events → (before m).record = some (first ++ events))
    (hafter : ∀ m events, m.record = some events → (after m).record = some (last ++ events))
    {x : Eval ν α} (hx : Candid x) : Candid (around before after x) := by
  intro s m events h
  rcases hx s (before m) _ (hbefore m events h) with ⟨later, hrecord, hsame⟩
  refine ⟨last ++ (later ++ first), ?_, fun address hagree => ?_⟩
  · rw [List.append_assoc, List.append_assoc, ← hafter _ _ hrecord]
    unfold Script.around
    cases x s (before m) <;> rfl
  · simp only [residentsIn_append] at hagree
    have hbody := hsame address fun r hr =>
      hagree r (List.mem_append_right _ (List.mem_append_left _ hr))
    unfold Script.around
    rw [hbody]

theorem watched {region : Region} {x : Eval ν α} (hx : Candid x) : Candid (watched region x) := by
  have hnote : ∀ e (m : Machine ν) events, m.record = some events →
      (m.note e).record = some ([e] ++ events) := by
    intro e m events h
    simp only [Machine.note, h, List.cons_append, List.nil_append]
  exact around [.enter region] [.leave] (hnote _) (hnote _) hx

theorem nested {region : Region} {x : Eval ν α} (hx : Candid x) : Candid (nested region x) := by
  have hdeeper : Candid (deeper x) := by
    refine around [] [] ?_ ?_ hx <;> exact fun _ _ h => h
  intro s m events h
  unfold Script.nested
  by_cases hfull : m.nesting ≥ maxNesting
  · simp only [if_pos hfull]
    exact ⟨[], h, fun _ _ => rfl⟩
  · simp only [if_neg hfull]
    exact hdeeper.watched s m events h

theorem framed {chunk : String} {line : Nat} {x : Eval ν α} (hx : Candid x) :
    Candid (framed chunk line x) := by
  intro s m events h
  have hbody := hx s { m with depth := m.depth + 1, chunk := chunk, line := line } events h
  unfold Script.framed
  -- The call depth is one of the limits, which both settings have.
  have hlimits : ∀ address, (s.readdressed address).limits = s.limits := fun _ => rfl
  simp only [hlimits]
  by_cases hfull : m.depth ≥ s.limits.maxCallDepth
  · simp only [if_pos hfull]
    exact ⟨[], h, fun _ _ => rfl⟩
  · simp only [if_neg hfull]
    rcases hbody with ⟨later, hrecord, hsame⟩
    refine ⟨later, ?_, fun address hagree => by rw [hsame address hagree]⟩
    cases hr : x s { m with depth := m.depth + 1, chunk := chunk, line := line } <;>
      rw [hr] at hrecord <;> exact hrecord

theorem loop {round : σ → Eval ν (Turn σ α)} (hround : ∀ s, Candid (round s)) (fuel : Nat)
    (state : σ) : Candid (loop round fuel state) := by
  induction fuel generalizing state with
  | zero => exact quiet (fun _ _ => rfl) fun _ _ _ => rfl
  | succ fuel ih =>
      refine bind (hround state) fun turn => ?_
      cases turn with
      | again state => exact bind (mark .round) fun _ => ih state
      | done a => exact plain (Plain.pure a)

end Candid

/-- Evaluation notes what it looks up. -/
def candidCongruence : UniformCongruence ν where
  Admits _ := True
  Rel _ x _ := Candid x
  RelRound _ x _ := Candid x
  mono _ h := h
  plain h := Candid.plain h
  library b args := Candid.library b args
  bind hx hf := Candid.bind hx hf
  takeStep := Candid.bind Candid.tick fun _ => Candid.mark .statement
  atLine _ := Candid.quiet (fun _ _ => rfl) fun _ _ _ => rfl
  nested _ hx := Candid.nested hx
  watched _ hx := Candid.watched hx
  newClosure _ _ := Candid.quiet (fun _ _ => rfl) fun _ _ _ => rfl
  newScope _ := Candid.quiet (fun _ _ => rfl) fun _ _ _ => rfl
  onInnermost env _ := by
    cases env <;> exact Candid.quiet (fun _ _ => rfl) fun _ _ _ => rfl
  closureAt id _ _ hsome hnone := by
    intro s m events h
    simp only [run_closureAt_bind]
    cases m.closures[id.index]? with
    | none => exact hnone s m events h
    | some c => exact hsome c trivial s m events h
  rounds state hround := fun s m events h =>
    Candid.loop hround (s.limits.maxSteps + 1) state s m events h
  roundDone a := Candid.plain (Plain.pure _)
  roundAgain state := Candid.bind Candid.tick fun _ => Candid.plain (Plain.pure _)
  roundBind hx hf := Candid.bind hx hf

/-- Calls do so too. -/
def candidCalls : CallCongruence ν where
  toUniformCongruence := candidCongruence
  admits _ := trivial
  anyRoom h := h
  cutOff := Candid.quiet (fun _ _ => rfl) fun _ _ _ => rfl
  framed _ _ hx := Candid.framed hx
  within hx := fun s m events h => hx s.limits.maxCallDepth s m events h
  restarted hx := fun s m events h => hx s m.restarted events h
  located _ _ hx := fun s m events h => hx s { m with chunk := _, line := _ } events h
  unplaced _ := Candid.quiet (fun _ _ => rfl) fun _ _ _ => rfl

section Operations

variable [Reference ν]

theorem execChunk_candid (chunk : Chunk ν) : Candid (execChunk chunk) :=
  candidCalls.execChunk_rel chunk

theorem callGlobal_candid (name : String) (args : List Value) :
    Candid (callGlobal name args : Eval ν (List Value)) :=
  candidCalls.callGlobal_rel name args

/-! ## Engines -/

namespace Engine

/-- The same engine with other numbers for places. -/
def readdressed (e : Engine ν) (address : Addressing) : Engine ν :=
  ⟨e.setting.readdressed address, e.machine⟩

/-- What is shown while a host is given its answers. -/
def shown (e : Engine ν) (ops : List (HostOp ν)) : List Resident :=
  residentsIn ((e.recorded.answers ops).2.machine.record.getD [])

omit [Reference ν] in
theorem run_readdressed {x : Eval ν α} (hx : Candid x) (e : Engine ν) {events : List Event}
    (h : e.machine.record = some events) :
    ∃ later, (e.run x).2.machine.record = some (later ++ events) ∧
      (e.run x).2.setting = e.setting ∧
      ∀ address : Addressing, address.AgreesOn e.setting.address (residentsIn later) →
        (e.readdressed address).run x = ((e.run x).1, (e.run x).2.readdressed address) := by
  rcases e with ⟨s, m⟩
  rcases hx s m events h with ⟨later, hrecord, hsame⟩
  simp only [run, readdressed]
  refine ⟨later, ?_, ?_, fun address hagree => ?_⟩
  · cases hr : x s m <;> rw [hr] at hrecord <;> exact hrecord
  · cases x s m <;> rfl
  · rw [hsame address hagree]
    cases x s m <;> rfl

/-- An engine whose machine keeps a record does the same for a host under any assignment that agrees
    on what is noted while it does it. -/
theorem answer_readdressed (e : Engine ν) (op : HostOp ν) {events : List Event}
    (h : e.machine.record = some events) :
    ∃ later, (e.answer op).2.machine.record = some (later ++ events) ∧
      (e.answer op).2.setting = e.setting ∧
      ∀ address : Addressing, address.AgreesOn e.setting.address (residentsIn later) →
        (e.readdressed address).answer op =
          ((e.answer op).1, (e.answer op).2.readdressed address) := by
  cases op with
  | run chunk =>
      rcases run_readdressed (execChunk_candid chunk) e h with ⟨later, hrecord, hsetting, hsame⟩
      refine ⟨later, hrecord, hsetting, fun address hagree => ?_⟩
      simp only [answer, runChunk]
      rw [hsame address hagree]
  | bind name v => exact ⟨[], h, rfl, fun _ _ => rfl⟩
  | call name args =>
      rcases run_readdressed
        (callGlobal_candid name (e.machine.onTables (HostValue.allToScript args)).1)
        ⟨e.setting, (e.machine.onTables (HostValue.allToScript args)).2⟩ h with
        ⟨later, hrecord, hsetting, hsame⟩
      simp only [answer, call_eq]
      refine ⟨later, hrecord, hsetting, fun address hagree => ?_⟩
      have hrun := hsame address hagree
      simp only [readdressed] at hrun ⊢
      rw [hrun]
  | entryPoint name => exact ⟨[], h, rfl, fun _ _ => rfl⟩

/-- The induction is on the operations. -/
theorem answers_recorded_readdressed (e : Engine ν) (ops : List (HostOp ν)) {events : List Event}
    (h : e.machine.record = some events) :
    ∃ later, (e.answers ops).2.machine.record = some (later ++ events) ∧
      ∀ address : Addressing, address.AgreesOn e.setting.address (residentsIn later) →
        ((e.readdressed address).answers ops).1 = (e.answers ops).1 := by
  induction ops generalizing e events with
  | nil => exact ⟨[], h, fun _ _ => rfl⟩
  | cons op ops ih =>
      rcases answer_readdressed e op h with ⟨later, hrecord, hsetting, hsame⟩
      rcases ih _ hrecord with ⟨last, hrecord', hsame'⟩
      simp only [answers]
      refine ⟨last ++ later, by rw [List.append_assoc]; exact hrecord', fun address hagree => ?_⟩
      rw [residentsIn_append] at hagree
      rw [hsame address fun r hr => hagree r (List.mem_append_right _ hr)]
      refine congrArg (_ :: ·) (hsame' address fun r hr => ?_)
      rw [hsetting]
      exact hagree r (List.mem_append_left _ hr)

/-- A host gets the same answers under two assignments that agree on what is shown to the script
    under one of them. Sources, bound values and arguments decide everything else. -/
theorem answers_readdressed (e : Engine ν) (ops : List (HostOp ν)) {address : Addressing}
    (h : address.AgreesOn e.setting.address (e.shown ops)) :
    ((e.readdressed address).answers ops).1 = (e.answers ops).1 := by
  have hstart : e.recorded.machine.record = some [] := rfl
  rcases answers_recorded_readdressed e.recorded ops hstart with ⟨later, hrecord, hsame⟩
  rw [List.append_nil] at hrecord
  unfold shown at h
  rw [hrecord] at h
  have hkept := hsame address h
  -- Engines give a host the same answers whether they keep a record or not.
  have hforget : ∀ e : Engine ν, (e.recorded.answers ops).1 = (e.answers ops).1 := by
    intro e
    have hwith := answers_forget e.recorded ops
    have hwithout := answers_forget e ops
    have hboth : e.recorded.forget = e.forget := rfl
    rw [hboth, hwithout] at hwith
    exact (congrArg Prod.fst hwith).symm
  rw [← hforget e, ← hkept]
  exact (hforget (e.readdressed address)).symm

end Engine

end Operations

/-! ## Numbers that are shown -/

/-- Numbers from some number on, those of tables and those of functions in turns. -/
def Addressing.above (first : Nat) : Addressing
  | .table id => first + 2 * id.index
  | .function id => first + 2 * id.index + 1

theorem Addressing.above_injective (first : Nat) : Function.Injective (above first) := by
  rintro (⟨⟨i⟩⟩ | ⟨⟨i⟩⟩) (⟨⟨j⟩⟩ | ⟨⟨j⟩⟩) h <;> simp only [above] at h
  · have hij : i = j := by omega
    rw [hij]
  · omega
  · omega
  · have hij : i = j := by omega
    rw [hij]

/-- A source with two tables, of which a function shows the first. -/
def shownTable : String :=
  "local t = {} local u = {} function f() return tostring(t) == string.format('%s', t) end"

/-- For a run that shows one table twice, the numbers of all other places do not matter. -/
theorem answers_readdressed_shownTable :
    ∃ chunk, parseChunk "t.lua" shownTable = .ok chunk ∧
      (Engine.new ⟨{}, .spaced⟩ : Engine).shown [.run chunk, .call "f" []] =
        [.table ⟨4⟩, .table ⟨4⟩] ∧
      (((Engine.new ⟨{}, .spaced⟩ : Engine).readdressed (.above 0x5500000000F8)).answers
        [.run chunk, .call "f" []]).1 =
        ((Engine.new ⟨{}, .spaced⟩ : Engine).answers [.run chunk, .call "f" []]).1 := by
  have hcheck : (parseChunk "t.lua" shownTable).toOption.any (fun chunk =>
      decide ((Engine.new ⟨{}, .spaced⟩ : Engine).shown [.run chunk, .call "f" []] =
        [.table ⟨4⟩, .table ⟨4⟩])) = true := by
    decide +kernel
  cases hparse : parseChunk "t.lua" shownTable with
  | error e =>
      rw [hparse] at hcheck
      cases hcheck
  | ok chunk =>
      rw [hparse] at hcheck
      have hshown := of_decide_eq_true hcheck
      refine ⟨chunk, rfl, hshown, Engine.answers_readdressed _ _ fun r hr => ?_⟩
      rw [hshown] at hr
      have hr' : r = .table ⟨4⟩ := by
        rcases List.mem_cons.mp hr with hr | hr
        · exact hr
        · exact List.mem_singleton.mp hr
      rw [hr']
      rfl

/-- Whether a host is told that something is true. -/
def HostAnswer.holds : HostAnswer → Bool
  | .called (.ok (.bool b)) => b
  | _ => false

/-- A source with a function that looks at how long the text of a table is. -/
def shownLength : String :=
  "function f() return #tostring({}) > 10 end"

/-- A number that is shown can decide what a host is told, also when no two places share one. -/
theorem address_leaks :
    ∃ (chunk : Chunk) (address address' : Addressing), Function.Injective address ∧
      Function.Injective address' ∧
      ((Engine.new ⟨{}, address⟩ : Engine).answers [.run chunk, .call "f" []]).1 ≠
        ((Engine.new ⟨{}, address'⟩ : Engine).answers [.run chunk, .call "f" []]).1 := by
  have hcheck : (parseChunk "t.lua" shownLength).toOption.any (fun chunk =>
      (((Engine.new ⟨{}, .above 0⟩ : Engine).answers
        [.run chunk, .call "f" []]).1.map HostAnswer.holds == [false, false]) &&
      (((Engine.new ⟨{}, .above 0x550000000000⟩ : Engine).answers
        [.run chunk, .call "f" []]).1.map HostAnswer.holds == [false, true])) = true := by
    decide +kernel
  cases hparse : parseChunk "t.lua" shownLength with
  | error e =>
      rw [hparse] at hcheck
      cases hcheck
  | ok chunk =>
      rw [hparse] at hcheck
      rcases Bool.and_eq_true_iff.mp hcheck with ⟨hlow, hhigh⟩
      refine ⟨chunk, .above 0, .above 0x550000000000, Addressing.above_injective _,
        Addressing.above_injective _, fun hsame => ?_⟩
      rw [hsame, beq_iff_eq.mp hhigh] at hlow
      cases hlow

end Script

end PixelEffects
