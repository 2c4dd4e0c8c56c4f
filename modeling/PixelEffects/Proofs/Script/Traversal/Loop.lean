import PixelEffects.Proofs.Script.Built.Host
import PixelEffects.Proofs.Script.Traversal

/-!
# Loops over Tables

Every run of a loop over a table is a traversal.

A loop is given an iterator, a state and a control value, and `pairs` gives it the function `next`,
the table and `nil`. Whatever a round of it does, it begins by calling `next` with the last key. That
key is a value by then, and the call makes a key of it again, which has to be the same one. It is,
since the tables that a script can come to have legal keys only. Here it is used that the body leaves
built tables behind, by induction on the rounds that are left.

What is known of traversals is then known of loops. The key that a round is at may be stored under
again, and all other keys may be stored under or cleared. But the entry that a round is at has to be
there at its end, unless the loop is left. Clearing it makes the next round stop with a fault.

## Main definitions

* `eachBody`, `eachRound`: The body and a round of a loop.
* `Key.sort`: Booleans, numbers and texts.

## Theorems

* `exists_traversal`: Every run is a traversal.
* `pairs_in_order`: Loops over what a call of `pairs` gives.
* `traversal_in_order`: What is visited, as long as the last key is there.
* `traversal_needs_last_key`: What clearing entries does to a traversal.
-/

namespace PixelEffects

namespace Script

/-! ## The function that finds the next entry -/

namespace Key

/-- A legal key is what its value becomes. -/
theorem ofValue?_toValue {k : Key} (h : k.IsLegal) : ofValue? k.toValue = .ok k := by
  cases k with
  | bool | text => rfl
  | number x =>
      rcases h with ⟨hnan, hbits⟩
      have hnumber : ofNumber x = number x := by
        by_cases hzero : Number.IsZero x
        · rcases hzero with rfl | rfl
          · exact ofNumber_of_isZero Number.isZero_zero
          · exact absurd (by decide +kernel) hbits
        · exact ofNumber_of_not_isZero hzero
      rw [toValue, ofValue?, hnan, if_neg Bool.false_ne_true, hnumber]

theorem isLegal_of_mem_none {k : Key} (h : k ∈ (none : Option Key)) : k.IsLegal :=
  (Option.not_mem_none k h).elim

theorem isLegal_of_mem_some {j k : Key} (hk : k.IsLegal) (h : j ∈ some k) : j.IsLegal :=
  Option.mem_some.mp h ▸ hk

/-- Booleans, numbers and texts, in the order in which a traversal comes to them. -/
def sort : Key → Nat
  | bool _ => 0
  | number _ => 1
  | text _ => 2

theorem sort_le_of_lt {j k : Key} (h : compare j k = .lt) : j.sort ≤ k.sort := by
  rw [compare_eq_order] at h
  cases j <;> cases k <;> simp only [order, reduceCtorEq] at h <;> simp only [sort] <;> omega

end Key

/-- What a loop hands to the next round: the value of the last key, `nil` at the start. -/
def controlOf (after : Option Key) : Value :=
  after.elim .nil Key.toValue

theorem startingKey_controlOf {after : Option Key} (h : ∀ k ∈ after, k.IsLegal) :
    Library.startingKey (controlOf after) = .ok after := by
  cases after with
  | none => rfl
  | some k =>
      have hkey := Key.ofValue?_toValue (h k rfl)
      show Library.startingKey k.toValue = .ok (some k)
      cases hvalue : k.toValue with
      | nil => cases k <;> cases hvalue
      | _ =>
          rw [hvalue] at hkey
          rw [Library.startingKey, hkey]
          exact nofun

variable {ν : Type}

/-- What `pairs` gives to a loop, unless it fails. -/
theorem results_pairs {args vs : List Value} {s : Setting} {m m' : Machine ν}
    (h : callLibrary .pairs args s m = .ok vs m') :
    m' = m ∧ ∃ id, vs = [.builtin .next, .table id, .nil] := by
  rw [run_callLibrary (show Library.shown .pairs args = [] from rfl)] at h
  cases htable : Argument.table? .pairs args 0 with
  | error cause =>
      have hcall : Library.call s.address .pairs args m.tables = .error cause m.tables := by
        show (Library.take (Argument.table? .pairs args 0) >>= fun id => _) m.tables = _
        rw [htable]
        rfl
      rw [hcall] at h
      cases h
  | ok id =>
      have hcall : Library.call s.address .pairs args m.tables =
          .ok [.builtin .next, .table id, .nil] m.tables := by
        show (Library.take (Argument.table? .pairs args 0) >>= fun id => _) m.tables = _
        rw [htable]
        rfl
      rw [hcall] at h
      cases h
      exact ⟨rfl, id, rfl⟩

theorem run_next (id : TableId) {after : Option Key} (h : ∀ k ∈ after, k.IsLegal) (s : Setting)
    (m : Machine ν) : callLibrary .next [.table id, controlOf after] s m =
      if after.all (m.tables.table id).contains then
        match (m.tables.table id).next? after with
        | some (k, v) => .ok [k.toValue, v] m
        | none => .ok [.nil] m
      else fault (.library .lostKey) s m := by
  have hnext : Library.call s.address .next [.table id, controlOf after] m.tables =
      if after.all (m.tables.table id).contains then
        match (m.tables.table id).next? after with
        | some (k, v) => .ok [k.toValue, v] m.tables
        | none => .ok [.nil] m.tables
      else .error .lostKey m.tables := by
    show (Library.take (Library.startingKey (controlOf after)) >>= fun after => _) _ = _
    rw [startingKey_controlOf h]
    show (if after.all (m.tables.table id).contains then _ else _ : Library.Call _) m.tables = _
    split
    · cases (m.tables.table id).next? after <;> rfl
    · rfl
  rw [run_callLibrary (show Library.shown .next [.table id, controlOf after] = [] from rfl), hnext]
  split_ifs
  · cases (m.tables.table id).next? after <;> rfl
  · rfl

/-! ## Rounds -/

/-- The body of a loop over names, as the loop runs it with what it was given for them. -/
def eachBody [Reference ν] (call : Caller ν) (env : Env) (names : List String)
    (body : List (Stmt ν)) (vs : List Value) : Eval ν Flow := do
  let outer ← newScope (Scope.declareAll names vs [])
  inScope (outer :: env) fun inner => execAll call inner body

/-- A round of a loop over the entries of a table. -/
def eachRound (call : Caller ν) (id : TableId) (line : Nat) (body : List Value → Eval ν Flow)
    (control : Value) : Eval ν (Turn Value Flow) := do
  atLine line
  let vs ← callValue call .none (.builtin .next) [.table id, control]
  let first := vs.headD .nil
  if first.isNil then pure (.done .normal)
  else
    afterBody (do
      tick
      pure first) (← body vs)

section Rounds

variable {call : Caller ν} {id : TableId} {line : Nat} {body : List Value → Eval ν Flow}

theorem run_eachRound {after : Option Key} (h : ∀ k ∈ after, k.IsLegal) (s : Setting)
    (m : Machine ν) : eachRound call id line body (controlOf after) s m =
      if after.all (m.tables.table id).contains then
        match (m.tables.table id).next? after with
        | some (k, v) => visitBody body k v s { m with line := line }
        | none => .ok (.done .normal) { m with line := line }
      else fault (.library .lostKey) s { m with line := line } := by
  show ((callLibrary .next [.table id, controlOf after] >>= fun vs => _ : Eval ν _) s
    { m with line := line }) = _
  rw [run_bind, run_next id h]
  dsimp only
  by_cases hlast : after.all (m.tables.table id).contains = true
  · rw [if_pos hlast, if_pos hlast]
    cases (m.tables.table id).next? after with
    | none => rfl
    | some e =>
        rcases e with ⟨k, v⟩
        cases k <;> rfl
  · rw [if_neg hlast, if_neg hlast]
    rfl

/-- The next round begins at the key of this one. -/
theorem again_visitBody {k : Key} {v control : Value} {s : Setting} {m m' : Machine ν}
    (h : visitBody body k v s m = .ok (.again control) m') : control = k.toValue := by
  unfold visitBody at h
  rw [run_bind] at h
  cases hbody : body [k.toValue, v] s m with
  | error f m' =>
      rw [hbody] at h
      cases h
  | ok flow m₁ =>
      rw [hbody] at h
      cases flow with
      | broken | returned vs => cases h
      | normal =>
          change ((do
            tick
            pure k.toValue) >>= fun again => pure (.again again) : Eval ν (Turn Value Flow)) s m₁ =
              _ at h
          rw [run_bind, run_bind] at h
          cases htick : (tick : Eval ν Unit) s m₁ with
          | error f m' =>
              rw [htick] at h
              cases h
          | ok _ m₂ =>
              rw [htick] at h
              cases h
              rfl

theorem visitBody_builds (hbody : ∀ vs, Builds (body vs)) (k : Key) (v : Value) :
    Builds (visitBody body k v) :=
  (hbody _).bind fun flow => Builds.afterBody (Builds.tick.bind fun _ => Builds.pure _) flow

/-- Every run over built tables is a traversal, by induction on the fuel. -/
theorem exists_traversal (hbody : ∀ vs, Builds (body vs)) (s : Setting) (fuel : Nat)
    {after : Option Key} (hafter : ∀ k ∈ after, k.IsLegal) {m : Machine ν} (hm : m.tables.Built) :
    ∃ visits ending, Traversal s id line body fuel after m visits ending
      (loop (eachRound call id line body) fuel (controlOf after) s m) := by
  induction fuel generalizing after m with
  | zero => exact ⟨[], .left, .cut⟩
  | succ fuel ih =>
      unfold loop
      rw [run_bind, run_eachRound hafter]
      by_cases hall : after.all (m.tables.table id).contains = true
      case neg =>
        rw [if_neg hall]
        cases after with
        | none => exact absurd rfl hall
        | some k => exact ⟨[], .refused, .refused (Bool.eq_false_iff.mpr hall)⟩
      have hlast := (Option.all_eq_true _ _).mp hall
      rw [if_pos hall]
      cases hnext : (m.tables.table id).next? after with
      | none => exact ⟨[], .exhausted, .exhausted hlast hnext⟩
      | some e =>
          rcases e with ⟨k, v⟩
          have hbuilt := visitBody_builds hbody k v s { m with line := line } hm
          dsimp only
          cases hvisit : visitBody body k v s { m with line := line } with
          | error f m' => exact ⟨_, .left, .failed hlast hnext hvisit⟩
          | ok turn m' =>
              cases turn with
              | done flow => exact ⟨_, .left, .left hlast hnext hvisit⟩
              | again control =>
                  cases again_visitBody hvisit
                  rw [hvisit] at hbuilt
                  cases hbuilt with
                  | ok hm' _ =>
                      -- The key that was come to is one of a built table, and so it is legal.
                      have hlegal : k.IsLegal := (hm id).legal (Table.get_of_next? hnext).2
                      have hnoted : (m'.note (.progress .round)).tables.Built :=
                        Builds.tables_note m' _ ▸ hm'
                      rcases ih (fun _ => Key.isLegal_of_mem_some hlegal) hnoted with
                        ⟨visits, ending, hrest⟩
                      exact ⟨_, ending, .again hlast hnext hvisit hrest⟩

/-- A round that begins with a lost key stops with a fault on the line of the loop. -/
theorem run_eachRound_lost {k : Key} (hk : k.IsLegal) (s : Setting) {m : Machine ν}
    (hlost : (m.tables.table id).contains k = false) :
    eachRound call id line body k.toValue s m =
      fault (.library .lostKey) s { m with line := line } := by
  refine (run_eachRound (fun _ => Key.isLegal_of_mem_some hk) s m).trans (if_neg fun hall => ?_)
  rw [Option.all_some, hlost] at hall
  cases hall

/-- A first round that clears its entry and goes on is followed by the fault. -/
theorem run_loop_lost {k : Key} {v : Value} (hk : k.IsLegal) {s : Setting} {m m' : Machine ν}
    (hnext : (m.tables.table id).next? none = some (k, v))
    (hvisit : visitBody body k v s { m with line := line } = .ok (.again k.toValue) m')
    (hlost : (m'.tables.table id).contains k = false) (fuel : Nat) :
    ∃ m'', loop (eachRound call id line body) (fuel + 2) (controlOf none) s m =
      .error ⟨m''.chunk, line, .library .lostKey⟩ m'' := by
  have hround : eachRound call id line body (controlOf none) s m =
      visitBody body k v s { m with line := line } := by
    rw [run_eachRound (fun _ => Key.isLegal_of_mem_none), Option.all_none, if_pos rfl, hnext]
  have hnoted : ((m'.note (.progress .round)).tables.table id).contains k = false :=
    (Builds.tables_note m' _).symm ▸ hlost
  rw [loop, run_bind, hround, hvisit]
  show ∃ m'', loop (eachRound call id line body) (fuel + 1) k.toValue s
    (m'.note (.progress .round)) = _
  rw [loop, run_bind, run_eachRound_lost hk s hnoted]
  exact ⟨_, rfl⟩

/-- What is known of the visits of every traversal, and of its end. -/
theorem Traversal.in_order {s : Setting} {m : Machine ν} {fuel : Nat} {visits : List Visit}
    {ending : Ending} {r : EStateM.Result Fault (Machine ν) Flow}
    (h : Traversal s id line body fuel none m visits ending r) :
    (visits.Pairwise fun v w => compare v.key w.key = .lt ∧ v.key.sort ≤ w.key.sort) ∧
      (∀ v ∈ visits, v.before.contains v.key = true ∧ v.before.get v.key = v.value) ∧
      ((∀ v ∈ visits, v.after.contains v.key = true) → ending ≠ .refused) ∧
      (ending = .exhausted → ∀ k, (∀ v ∈ visits, v.before.contains k = true) →
        ((machineAfter r).tables.table id).contains k = true → ∃! v, v ∈ visits ∧ v.key = k) := by
  refine ⟨?_, h.entry, h.not_refused, fun hending k hbefore hfinal => ?_⟩
  · exact h.ascending.imp fun hlt => ⟨hlt, Key.sort_le_of_lt hlt⟩
  · exact (h.visited_once_iff hending k.isAfter_none).mpr (turn_contains hbefore hfinal)

end Rounds

/-! ## Loops -/

section Loops

variable [Reference ν] {call : Caller ν} {env : Env} (names : List String) {exprs : List (Expr ν)}
  (body : List (Stmt ν)) (line : Nat) {s : Setting} {m m₀ : Machine ν} {id : TableId}

theorem eachBody_builds (hcall : IsCaller call) (vs : List Value) :
    Builds (eachBody call env names body vs) :=
  (Builds.newScope _).bind fun _ => Builds.inScope fun inner => execAll_builds hcall.builds inner body

/-- A loop that is given what `pairs` gives is a loop over the entries of the table. -/
theorem run_eachLoop
    (hexprs : resultsOfAll call env exprs s m = .ok [.builtin .next, .table id, .nil] m₀) :
    (Action.eachLoop names exprs body).exec call env line s m =
      loop (eachRound call id line (eachBody call env names body)) (s.limits.maxSteps + 1)
        (controlOf none) s m₀ := by
  simp only [Action.exec]
  rw [run_bind, hexprs]
  rfl

/-- Every run of a loop over a table is a traversal. -/
theorem exists_loop_traversal (hcall : IsCaller call) (hm : m.tables.Built)
    (hexprs : resultsOfAll call env exprs s m = .ok [.builtin .next, .table id, .nil] m₀) :
    ∃ visits ending, Traversal s id line (eachBody call env names body) (s.limits.maxSteps + 1) none
      m₀ visits ending ((Action.eachLoop names exprs body).exec call env line s m) := by
  have hm₀ : m₀.tables.Built := by
    have hbuilt := resultsOfAll_builds hcall.builds env exprs s m hm
    rw [hexprs] at hbuilt
    cases hbuilt with
    | ok hm₀ _ => exact hm₀
  rw [run_eachLoop names body line hexprs]
  exact exists_traversal (eachBody_builds names body hcall) s _
    (fun _ => Key.isLegal_of_mem_none) hm₀

/-- A call of `pairs` fails, or it gives a loop what this goes over a table with. -/
theorem results_callPairs {callee : Expr ν} (args : List (Expr ν)) {m₁ : Machine ν}
    (hcallee : single (callee.results call env) s (m.note (.enter .allResults)) =
      .ok (.builtin .pairs) m₁) :
    (∃ f m', resultsOfAll call env [.call callee args] s m = .error f m') ∨
      ∃ id m₀, resultsOfAll call env [.call callee args] s m =
        .ok [.builtin .next, .table id, .nil] m₀ := by
  have hresults : (Expr.call callee args).results call env s (m.note (.enter .allResults)) =
      (resultsOfAll call env args >>= fun vs => callLibrary .pairs vs) s m₁ := by
    simp only [Expr.results]
    rw [run_bind, hcallee]
    rfl
  -- The call is made between two notes of the record.
  have hwatched : resultsOfAll call env [.call callee args] s m =
      watched .allResults ((Expr.call callee args).results call env) s m := by
    rw [resultsOfAll]
    rfl
  rw [hwatched]
  unfold watched around
  rw [hresults, run_bind]
  cases hargs : resultsOfAll call env args s m₁ with
  | error f m' => exact .inl ⟨f, _, rfl⟩
  | ok vs m₂ =>
      dsimp only
      cases hpairs : callLibrary .pairs vs s m₂ with
      | error f m' => exact .inl ⟨f, _, rfl⟩
      | ok us m₃ =>
          rcases results_pairs hpairs with ⟨rfl, id, rfl⟩
          exact .inr ⟨id, _, rfl⟩

/-- A loop over what a call of `pairs` gives fails with the call, or every run of it is a traversal. -/
theorem exists_pairs_traversal (hcall : IsCaller call) (hm : m.tables.Built) {callee : Expr ν}
    (args : List (Expr ν)) {m₁ : Machine ν}
    (hcallee : single (callee.results call env) s (m.note (.enter .allResults)) =
      .ok (.builtin .pairs) m₁) :
    (∃ f m', (Action.eachLoop names [.call callee args] body).exec call env line s m =
      .error f m' ∧ resultsOfAll call env [.call callee args] s m = .error f m') ∨
      ∃ id m₀ visits ending, resultsOfAll call env [.call callee args] s m =
          .ok [.builtin .next, .table id, .nil] m₀ ∧
        Traversal s id line (eachBody call env names body) (s.limits.maxSteps + 1) none m₀ visits
          ending ((Action.eachLoop names [.call callee args] body).exec call env line s m) := by
  rcases results_callPairs args hcallee with ⟨f, m', hfault⟩ | ⟨id, m₀, hresults⟩
  · refine .inl ⟨f, m', ?_, hfault⟩
    simp only [Action.exec]
    rw [run_bind, hfault]
  · rcases exists_loop_traversal names body line hcall hm hresults with ⟨visits, ending, h⟩
    exact .inr ⟨id, m₀, visits, ending, hresults, h⟩

/-- A loop over what a call of `pairs` gives fails with the call, or goes over the entries of a table in
    order. Then all keys but the last are there after their round, and if it is refused, that is a fault
    on its line. -/
theorem pairs_in_order (hcall : IsCaller call) (hm : m.tables.Built) {callee : Expr ν}
    (args : List (Expr ν)) {m₁ : Machine ν}
    (hcallee : single (callee.results call env) s (m.note (.enter .allResults)) =
      .ok (.builtin .pairs) m₁) :
    (∃ f m', (Action.eachLoop names [.call callee args] body).exec call env line s m =
      .error f m' ∧ resultsOfAll call env [.call callee args] s m = .error f m') ∨
    ∃ id m₀ visits ending, resultsOfAll call env [.call callee args] s m =
        .ok [.builtin .next, .table id, .nil] m₀ ∧
      Traversal s id line (eachBody call env names body) (s.limits.maxSteps + 1) none m₀ visits
        ending ((Action.eachLoop names [.call callee args] body).exec call env line s m) ∧
      (visits.Pairwise fun v w => compare v.key w.key = .lt ∧ v.key.sort ≤ w.key.sort) ∧
      (∀ v ∈ visits, v.before.contains v.key = true ∧ v.before.get v.key = v.value) ∧
      (∀ v ∈ visits.dropLast, v.after.contains v.key = true) ∧
      (ending = .refused → (∃ v ∈ visits.getLast?, v.after.contains v.key = false) ∧
        ∃ m', (Action.eachLoop names [.call callee args] body).exec call env line s m =
          .error ⟨m'.chunk, line, .library .lostKey⟩ m') := by
  rcases exists_pairs_traversal names body line hcall hm args hcallee with
    hfault | ⟨id, m₀, visits, ending, hresults, h⟩
  · exact .inl hfault
  · rcases h.in_order with ⟨hascending, hentry, _⟩
    exact .inr ⟨id, m₀, visits, ending, hresults, h, hascending, hentry, h.kept.1, fun hending =>
      ⟨h.lost_last hending, h.result_of_refused hending⟩⟩

/-- A loop over a table comes to its entries in the order of their keys, booleans before numbers and
    numbers before texts, whatever its body does to the table. It comes to no key twice, and to each
    with the value that is under it at that moment. It is not refused as long as each round leaves
    the entry it is at, and when nothing is left, all keys that have been there all the time were
    come to once. -/
theorem traversal_in_order (hcall : IsCaller call) (hm : m.tables.Built)
    (hexprs : resultsOfAll call env exprs s m = .ok [.builtin .next, .table id, .nil] m₀) :
    ∃ visits ending, Traversal s id line (eachBody call env names body) (s.limits.maxSteps + 1) none
        m₀ visits ending ((Action.eachLoop names exprs body).exec call env line s m) ∧
      (visits.Pairwise fun v w => compare v.key w.key = .lt ∧ v.key.sort ≤ w.key.sort) ∧
      (∀ v ∈ visits, v.before.contains v.key = true ∧ v.before.get v.key = v.value) ∧
      ((∀ v ∈ visits, v.after.contains v.key = true) → ending ≠ .refused) ∧
      (ending = .exhausted → ∀ k, (∀ v ∈ visits, v.before.contains k = true) →
        ((machineAfter ((Action.eachLoop names exprs body).exec call env line s m)).tables.table
          id).contains k = true →
        ∃! v, v ∈ visits ∧ v.key = k) := by
  rcases exists_loop_traversal names body line hcall hm hexprs with ⟨visits, ending, h⟩
  exact ⟨visits, ending, h, h.in_order⟩

/-- A body that stores under the key of its round, and clears a key that may be still to come. -/
def storesAndClears : List Stmt :=
  [.mk 1 (.assign [.index (.name "string") (.name "k"), .index (.name "string") (.text "upper")]
    [.bool true, .nil])]

/-- Going over the functions on texts while these are replaced, and one of them is cleared before its
    turn. -/
theorem traversal_in_order_string :
    let loop : Action := .eachLoop ["k", "v"] [.call (.name "pairs") [.name "string"]] storesAndClears
    ∃ visits ending, Traversal ⟨{}, .spaced⟩ ⟨2⟩ 1 (eachBody callWithin [] ["k", "v"] storesAndClears)
        1000001 none Machine.initial visits ending
        (loop.exec callWithin [] 1 ⟨{}, .spaced⟩ Machine.initial) ∧
      (visits.Pairwise fun v w => compare v.key w.key = .lt) ∧
      ∀ v ∈ visits, v.before.contains v.key = true ∧ v.before.get v.key = v.value := by
  have hexprs : resultsOfAll callWithin [] [.call (.name "pairs") [.name "string"]] ⟨{}, .spaced⟩
      (Machine.initial : Machine) = .ok [.builtin .next, .table ⟨2⟩, .nil] Machine.initial := rfl
  rcases traversal_in_order ["k", "v"] storesAndClears 1 .within
    Library.initialTables_built hexprs with ⟨visits, ending, h, hascending, hentry, _⟩
  exact ⟨visits, ending, h, hascending.imp And.left, hentry⟩

/-- What becomes of a traversal when its body clears entries. Whatever else the body assigns to, the
    entry that a round is at has to be there when the next round begins, which is a fault on the line
    of the loop otherwise. So all keys but the last are there after their round, and a traversal that
    is refused has lost the last one. If nothing is left in the end, those keys were come to that were
    there when it was their turn, and each of them once. A body that clears each entry that it is
    given sees one at most, and only a table without entries is exhausted by it. -/
theorem traversal_needs_last_key (hcall : IsCaller call) (hm : m.tables.Built)
    (hexprs : resultsOfAll call env exprs s m = .ok [.builtin .next, .table id, .nil] m₀) :
    ∃ visits ending, Traversal s id line (eachBody call env names body) (s.limits.maxSteps + 1) none
        m₀ visits ending ((Action.eachLoop names exprs body).exec call env line s m) ∧
      (∀ v ∈ visits.dropLast, v.after.contains v.key = true) ∧
      ((∀ v ∈ visits, v.after.contains v.key = true) → ending ≠ .refused) ∧
      (ending = .refused → (∃ v ∈ visits.getLast?, v.after.contains v.key = false) ∧
        ∃ m', (Action.eachLoop names exprs body).exec call env line s m =
          .error ⟨m'.chunk, line, .library .lostKey⟩ m') ∧
      (ending = .exhausted → ∀ k, (∃! v, v ∈ visits ∧ v.key = k) ↔
        (turn ((machineAfter ((Action.eachLoop names exprs body).exec call env line s m)).tables.table
          id) k visits).contains k = true) ∧
      ((∀ v ∈ visits, v.after.contains v.key = false) → visits.length ≤ 1 ∧
        (ending = .exhausted → ∀ k, (m₀.tables.table id).contains k = false)) ∧
      ∀ k m₁, k.IsLegal → (m₁.tables.table id).contains k = false →
        eachRound call id line (eachBody call env names body) k.toValue s m₁ =
          fault (.library .lostKey) s { m₁ with line := line } := by
  rcases exists_loop_traversal names body line hcall hm hexprs with
    ⟨visits, ending, h⟩
  refine ⟨visits, ending, h, h.kept.1, h.not_refused, fun hending => ?_, fun hending k => ?_,
    h.cleared, fun k m₁ hk hlost => run_eachRound_lost hk s hlost⟩
  · exact ⟨h.lost_last hending, h.result_of_refused hending⟩
  · exact h.visited_once_iff hending k.isAfter_none

end Loops

/-- The same traversal. It is never at the key that is cleared. -/
theorem traversal_needs_last_key_string :
    let loop : Action := .eachLoop ["k", "v"] [.call (.name "pairs") [.name "string"]] storesAndClears
    ∃ visits ending, Traversal ⟨{}, .spaced⟩ ⟨2⟩ 1 (eachBody callWithin [] ["k", "v"] storesAndClears)
        1000001 none Machine.initial visits ending
        (loop.exec callWithin [] 1 ⟨{}, .spaced⟩ Machine.initial) ∧
      ∀ v ∈ visits.dropLast, v.after.contains v.key = true := by
  have hexprs : resultsOfAll callWithin [] [.call (.name "pairs") [.name "string"]] ⟨{}, .spaced⟩
      (Machine.initial : Machine) = .ok [.builtin .next, .table ⟨2⟩, .nil] Machine.initial := rfl
  rcases traversal_needs_last_key ["k", "v"] storesAndClears 1 .within
    Library.initialTables_built hexprs with ⟨visits, ending, h, hkept, _⟩
  exact ⟨visits, ending, h, hkept⟩

/-- Going over the functions on texts, and clearing each of them: the loop is refused when it comes
    back for the second one. -/
theorem clearing_last_key_refused :
    let clearing : Stmt := .mk 1 (.assign [.index (.name "string") (.name "k")] [.nil])
    let loop : Action := .eachLoop ["k"] [.call (.name "pairs") [.name "string"]] [clearing]
    ∃ m', loop.exec callWithin [] 1 ⟨{}, .spaced⟩ Machine.initial =
      .error ⟨m'.chunk, 1, .library .lostKey⟩ m' := by
  intro clearing loop
  have hexprs : resultsOfAll callWithin [] [.call (.name "pairs") [.name "string"]] ⟨{}, .spaced⟩
      (Machine.initial : Machine) = .ok [.builtin .next, .table ⟨2⟩, .nil] Machine.initial := rfl
  have hnext : ((Machine.initial : Machine).tables.table ⟨2⟩).next? none =
      some (.text "format", .builtin .format) := by
    rw [Table.next?_eq_find?]
    rfl
  have hvisit : ∃ m₁, visitBody (eachBody callWithin [] ["k"] [clearing]) (.text "format")
      (.builtin .format) ⟨{}, .spaced⟩ { Machine.initial with line := 1 } =
        .ok (.again (.text "format")) m₁ ∧
      (m₁.tables.table ⟨2⟩).contains (.text "format") = false := by
    have hcheck : (match visitBody (eachBody callWithin [] ["k"] [clearing]) (.text "format")
        (.builtin .format) ⟨{}, .spaced⟩ { Machine.initial with line := 1 } with
      | .ok (.again _) m₁ => !(m₁.tables.table ⟨2⟩).contains (.text "format")
      | _ => false) = true := by
      decide +kernel
    split at hcheck
    · next control m₁ hrun =>
        cases again_visitBody hrun
        exact ⟨m₁, hrun, Bool.not_eq_true' _ ▸ hcheck⟩
    · cases hcheck
  rcases hvisit with ⟨m₁, hrun, hlost⟩
  rw [run_eachLoop ["k"] [clearing] 1 hexprs]
  exact run_loop_lost (Key.isLegal_text "format") hnext hrun hlost 999999

end Script

end PixelEffects
