import PixelEffects.Proofs.Script.Plain
import PixelEffects.Proofs.Script.Reach
import PixelEffects.Proofs.Script.Slack

/-!
# Graded Congruence of Evaluation

One induction over the syntax, for every statement about what all evaluation does.

Most statements about runs say that two computations behave alike, or that one computation keeps
something: under larger limits, with and without a record, between a beginning and an end with the
same counters. Such a statement is a relation between computations. To prove it for all programs
one has to go through all of the syntax, but what happens there is always the same: a compound is
put together from its parts by a few combinators, and the relation is carried through each of them.

`GradedCongruence` lists these combinators. A relation that has all the closure properties of the
list, and those for scopes and functions in `UniformGraded`, relates the evaluation of any syntax
tree with two ways of calling functions as soon as it relates the two ways. `Expr.results_graded`,
`execAll_graded` and the theorems between them are that induction.

The two lists are apart because what is common to all of evaluation does not depend on how variables
are referred to. Scopes and functions do.

Relations come with two numbers, the room that is left for regions that are not counted and for those
that are. Each goes down by one where such a region is entered. How much is needed is told by the
text: by slack for the one, by height and reach for the other. What functions need that are made on
the way is bounded for all of them together, since they run somewhere else. Relations that do not care
about a number take no notice of it.

Calls of library functions stand in the list as well. They are plain steps once it is known what
places are shown as, but what they show is noted first, and it is for the relation to say what that
means.

Loops need a second relation, between rounds. A round that goes on has to take a step, and a relation
may want to know that: it is what limits the number of rounds.

## Main definitions

* `GradedCongruence`: A relation that the combinators of evaluation respect, given room.
* `UniformGraded`: One that scopes and functions respect too.

## Theorems

* `GradedCongruence.single_rel`, `GradedCongruence.whileRounds_rel` and others: One for each way to
  put a compound together.
* `Expr.results_graded`, `execAll_graded`, `block_graded`: Evaluation respects every such relation,
  given as much room as the text says.
-/

namespace PixelEffects

namespace Script

/-- A relation between computations, for each amount of room, that is respected by what evaluation
    is made of. The two computations need not refer to variables in the same way. -/
structure GradedCongruence (ν μ : Type) where
  Rel : {α : Type} → Nat → Nat → Eval ν α → Eval μ α → Prop
  RelRound : {σ α : Type} → Nat → Nat → Eval ν (Turn σ α) → Eval μ (Turn σ α) → Prop
  mono : ∀ {α : Type} {n n' k k' : Nat} {x : Eval ν α} {y : Eval μ α}, n ≤ n' → k ≤ k' →
    Rel n k x y → Rel n' k' x y
  plain : ∀ {α : Type} {n k : Nat} {x : Eval ν α} {y : Eval μ α}, Plain x y → Rel n k x y
  library : ∀ {n k : Nat} (b : Builtin) (args : List Value),
    Rel n k (callLibrary b args) (callLibrary b args)
  bind : ∀ {α β : Type} {n k : Nat} {x : Eval ν α} {y : Eval μ α} {f : α → Eval ν β}
    {g : α → Eval μ β}, Rel n k x y → (∀ a, Rel n k (f a) (g a)) → Rel n k (x >>= f) (y >>= g)
  takeStep : ∀ {n k : Nat}, Rel n k takeStep takeStep
  atLine : ∀ {n k : Nat} (line : Nat), Rel n k (atLine line) (atLine line)
  nested : ∀ {α : Type} {n k : Nat} {region : Region} {x : Eval ν α} {y : Eval μ α},
    region = .block ∨ region = .value → Rel n k x y →
      Rel n (k + 1) (nested region x) (nested region y)
  watched : ∀ {α : Type} {n k : Nat} {region : Region} {x : Eval ν α} {y : Eval μ α},
    region = .repeatBody ∨ region = .allResults → Rel n k x y →
      Rel (n + 1) k (watched region x) (watched region y)
  rounds : ∀ {σ α : Type} {n k : Nat} {round : σ → Eval ν (Turn σ α)}
    {round' : σ → Eval μ (Turn σ α)} (state : σ),
    (∀ s, RelRound n k (round s) (round' s)) → Rel n k (rounds round state) (rounds round' state)
  roundDone : ∀ {σ α : Type} {n k : Nat} (a : α),
    RelRound n k (pure (.done a) : Eval ν (Turn σ α)) (pure (.done a))
  roundAgain : ∀ {σ α : Type} {n k : Nat} (state : σ),
    RelRound n k (Script.tick >>= fun _ => (pure (.again state) : Eval ν (Turn σ α)))
      (Script.tick >>= fun _ => pure (.again state))
  roundBind : ∀ {σ α β : Type} {n k : Nat} {x : Eval ν β} {y : Eval μ β}
    {f : β → Eval ν (Turn σ α)} {g : β → Eval μ (Turn σ α)},
    Rel n k x y → (∀ b, RelRound n k (f b) (g b)) → RelRound n k (x >>= f) (y >>= g)

/-- A congruence of computations that refer to variables in the same way, and that scopes and
    functions respect as well. Functions that can be made have bodies with no more than some reach, and
    those that can be called are the ones that it admits. -/
structure UniformGraded (ν : Type) extends GradedCongruence ν ν where
  bodies : Nat
  Admits : Closure ν → Prop
  newScope : ∀ {n k : Nat} (scope : Scope), Rel n k (newScope scope) (newScope scope)
  onInnermost : ∀ {n k : Nat} (env : Env) (f : Scope → Scope),
    Rel n k (onInnermost env f) (onInnermost env f)
  newClosure : ∀ {n k : Nat} {definition : Function ν} (env : Env),
    definition.slack ≤ n ∧ definition.bodies ≤ bodies →
      Rel n k (newClosure definition env) (newClosure definition env)
  closureAt : ∀ {α : Type} {n k : Nat} (id : ClosureId) {f g : Option (Closure ν) → Eval ν α},
    (∀ c, Admits c → Rel n k (f (some c)) (g (some c))) → Rel n k (f none) (g none) →
      Rel n k (closureAt id >>= f) (closureAt id >>= g)

variable {ν μ α β σ : Type}

namespace GradedCongruence

variable (C : GradedCongruence ν μ) {n k : Nat}

theorem pure_rel (a : α) : C.Rel n k (pure a) (pure a) :=
  C.plain (Plain.pure a)

theorem fault_rel {c : Cause} (hc : c.isBound = false) :
    C.Rel n k (fault c : Eval ν α) (fault c) :=
  C.plain (Plain.fault hc)

/-- A list of one value, from a computation of the value. -/
theorem one_rel {x : Eval ν Value} {y : Eval μ Value} (h : C.Rel n k x y) :
    C.Rel n k (do pure [← x]) (do pure [← y]) :=
  C.bind h fun v => C.pure_rel [v]

/-- Where one value is wanted, the region that counts is one unit of room, and there has to be one. -/
theorem single_rel {x : Eval ν (List Value)} {y : Eval μ (List Value)} {height : Nat}
    (hpos : 0 < height) (hk : height ≤ k)
    (h : ∀ k, height ≤ k + 1 → C.Rel n k x y) : C.Rel n k (single x) (single y) := by
  cases k with
  | zero => omega
  | succ k => exact C.nested (Or.inr rfl) (C.bind (h k hk) fun _ => C.pure_rel _)

/-- All results of a call are wanted at the cost of one unit of room for regions that do not count,
    and one value at the cost of one for those that do. -/
theorem spread_rel {isMulti : Bool} {x : Eval ν (List Value)} {y : Eval μ (List Value)}
    {slack height : Nat} (hn : slack + isMulti.toNat ≤ n) (hpos : 0 < height) (hk : height ≤ k)
    (h : ∀ n k, slack ≤ n → height ≤ k + 1 → C.Rel n k x y) :
    C.Rel n k (spread isMulti x) (spread isMulti y) := by
  cases isMulti with
  | false =>
      simp only [Bool.toNat_false, Nat.add_zero] at hn
      exact C.one_rel (C.single_rel hpos hk fun k hk => h n k hn hk)
  | true =>
      simp only [Bool.toNat_true] at hn
      -- The call itself is the region that is not counted, and what is in it has the rest.
      have hcall : C.Rel slack k x y := h slack k (Nat.le_refl _) (by omega)
      exact C.mono hn (Nat.le_refl k) (C.watched (Or.inr rfl) hcall)

/-! ## Loops -/

/-- After its body a loop goes on with a step, or it is done. -/
theorem afterBody_rel {again : Eval ν σ} {again' : Eval μ σ}
    (h : C.RelRound n k (again >>= fun s => (pure (.again s) : Eval ν (Turn σ Flow)))
      (again' >>= fun s => pure (.again s))) (flow : Flow) :
    C.RelRound n k (afterBody again flow) (afterBody again' flow) := by
  cases flow with
  | normal => exact h
  | broken => exact C.roundDone _
  | returned vs => exact C.roundDone _

theorem whileRounds_rel {line : Nat} {cond : Eval ν Value} {cond' : Eval μ Value}
    {body : Eval ν Flow} {body' : Eval μ Flow}
    (hcond : C.Rel n k cond cond') (hbody : C.Rel n k body body') :
    C.Rel n k (whileRounds line cond body) (whileRounds line cond' body') := by
  refine C.rounds () fun _ => C.roundBind hcond fun v => ?_
  split
  · refine C.roundBind hbody fun flow => C.afterBody_rel ?_ flow
    -- What is left of a round that goes on is to move to the line and to take a step.
    simp only [bind_assoc]
    exact C.roundBind (C.atLine line) fun _ => C.roundAgain ()
  · exact C.roundDone _

theorem repeatRounds_rel {line : Nat} {body : Eval ν (Flow × Env)} {body' : Eval μ (Flow × Env)}
    {cond : Env → Eval ν Value} {cond' : Env → Eval μ Value} (hbody : C.Rel n k body body')
    (hcond : ∀ env, C.Rel n k (cond env) (cond' env)) :
    C.Rel n k (repeatRounds line body cond) (repeatRounds line body' cond') := by
  refine C.rounds () fun _ => C.roundBind hbody fun r => ?_
  -- A body that was left leaves the loop as well, and the condition is not asked.
  rcases r with ⟨_ | _ | vs, env⟩
  · refine C.roundBind (hcond env) fun v => ?_
    split
    · exact C.roundDone _
    · exact C.roundBind (C.atLine line) fun _ => C.roundAgain ()
  · exact C.roundDone _
  · exact C.roundDone _

theorem countRounds_rel {line : Nat} {start limit step : Float} {body : Float → Eval ν Flow}
    {body' : Float → Eval μ Flow} (hbody : ∀ i, C.Rel n k (body i) (body' i)) :
    C.Rel n k (countRounds line start limit step body)
      (countRounds line start limit step body') := by
  refine C.rounds start fun i => ?_
  split
  · refine C.roundBind (hbody i) fun flow => C.afterBody_rel ?_ flow
    simp only [bind_assoc, pure_bind]
    exact C.roundBind (C.atLine line) fun _ => C.roundAgain (i + step)
  · exact C.roundDone _

theorem eachRounds_rel {line : Nat} {iterate : Value → Eval ν (List Value)}
    {iterate' : Value → Eval μ (List Value)} {control : Value} {body : List Value → Eval ν Flow}
    {body' : List Value → Eval μ Flow} (hiterate : ∀ v, C.Rel n k (iterate v) (iterate' v))
    (hbody : ∀ vs, C.Rel n k (body vs) (body' vs)) :
    C.Rel n k (eachRounds line iterate control body) (eachRounds line iterate' control body') := by
  refine C.rounds control fun v => C.roundBind (C.atLine line) fun _ => ?_
  refine C.roundBind (hiterate v) fun vs => ?_
  dsimp only
  -- The first of the values is what the next round begins with, or `nil`, which ends the loop.
  split
  · exact C.roundDone _
  · refine C.roundBind (hbody vs) fun flow => C.afterBody_rel ?_ flow
    simp only [bind_assoc, pure_bind]
    exact C.roundAgain _

end GradedCongruence

namespace UniformGraded

variable (C : UniformGraded ν) {n k : Nat}

/-- A block is one region that counts, and its statements have the rest of the room. -/
theorem inScope_rel {env : Env} {f g : Env → Eval ν Flow} {reach : Nat} (hk : reach + 1 ≤ k)
    (h : ∀ inner, C.Rel n reach (f inner) (g inner)) :
    C.Rel n k (inScope env f) (inScope env g) :=
  C.mono (Nat.le_refl n) hk (C.nested (Or.inl rfl) (C.bind (C.newScope []) fun _ => h _))

theorem inOpenScope_rel {env : Env} {f g : Env → Eval ν Flow}
    (h : ∀ inner, C.Rel n k (f inner) (g inner)) :
    C.Rel (n + 1) k (inOpenScope env f) (inOpenScope env g) := by
  refine C.bind (C.newScope []) fun scope => ?_
  refine C.bind (C.watched (Or.inl rfl) (h _)) fun flow => ?_
  exact C.pure_rel _

theorem callValue_rel {call call' : Caller ν}
    (hcall : ∀ c args, C.Admits c → C.Rel 0 0 (call c args) (call' c args)) (site : Site)
    (f : Value) (args : List Value) :
    C.Rel n k (callValue call site f args) (callValue call' site f args) := by
  cases f with
  | builtin b => exact C.library b args
  | function id =>
      refine C.closureAt id (fun c hc => ?_) (C.fault_rel rfl)
      -- A call needs no room, so it does not matter how much there is.
      exact C.mono (Nat.zero_le n) (Nat.zero_le k) (hcall c args hc)
  | _ => exact C.fault_rel rfl

end UniformGraded

/-! ## The induction -/

section Syntax

variable [Reference ν] (C : UniformGraded ν) {call call' : Caller ν}
  (hcall : ∀ c args, C.Admits c → C.Rel 0 0 (call c args) (call' c args))

include hcall

-- Only expressions and loops call functions themselves, the others do it through them.
set_option linter.unusedSectionVars false

mutual

/-- Evaluating an expression respects every congruence that calling functions respects. The
    expression itself has been entered when it is evaluated, so it needs room for one region less than
    it is high. -/
theorem Expr.results_graded (env : Env) {n k : Nat} : (e : Expr ν) →
    e.slack ≤ n ∧ e.height ≤ k + 1 ∧ e.bodies ≤ C.bodies →
    C.Rel n k (e.results call env) (e.results call' env)
  | .nil, _ | .bool _, _ | .number _, _ | .text _, _ => C.pure_rel _
  | .function d, h => by
      simp only [Expr.slack, Expr.height, Expr.bodies] at h
      exact C.one_rel (C.newClosure env ⟨h.1, h.2.2⟩)
  | .name x, _ => C.one_rel (C.plain (plain_readVariable env x))
  | .index object key, h => by
      simp only [Expr.slack, Expr.height, Expr.bodies, Nat.max_le] at h
      simp only [Expr.results]
      refine C.bind (C.single_rel object.height_pos (by omega) fun k hk =>
        Expr.results_graded env object ⟨by omega, hk, by omega⟩) fun o => ?_
      refine C.bind (C.single_rel key.height_pos (by omega) fun k hk =>
        Expr.results_graded env key ⟨by omega, hk, by omega⟩) fun v => ?_
      exact C.one_rel (C.plain (plain_indexOf object o v))
  | .call callee args, h => by
      simp only [Expr.slack, Expr.height, Expr.bodies, Nat.max_le] at h
      simp only [Expr.results]
      -- Callee, arguments, call: the parts are evaluated in this order.
      refine C.bind (C.single_rel callee.height_pos (by omega) fun k hk =>
        Expr.results_graded env callee ⟨by omega, hk, by omega⟩) fun f => ?_
      refine C.bind (resultsOfAll_graded env args ⟨by omega, by omega, by omega⟩) fun vs => ?_
      exact C.callValue_rel hcall _ f vs
  | .method object name args, h => by
      simp only [Expr.slack, Expr.height, Expr.bodies, Nat.max_le] at h
      simp only [Expr.results]
      refine C.bind (C.single_rel object.height_pos (by omega) fun k hk =>
        Expr.results_graded env object ⟨by omega, hk, by omega⟩) fun o => ?_
      refine C.bind (C.plain (plain_index o _)) fun f => ?_
      refine C.bind (resultsOfAll_graded env args ⟨by omega, by omega, by omega⟩) fun vs => ?_
      exact C.callValue_rel hcall _ f (o :: vs)
  | .table fields, h => by
      simp only [Expr.slack, Expr.height, Expr.bodies] at h
      simp only [Expr.results]
      refine C.bind (addFields_graded env .empty 1 fields ⟨by omega, by omega, by omega⟩)
        fun t => ?_
      exact C.one_rel (C.plain (plain_newTable t))
  | .unary op operand, h => by
      simp only [Expr.slack, Expr.height, Expr.bodies] at h
      simp only [Expr.results]
      refine C.bind (C.single_rel operand.height_pos (by omega) fun k hk =>
        Expr.results_graded env operand ⟨by omega, hk, by omega⟩) fun v => ?_
      exact C.one_rel (C.plain (plain_askTables fun t c hc => unary?_boundless hc))
  | .binary op left right, h => by
      simp only [Expr.slack, Expr.height, Expr.bodies, Nat.max_le] at h
      have hl : C.Rel n k (single (left.results call env)) (single (left.results call' env)) :=
        C.single_rel left.height_pos (by omega) fun k hk =>
          Expr.results_graded env left ⟨by omega, hk, by omega⟩
      have hr : C.Rel n k (single (right.results call env)) (single (right.results call' env)) :=
        C.single_rel right.height_pos (by omega) fun k hk =>
          Expr.results_graded env right ⟨by omega, hk, by omega⟩
      -- Only `and` and `or` look at the first operand before they turn to the second.
      cases op with
      | and =>
          simp only [Expr.results]
          refine C.bind hl fun l => ?_
          split
          · exact C.one_rel hr
          · exact C.pure_rel _
      | or =>
          simp only [Expr.results]
          refine C.bind hl fun l => ?_
          split
          · exact C.pure_rel _
          · exact C.one_rel hr
      | _ =>
          simp only [Expr.results]
          refine C.bind hl fun l => C.bind hr fun r => ?_
          exact C.one_rel (C.plain (plain_binary _ l r))
  | .paren inner, h => by
      simp only [Expr.slack, Expr.height, Expr.bodies] at h
      simp only [Expr.results]
      exact C.one_rel (C.single_rel inner.height_pos (by omega) fun k hk =>
        Expr.results_graded env inner ⟨by omega, hk, by omega⟩)

theorem resultsOfAll_graded (env : Env) {n k : Nat} : (es : List (Expr ν)) →
    slackOfList es ≤ n ∧ heightOfList es ≤ k ∧ bodiesOfList es ≤ C.bodies →
    C.Rel n k (resultsOfAll call env es) (resultsOfAll call' env es)
  | [], _ => C.pure_rel _
  | [e], h => by
      simp only [slackOfList, heightOfList, bodiesOfList, Nat.max_le] at h
      simp only [resultsOfAll]
      -- Only of the last expression all results are wanted.
      exact C.spread_rel (by omega) e.height_pos (by omega) fun n k hn hk =>
        Expr.results_graded env e ⟨hn, hk, by omega⟩
  | e :: next :: es, h => by
      rw [slackOfList, heightOfList, bodiesOfList] at h
      simp only [resultsOfAll]
      refine C.bind (C.single_rel e.height_pos (by omega) fun k hk =>
        Expr.results_graded env e ⟨by omega, hk, by omega⟩) fun v => ?_
      refine C.bind (resultsOfAll_graded env (next :: es) ⟨by omega, by omega, by omega⟩)
        fun vs => ?_
      exact C.pure_rel _

theorem addFields_graded (env : Env) {n k : Nat} (t : Table) (pos : Nat) :
    (fields : List (Field ν)) →
      slackOfFields fields ≤ n ∧ heightOfFields fields ≤ k ∧ bodiesOfFields fields ≤ C.bodies →
      C.Rel n k (addFields call env t pos fields) (addFields call' env t pos fields)
  | [], _ => C.pure_rel _
  | .named name value :: fields, h => by
      simp only [slackOfFields, heightOfFields, bodiesOfFields, Field.slack, Field.height,
        Field.bodies, Nat.max_le] at h
      simp only [addFields]
      refine C.bind (C.single_rel value.height_pos (by omega) fun k hk =>
        Expr.results_graded env value ⟨by omega, hk, by omega⟩) fun v => ?_
      exact addFields_graded env _ _ fields ⟨by omega, by omega, by omega⟩
  | .keyed key value :: fields, h => by
      simp only [slackOfFields, heightOfFields, bodiesOfFields, Field.slack, Field.height,
        Field.bodies, Nat.max_le] at h
      simp only [addFields]
      refine C.bind (C.single_rel key.height_pos (by omega) fun k hk =>
        Expr.results_graded env key ⟨by omega, hk, by omega⟩) fun v => ?_
      refine C.bind (C.plain (plain_keyOf v)) fun _ => ?_
      refine C.bind (C.single_rel value.height_pos (by omega) fun k hk =>
        Expr.results_graded env value ⟨by omega, hk, by omega⟩) fun v => ?_
      exact addFields_graded env _ _ fields ⟨by omega, by omega, by omega⟩
  | .item value :: fields, h => by
      simp only [slackOfFields, heightOfFields, bodiesOfFields, Field.slack, Field.height,
        Field.bodies, Nat.max_le] at h
      simp only [addFields]
      refine C.bind (C.spread_rel ?_ value.height_pos (by omega)
        fun n k hn hk => Expr.results_graded env value ⟨hn, hk, by omega⟩)
        fun vs => addFields_graded env _ _ fields ⟨by omega, by omega, by omega⟩
      -- The results are only spread if the expression has several and stands last.
      cases fields.isEmpty <;> simp only [Bool.true_and, Bool.false_and, Bool.toNat_false] <;> omega

theorem places_graded (env : Env) {n k : Nat} : (targets : List (Expr ν)) →
    slackOfList targets ≤ n ∧ heightOfList targets ≤ k ∧ bodiesOfList targets ≤ C.bodies →
    C.Rel n k (places call env targets) (places call' env targets)
  | [], _ => C.pure_rel _
  | .name x :: targets, h => by
      simp only [slackOfList, heightOfList, bodiesOfList, Nat.max_le] at h
      simp only [places]
      -- A variable is not looked for before something is stored into it.
      exact C.bind (places_graded env targets ⟨by omega, by omega, by omega⟩) fun ps =>
        C.pure_rel _
  | .index object key :: targets, h => by
      simp only [slackOfList, heightOfList, bodiesOfList, Expr.slack, Expr.height, Expr.bodies,
        Nat.max_le] at h
      simp only [places]
      refine C.bind (C.single_rel object.height_pos (by omega) fun k hk =>
        Expr.results_graded env object ⟨by omega, hk, by omega⟩) fun o => ?_
      refine C.bind (C.single_rel key.height_pos (by omega) fun k hk =>
        Expr.results_graded env key ⟨by omega, hk, by omega⟩) fun v => ?_
      refine C.bind (C.plain (plain_entryPlace o v)) fun p => ?_
      exact C.bind (places_graded env targets ⟨by omega, by omega, by omega⟩) fun ps =>
        C.pure_rel _
  | .nil :: _, _ | .bool _ :: _, _ | .number _ :: _, _ | .text _ :: _, _ | .function _ :: _, _
  | .call .. :: _, _ | .method .. :: _, _ | .table _ :: _, _ | .unary .. :: _, _
  | .binary .. :: _, _ | .paren _ :: _, _ => C.fault_rel rfl

theorem Stmt.exec_graded (env : Env) {n k : Nat} : (s : Stmt ν) →
    s.slack ≤ n ∧ s.reach ≤ k ∧ s.bodies ≤ C.bodies →
    C.Rel n k (s.exec call env) (s.exec call' env)
  | .mk line action, h => by
      simp only [Stmt.slack, Stmt.reach, Stmt.bodies] at h
      simp only [Stmt.exec]
      refine C.bind (C.atLine line) fun _ => C.bind C.takeStep fun _ => ?_
      exact Action.exec_graded env line action h

theorem execAll_graded (env : Env) {n k : Nat} : (stmts : List (Stmt ν)) →
    slackOfBlock stmts ≤ n ∧ reachOfBlock stmts ≤ k ∧ bodiesOfBlock stmts ≤ C.bodies →
    C.Rel n k (execAll call env stmts) (execAll call' env stmts)
  | [], _ => C.pure_rel _
  | s :: rest, h => by
      simp only [slackOfBlock, reachOfBlock, bodiesOfBlock, Nat.max_le] at h
      simp only [execAll]
      refine C.bind (Stmt.exec_graded env s ⟨by omega, by omega, by omega⟩) fun flow => ?_
      -- The rest is only run when the statement does not leave it.
      cases flow with
      | normal => exact execAll_graded env rest ⟨by omega, by omega, by omega⟩
      | _ => exact C.pure_rel _

theorem execArms_graded (env : Env) {n k : Nat} {otherwise otherwise' : Eval ν Flow}
    (ho : C.Rel n k otherwise otherwise') : (arms : List (Arm ν)) →
      slackOfArms arms ≤ n ∧ reachOfArms arms ≤ k ∧ bodiesOfArms arms ≤ C.bodies →
      C.Rel n k (execArms call env otherwise arms) (execArms call' env otherwise' arms)
  | [], _ => ho
  | .mk condition body :: arms, h => by
      simp only [slackOfArms, reachOfArms, bodiesOfArms, Nat.max_le] at h
      simp only [execArms]
      refine C.bind (C.single_rel condition.height_pos (by omega) fun k hk =>
        Expr.results_graded env condition ⟨by omega, hk, by omega⟩) fun v => ?_
      split
      · exact C.inScope_rel (by omega) fun inner =>
          execAll_graded inner body ⟨by omega, Nat.le_refl _, by omega⟩
      · exact execArms_graded env ho arms ⟨by omega, by omega, by omega⟩

theorem Action.exec_graded (env : Env) {n k : Nat} (line : Nat) : (action : Action ν) →
    action.slack ≤ n ∧ action.reach ≤ k ∧ action.bodies ≤ C.bodies →
    C.Rel n k (action.exec call env line) (action.exec call' env line)
  | .declare names values, h => by
      simp only [Action.slack, Action.reach, Action.bodies] at h
      simp only [Action.exec]
      refine C.bind (resultsOfAll_graded env values h) fun vs => ?_
      exact C.bind (C.onInnermost env _) fun _ => C.pure_rel _
  | .assign targets values, h => by
      simp only [Action.slack, Action.reach, Action.bodies, Nat.max_le] at h
      simp only [Action.exec]
      refine C.bind (places_graded env targets ⟨by omega, by omega, by omega⟩) fun ps => ?_
      refine C.bind (resultsOfAll_graded env values ⟨by omega, by omega, by omega⟩) fun vs => ?_
      exact C.bind (C.plain (plain_storeAll env ps _)) fun _ => C.pure_rel _
  | .call expr, h => by
      simp only [Action.slack, Action.reach, Action.bodies] at h
      simp only [Action.exec]
      exact C.bind (C.spread_rel h.1 expr.height_pos h.2.1 fun n k hn hk =>
        Expr.results_graded env expr ⟨hn, hk, h.2.2⟩) fun _ => C.pure_rel _
  | .block body, h => by
      simp only [Action.slack, Action.reach, Action.bodies] at h
      simp only [Action.exec]
      exact C.inScope_rel h.2.1 fun inner =>
        execAll_graded inner body ⟨h.1, Nat.le_refl _, h.2.2⟩
  | .branch arms none, h => by
      simp only [Action.slack, Action.reach, Action.bodies] at h
      simp only [Action.exec]
      exact execArms_graded env (C.pure_rel _) arms h
  | .branch arms (some otherwise), h => by
      simp only [Action.slack, Action.reach, Action.bodies, Nat.max_le] at h
      simp only [Action.exec]
      refine execArms_graded env ?_ arms ⟨by omega, by omega, by omega⟩
      exact C.inScope_rel (by omega) fun inner =>
        execAll_graded inner otherwise ⟨by omega, Nat.le_refl _, by omega⟩
  | .whileLoop condition body, h => by
      simp only [Action.slack, Action.reach, Action.bodies, Nat.max_le] at h
      simp only [Action.exec]
      refine C.whileRounds_rel (C.single_rel condition.height_pos (by omega) fun k hk =>
        Expr.results_graded env condition ⟨by omega, hk, by omega⟩) ?_
      exact C.inScope_rel (by omega) fun inner =>
        execAll_graded inner body ⟨by omega, Nat.le_refl _, by omega⟩
  | .repeatLoop body condition, h => by
      simp only [Action.slack, Action.reach, Action.bodies, Nat.max_le] at h
      simp only [Action.exec]
      refine C.repeatRounds_rel ?_ fun inner =>
        C.single_rel condition.height_pos (by omega) fun k hk =>
          Expr.results_graded inner condition ⟨by omega, hk, by omega⟩
      -- The body is a region that is not counted, which is one unit of room of the other kind.
      refine C.mono h.1.1 (Nat.le_refl k) (C.inOpenScope_rel fun inner => ?_)
      exact execAll_graded inner body ⟨Nat.le_refl _, by omega, by omega⟩
  | .countLoop counter start limit step body, h => by
      -- The measures are defined for a loop with a step and for one without, the parts are the same.
      have hparts : (start.slack ≤ n ∧ start.height ≤ k ∧ start.bodies ≤ C.bodies) ∧
          (limit.slack ≤ n ∧ limit.height ≤ k ∧ limit.bodies ≤ C.bodies) ∧
          slackOfBlock body ≤ n ∧ reachOfBlock body + 1 ≤ k ∧ bodiesOfBlock body ≤ C.bodies := by
        cases step <;> simp only [Action.slack, Action.reach, Action.bodies, Nat.max_le] at h <;> omega
      rcases hparts with ⟨hstart, hlimit, hbody⟩
      simp only [Action.exec]
      refine C.bind (C.single_rel start.height_pos hstart.2.1 fun k hk =>
        Expr.results_graded env start ⟨hstart.1, hk, hstart.2.2⟩) fun a => ?_
      refine C.bind (C.plain (plain_loopNumber _ a)) fun a => ?_
      refine C.bind (C.single_rel limit.height_pos hlimit.2.1 fun k hk =>
        Expr.results_graded env limit ⟨hlimit.1, hk, hlimit.2.2⟩) fun b => ?_
      refine C.bind (C.plain (plain_loopNumber _ b)) fun b => ?_
      -- The rounds do not care where the step comes from.
      have hrounds : ∀ x, C.Rel n k
          (if x == 0 then fault .loopStepZero else countRounds line a b x fun i => do
            let outer ← newScope [(counter, .number i)]
            inScope (outer :: env) fun inner => execAll call inner body)
          (if x == 0 then fault .loopStepZero else countRounds line a b x fun i => do
            let outer ← newScope [(counter, .number i)]
            inScope (outer :: env) fun inner => execAll call' inner body) := by
        intro x
        split
        · exact C.fault_rel rfl
        · refine C.countRounds_rel fun i => C.bind (C.newScope _) fun outer => ?_
          exact C.inScope_rel hbody.2.1 fun inner =>
            execAll_graded inner body ⟨hbody.1, Nat.le_refl _, hbody.2.2⟩
      cases step with
      | none => exact C.bind (C.pure_rel 1) hrounds
      | some e =>
          simp only [Action.slack, Action.reach, Action.bodies, Nat.max_le] at h
          refine C.bind (C.single_rel e.height_pos (by omega) fun k hk =>
            Expr.results_graded env e ⟨by omega, hk, by omega⟩) fun v => ?_
          exact C.bind (C.plain (plain_loopNumber _ v)) hrounds
  | .eachLoop names exprs body, h => by
      simp only [Action.slack, Action.reach, Action.bodies, Nat.max_le] at h
      simp only [Action.exec]
      refine C.bind (resultsOfAll_graded env exprs ⟨by omega, by omega, by omega⟩) fun vs => ?_
      refine C.eachRounds_rel (fun v => C.callValue_rel hcall _ _ _) fun vs => ?_
      refine C.bind (C.newScope _) fun outer => ?_
      exact C.inScope_rel (by omega) fun inner =>
        execAll_graded inner body ⟨by omega, Nat.le_refl _, by omega⟩
  | .define root path _ definition, h => by
      simp only [Action.slack, Action.reach, Action.bodies] at h
      simp only [Action.exec]
      refine C.bind (C.newClosure env ⟨h.1, h.2.2⟩) fun f => ?_
      exact C.bind (C.plain (plain_defineAt env root path f)) fun _ => C.pure_rel _
  | .declareFunction name definition, h => by
      simp only [Action.slack, Action.reach, Action.bodies] at h
      simp only [Action.exec]
      -- The name is declared first, so that the function sees itself.
      refine C.bind (C.onInnermost env _) fun _ => ?_
      refine C.bind (C.newClosure env ⟨h.1, h.2.2⟩) fun f => ?_
      exact C.bind (C.onInnermost env _) fun _ => C.pure_rel _
  | .returnValues values, h => by
      simp only [Action.slack, Action.reach, Action.bodies] at h
      simp only [Action.exec]
      exact C.bind (resultsOfAll_graded env values h) fun vs => C.pure_rel _
  | .breakLoop, _ => C.pure_rel _

end

/-- A block respects every congruence that calling functions respects. -/
theorem block_graded (env : Env) {n k : Nat} (body : List (Stmt ν))
    (h : slackOfBlock body ≤ n ∧ reachOfBlock body + 1 ≤ k ∧ bodiesOfBlock body ≤ C.bodies) :
    C.Rel n k (block call env body) (block call' env body) :=
  C.inScope_rel h.2.1 fun inner => execAll_graded C hcall inner body ⟨h.1, Nat.le_refl _, h.2.2⟩

end Syntax

end Script

end PixelEffects
