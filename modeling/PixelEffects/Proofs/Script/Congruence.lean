import PixelEffects.Proofs.Script.Graded

/-!
# Congruence of Evaluation

The graded congruences for which it does not matter how many regions are counted.

Most relations between computations are of this kind. The room they come with is the one that is left
for regions that are not counted. It goes down where such a region is entered, and the slack of the
syntax says how much is needed. Relations that do not care about that either take no notice of the
number. Functions that are made need as much room as the others, so that what is known of a function
does not depend on where it is called.

Every one of these is a graded congruence that gives as much of the other room as one may ask for. So
the induction over the syntax does not have to be done again.

## Main definitions

* `Congruence`: A relation that the combinators of evaluation respect.
* `UniformCongruence`: One that scopes and functions respect too.
* `UniformCongruence.graded`: The graded congruence it is.

## Theorems

* `Congruence.single_rel`, `Congruence.whileRounds_rel` and others: For the ways in which a compound
  is put together.
* `execAll_rel`, `block_rel`: Evaluation respects every congruence.
-/

namespace PixelEffects

namespace Script

/-- A relation between computations, for each amount of room, that is respected by what evaluation
    is made of. The two computations need not refer to variables in the same way. -/
structure Congruence (ν μ : Type) where
  Rel : {α : Type} → Nat → Eval ν α → Eval μ α → Prop
  RelRound : {σ α : Type} → Nat → Eval ν (Turn σ α) → Eval μ (Turn σ α) → Prop
  mono : ∀ {α : Type} {n n' : Nat} {x : Eval ν α} {y : Eval μ α}, n ≤ n' → Rel n x y → Rel n' x y
  plain : ∀ {α : Type} {n : Nat} {x : Eval ν α} {y : Eval μ α}, Plain x y → Rel n x y
  library : ∀ {n : Nat} (b : Builtin) (args : List Value),
    Rel n (callLibrary b args) (callLibrary b args)
  bind : ∀ {α β : Type} {n : Nat} {x : Eval ν α} {y : Eval μ α} {f : α → Eval ν β}
    {g : α → Eval μ β}, Rel n x y → (∀ a, Rel n (f a) (g a)) → Rel n (x >>= f) (y >>= g)
  takeStep : ∀ {n : Nat}, Rel n takeStep takeStep
  atLine : ∀ {n : Nat} (line : Nat), Rel n (atLine line) (atLine line)
  nested : ∀ {α : Type} {n : Nat} {region : Region} {x : Eval ν α} {y : Eval μ α},
    region = .block ∨ region = .value → Rel n x y → Rel n (nested region x) (nested region y)
  watched : ∀ {α : Type} {n : Nat} {region : Region} {x : Eval ν α} {y : Eval μ α},
    region = .repeatBody ∨ region = .allResults → Rel n x y →
      Rel (n + 1) (watched region x) (watched region y)
  rounds : ∀ {σ α : Type} {n : Nat} {round : σ → Eval ν (Turn σ α)}
    {round' : σ → Eval μ (Turn σ α)} (state : σ),
    (∀ s, RelRound n (round s) (round' s)) → Rel n (rounds round state) (rounds round' state)
  roundDone : ∀ {σ α : Type} {n : Nat} (a : α),
    RelRound n (pure (.done a) : Eval ν (Turn σ α)) (pure (.done a))
  roundAgain : ∀ {σ α : Type} {n : Nat} (state : σ),
    RelRound n (Script.tick >>= fun _ => (pure (.again state) : Eval ν (Turn σ α)))
      (Script.tick >>= fun _ => pure (.again state))
  roundBind : ∀ {σ α β : Type} {n : Nat} {x : Eval ν β} {y : Eval μ β}
    {f : β → Eval ν (Turn σ α)} {g : β → Eval μ (Turn σ α)},
    Rel n x y → (∀ b, RelRound n (f b) (g b)) → RelRound n (x >>= f) (y >>= g)

/-- A congruence of computations that refer to variables in the same way, and that scopes and
    functions respect as well. Functions that can be called are those that it admits. -/
structure UniformCongruence (ν : Type) extends Congruence ν ν where
  Admits : Closure ν → Prop
  newScope : ∀ {n : Nat} (scope : Scope), Rel n (newScope scope) (newScope scope)
  onInnermost : ∀ {n : Nat} (env : Env) (f : Scope → Scope),
    Rel n (onInnermost env f) (onInnermost env f)
  newClosure : ∀ {n : Nat} {definition : Function ν} (env : Env), definition.slack ≤ n →
    Rel n (newClosure definition env) (newClosure definition env)
  closureAt : ∀ {α : Type} {n : Nat} (id : ClosureId) {f g : Option (Closure ν) → Eval ν α},
    (∀ c, Admits c → Rel n (f (some c)) (g (some c))) → Rel n (f none) (g none) →
      Rel n (closureAt id >>= f) (closureAt id >>= g)

variable {ν μ α β σ : Type}

/-- A computation with no more than its ending to say about steps. -/
abbrev anyway : α → Bool := fun _ => false

/-- A round that goes on. -/
def Turn.goesOn : Turn σ α → Bool
  | .again _ => true
  | .done _ => false

namespace Congruence

variable (C : Congruence ν μ) {n : Nat}

/-- The relation, with any room for regions that count. -/
def graded : GradedCongruence ν μ where
  Rel n _ := C.Rel n
  RelRound n _ := C.RelRound n
  mono hn _ := C.mono hn
  plain := C.plain
  library := C.library
  bind := C.bind
  takeStep := C.takeStep
  atLine := C.atLine
  nested := C.nested
  watched := C.watched
  rounds := C.rounds
  roundDone := C.roundDone
  roundAgain := C.roundAgain
  roundBind := C.roundBind

theorem pure_rel (a : α) : C.Rel n (pure a) (pure a) :=
  C.plain (Plain.pure a)

theorem fault_rel {c : Cause} (hc : c.isBound = false) :
    C.Rel n (fault c : Eval ν α) (fault c) :=
  C.plain (Plain.fault hc)

/-- A list of one value, from a computation of the value. -/
theorem one_rel {x : Eval ν Value} {y : Eval μ Value} (h : C.Rel n x y) :
    C.Rel n (do pure [← x]) (do pure [← y]) :=
  C.graded.one_rel (k := 0) h

theorem single_rel {x : Eval ν (List Value)} {y : Eval μ (List Value)} (h : C.Rel n x y) :
    C.Rel n (single x) (single y) :=
  C.graded.single_rel (k := 1) Nat.one_pos (Nat.le_refl 1) fun _ _ => h

/-- All results of a call are wanted at the cost of one unit of room. -/
theorem spread_rel {isMulti : Bool} {x : Eval ν (List Value)} {y : Eval μ (List Value)} {k : Nat}
    (hk : k + isMulti.toNat ≤ n) (h : ∀ n, k ≤ n → C.Rel n x y) :
    C.Rel n (spread isMulti x) (spread isMulti y) :=
  C.graded.spread_rel (k := 1) hk Nat.one_pos (Nat.le_refl 1) fun n _ hn _ => h n hn

theorem whileRounds_rel {line : Nat} {cond : Eval ν Value} {cond' : Eval μ Value}
    {body : Eval ν Flow} {body' : Eval μ Flow}
    (hcond : C.Rel n cond cond') (hbody : C.Rel n body body') :
    C.Rel n (whileRounds line cond body) (whileRounds line cond' body') :=
  C.graded.whileRounds_rel (k := 0) hcond hbody

theorem countRounds_rel {line : Nat} {start limit step : Float} {body : Float → Eval ν Flow}
    {body' : Float → Eval μ Flow} (hbody : ∀ i, C.Rel n (body i) (body' i)) :
    C.Rel n (countRounds line start limit step body) (countRounds line start limit step body') :=
  C.graded.countRounds_rel (k := 0) hbody

theorem eachRounds_rel {line : Nat} {iterate : Value → Eval ν (List Value)}
    {iterate' : Value → Eval μ (List Value)} {control : Value} {body : List Value → Eval ν Flow}
    {body' : List Value → Eval μ Flow} (hiterate : ∀ v, C.Rel n (iterate v) (iterate' v))
    (hbody : ∀ vs, C.Rel n (body vs) (body' vs)) :
    C.Rel n (eachRounds line iterate control body) (eachRounds line iterate' control body') :=
  C.graded.eachRounds_rel (k := 0) hiterate hbody

end Congruence

namespace UniformCongruence

variable (C : UniformCongruence ν)

/-- The congruence as a graded one, for functions with bodies of any reach. -/
def graded (bodies : Nat) : UniformGraded ν where
  toGradedCongruence := C.toCongruence.graded
  bodies := bodies
  Admits := C.Admits
  newScope := C.newScope
  onInnermost := C.onInnermost
  newClosure env h := C.newClosure env h.1
  closureAt := C.closureAt

theorem callValue_rel {call call' : Caller ν}
    (hcall : ∀ c args, C.Admits c → C.Rel 0 (call c args) (call' c args)) {n : Nat} (site : Site)
    (f : Value) (args : List Value) :
    C.Rel n (callValue call site f args) (callValue call' site f args) :=
  (C.graded 0).callValue_rel (k := 0) hcall site f args

end UniformCongruence

section Syntax

variable [Reference ν] (C : UniformCongruence ν) {call call' : Caller ν}
  (hcall : ∀ c args, C.Admits c → C.Rel 0 (call c args) (call' c args))

include hcall

/-- Statements respect every congruence that calling functions respects. -/
theorem execAll_rel (env : Env) {n : Nat} (stmts : List (Stmt ν)) (h : slackOfBlock stmts ≤ n) :
    C.Rel n (execAll call env stmts) (execAll call' env stmts) :=
  execAll_graded (C.graded (bodiesOfBlock stmts)) hcall env stmts
    ⟨h, Nat.le_refl (reachOfBlock stmts), Nat.le_refl _⟩

/-- A block respects every congruence that calling functions respects. -/
theorem block_rel (env : Env) {n : Nat} (body : List (Stmt ν)) (h : slackOfBlock body ≤ n) :
    C.Rel n (block call env body) (block call' env body) :=
  block_graded (C.graded (bodiesOfBlock body)) hcall env body
    ⟨h, Nat.le_refl (reachOfBlock body + 1), Nat.le_refl _⟩

end Syntax

end Script

end PixelEffects
