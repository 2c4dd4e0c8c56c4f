import PixelEffects.Proofs.Script.Course
import PixelEffects.Proofs.Script.Scoping

/-!
# What Functions Declare

Names are declared in the scopes of what is running, and never in those of its callers.

A function opens scopes for its parameters and for its blocks, and declares names in these. It can
assign to the variables that it remembers, but it cannot add to them. So what a name leads to in the
scopes that there are is the same before and after anything is called or evaluated.

This is said of the first `n` scopes, for any `n`. The scopes that are opened later are behind them,
and so in the induction over the syntax it is enough to know that statements declare in a scope that is
not one of the first `n`. Expressions need no induction of their own. They lead along a course, and
not to declare anything is one.

## Main definitions

* `SameNames`: The first scopes have declared the same names.
* `namesCourse`: As a course of evaluation.
* `KeepsNames`: A computation that declares nothing in the first scopes.
* `Env.IsAbove`: An environment whose innermost scope is not one of them.

## Theorems

* `execAll_keepsNames`: Statements declare in the scope that they are in.
* `callWithin_keepsNames`: Functions declare nothing in the scopes that there are.
* `slot?_eq_of_names`: A name leads to where it led before.
-/

namespace PixelEffects

namespace Script

variable {ν α β σ : Type}

/-! ## The first scopes -/

/-- The first scopes of a machine are there in another machine and have declared the same names. -/
def SameNames (n : Nat) (m m' : Machine ν) : Prop :=
  n ≤ m.scopes.size → n ≤ m'.scopes.size ∧ ∀ id : ScopeId, id.index < n →
    (scopeAt m'.scopes id).names = (scopeAt m.scopes id).names

namespace SameNames

variable {n : Nat} {m m' m'' : Machine ν}

theorem of_declaredNames (h : declaredNames m'.scopes = declaredNames m.scopes) :
    SameNames n m m' := by
  intro hn
  refine ⟨?_, fun id _ => ?_⟩
  · rw [← size_declaredNames, h, size_declaredNames]
    exact hn
  · rw [← namesAt_declaredNames, h, namesAt_declaredNames]

theorem of_scopes (h : m'.scopes = m.scopes) : SameNames n m m' :=
  of_declaredNames (congrArg declaredNames h)

theorem refl (m : Machine ν) : SameNames n m m :=
  of_scopes rfl

theorem trans (h : SameNames n m m') (h' : SameNames n m' m'') : SameNames n m m'' := by
  intro hn
  rcases h hn with ⟨hsize, hnames⟩
  rcases h' hsize with ⟨hsize', hnames'⟩
  exact ⟨hsize', fun id hid => (hnames' id hid).trans (hnames id hid)⟩

/-- Changing a scope behind the first ones. -/
theorem modify {i : Nat} (hi : n ≤ i) (f : Scope → Scope) :
    SameNames n m { m with scopes := m.scopes.modify i f } := by
  intro hn
  refine ⟨?_, fun id hid => ?_⟩
  · rw [Array.size_modify]
    exact hn
  · have hother : i ≠ id.index := by omega
    rw [scopeAt, scopeAt, Array.getD_eq_getD_getElem?, Array.getD_eq_getD_getElem?,
      Array.getElem?_modify, if_neg hother]

/-- Opening a scope behind the first ones. -/
theorem push (scope : Scope) : SameNames n m { m with scopes := m.scopes.push scope } := by
  intro hn
  refine ⟨?_, fun id hid => ?_⟩
  · rw [Array.size_push]
    omega
  · have hold : id.index < m.scopes.size := by omega
    rw [scopeAt, scopeAt, Array.getD_eq_getD_getElem?, Array.getD_eq_getD_getElem?,
      Array.getElem?_push_lt hold, Array.getElem?_eq_getElem hold]

end SameNames

/-- To declare nothing in the first scopes. -/
def namesCourse (n : Nat) : Course ν where
  Rel := SameNames n
  refl := SameNames.refl
  trans := SameNames.trans
  counted _ _ _ := SameNames.of_scopes rfl
  newTable _ _ := SameNames.of_scopes rfl
  newClosure _ _ := SameNames.of_scopes rfl

/-- A computation that declares nothing in the first scopes. -/
def KeepsNames (n : Nat) (x : Eval ν α) : Prop :=
  ∀ s, (namesCourse n).Keeps s x

/-- The innermost scope of an environment is behind the first ones. -/
def Env.IsAbove (n : Nat) (env : Env) : Prop :=
  ∀ id ∈ env.head?, n ≤ id.index

theorem Env.isAbove_cons {n : Nat} {id : ScopeId} (h : n ≤ id.index) (env : Env) :
    Env.IsAbove n (id :: env) := by
  rintro _ ⟨⟩
  exact h

/-! ## Steps -/

namespace KeepsNames

variable {n : Nat}

theorem pure (a : α) : KeepsNames n (pure a : Eval ν α) :=
  fun _ => .pure a

theorem bind {x : Eval ν α} {f : α → Eval ν β} (hx : KeepsNames n x)
    (hf : ∀ a, KeepsNames n (f a)) : KeepsNames n (x >>= f) :=
  fun s => (hx s).bind fun a => hf a s

theorem fault (cause : Cause) : KeepsNames n (fault cause : Eval ν α) :=
  fun _ => .reads (ReadsOnly.fault cause)

theorem of_scopes {x : Eval ν α} (h : ∀ s m, (machineAfter (x s m)).scopes = m.scopes) :
    KeepsNames n x :=
  fun s m => SameNames.of_scopes (h s m)

theorem plain {x y : Eval ν α} (hx : Plain x y) : KeepsNames n x := by
  rcases hx with ⟨g, hg, rfl, -⟩
  intro s m
  refine SameNames.of_declaredNames ?_
  have hnames := hg.names m.tables m.scopes
  rw [← hnames]
  unfold StoreStep.toEval
  rcases g m.tables m.scopes with ⟨c | a, tables, scopes⟩ <;> rfl

theorem mark (p : Progress) : KeepsNames n (mark p : Eval ν Unit) :=
  fun _ m => Course.Keeps.rel_note m _

theorem tick : KeepsNames n (tick : Eval ν Unit) := by
  refine of_scopes fun s m => ?_
  unfold Script.tick
  dsimp only
  split <;> rfl

theorem takeStep : KeepsNames n (takeStep : Eval ν Unit) :=
  bind tick fun _ => mark .statement

theorem atLine (line : Nat) : KeepsNames n (atLine line : Eval ν Unit) :=
  of_scopes fun _ _ => rfl

theorem library (b : Builtin) (args : List Value) :
    KeepsNames n (callLibrary b args : Eval ν (List Value)) :=
  fun s => .library (fun h => plain h s) b args

theorem framed {chunk : String} {line : Nat} {x : Eval ν α} (hx : KeepsNames n x) :
    KeepsNames n (framed chunk line x) := by
  intro s m
  unfold Script.framed
  dsimp only
  split
  · exact SameNames.refl m
  · have hbody := hx s { m with depth := m.depth + 1, chunk := chunk, line := line }
    generalize x s { m with depth := m.depth + 1, chunk := chunk, line := line } = r at hbody
    -- The frame is put up and taken down without touching the scopes.
    cases r with
    | ok a m' => exact hbody
    | error f m' => exact hbody

theorem loop {round : σ → Eval ν (Turn σ α)} (hround : ∀ state, KeepsNames n (round state))
    (fuel : Nat) (state : σ) : KeepsNames n (loop round fuel state) := by
  induction fuel generalizing state with
  | zero => exact fault _
  | succ fuel ih =>
      refine bind (hround state) fun turn => ?_
      cases turn with
      | again state => exact bind (mark .round) fun _ => ih state
      | done a => exact pure a

/-- A scope is opened behind the first ones. -/
theorem opened {scope : Scope} {f : ScopeId → Eval ν α}
    (hf : ∀ id : ScopeId, n ≤ id.index → KeepsNames n (f id)) :
    KeepsNames n (newScope scope >>= f) := by
  intro s m hn
  rw [run_bind]
  exact (SameNames.push scope).trans (hf ⟨m.scopes.size⟩ hn s _) hn

theorem onInnermost {env : Env} (henv : env.IsAbove n) (f : Scope → Scope) :
    KeepsNames n (onInnermost env f : Eval ν Unit) := by
  cases env with
  | nil => exact of_scopes fun _ _ => rfl
  | cons id env => exact fun _ _ => SameNames.modify (henv id rfl) f

theorem inScope {env : Env} {body : Env → Eval ν Flow}
    (hbody : ∀ inner : Env, inner.IsAbove n → KeepsNames n (body inner)) :
    KeepsNames n (inScope env body) :=
  fun s => .nested (opened (fun _ hid => hbody _ (Env.isAbove_cons hid env)) s)

theorem inOpenScope {env : Env} {body : Env → Eval ν Flow}
    (hbody : ∀ inner : Env, inner.IsAbove n → KeepsNames n (body inner)) :
    KeepsNames n (inOpenScope env body) := by
  refine opened fun id hid => bind (fun s => .watched ?_) fun flow => pure _
  exact hbody _ (Env.isAbove_cons hid env) s

/-- A block in a scope of its own, inside a scope that holds what a round begins with. -/
theorem opened_inScope {env : Env} {scope : Scope} {body : Env → Eval ν Flow}
    (hbody : ∀ inner : Env, inner.IsAbove n → KeepsNames n (body inner)) :
    KeepsNames n (newScope scope >>= fun outer => Script.inScope (outer :: env) body) :=
  opened fun _ _ => inScope hbody

theorem callValue {call : Caller ν} (hcall : ∀ c args, KeepsNames n (call c args)) (site : Site)
    (f : Value) (args : List Value) : KeepsNames n (callValue call site f args) :=
  fun s => Course.keepsCalls (fun h => plain h s) (fun c args => hcall c args s) site f args

end KeepsNames

/-- To declare nothing in the first scopes is respected by what evaluation is made of. -/
def namesCongruence (n : Nat) : Congruence ν ν where
  Rel _ x _ := KeepsNames n x
  RelRound _ x _ := KeepsNames n x
  mono _ h := h
  plain h := KeepsNames.plain h
  library b args := KeepsNames.library b args
  bind hx hf := KeepsNames.bind hx hf
  takeStep := KeepsNames.takeStep
  atLine line := KeepsNames.atLine line
  nested _ hx := fun s => .nested (hx s)
  watched _ hx := fun s => .watched (hx s)
  rounds state hround := fun s m => KeepsNames.loop hround (s.limits.maxSteps + 1) state s m
  roundDone _ := KeepsNames.pure _
  roundAgain _ := KeepsNames.bind KeepsNames.tick fun _ => KeepsNames.pure _
  roundBind hx hf := KeepsNames.bind hx hf

/-- A computation keeps the names if that congruence relates it to itself. -/
theorem KeepsNames.of_rel {n : Nat} {x : Eval ν α} (h : (namesCongruence n).graded.Rel 0 0 x x) :
    KeepsNames n x :=
  h

/-! ## Statements -/

section Syntax

variable [Reference ν] {n : Nat} {call : Caller ν}
  (hcall : ∀ c args, KeepsNames n (call c args))

include hcall

theorem resultsOfAll_keepsNames (env : Env) (es : List (Expr ν)) :
    KeepsNames n (resultsOfAll call env es) :=
  fun s => resultsOfAll_keeps env es fun _ site f args => KeepsNames.callValue hcall site f args s

theorem places_keepsNames (env : Env) (targets : List (Expr ν)) :
    KeepsNames n (places call env targets) :=
  fun s => places_keeps env targets fun _ site f args => KeepsNames.callValue hcall site f args s

theorem results_keepsNames (env : Env) (e : Expr ν) : KeepsNames n (e.results call env) :=
  fun s => e.results_keeps env fun _ site f args => KeepsNames.callValue hcall site f args s

theorem single_keepsNames (env : Env) (e : Expr ν) : KeepsNames n (single (e.results call env)) :=
  fun s => .single (results_keepsNames hcall env e s)

-- Only expressions and loops call functions themselves, the others do it through them.
set_option linter.unusedSectionVars false

mutual

theorem Stmt.exec_keepsNames {env : Env} (henv : env.IsAbove n) : (stmt : Stmt ν) →
    KeepsNames n (stmt.exec call env)
  | .mk line action => by
      simp only [Stmt.exec]
      refine (KeepsNames.atLine line).bind fun _ => KeepsNames.takeStep.bind fun _ => ?_
      exact Action.exec_keepsNames henv line action

/-- Statements declare names in the scope that they are in, and in scopes that are opened in it. -/
theorem execAll_keepsNames {env : Env} (henv : env.IsAbove n) : (stmts : List (Stmt ν)) →
    KeepsNames n (execAll call env stmts)
  | [] => .pure _
  | stmt :: rest => by
      simp only [execAll]
      refine (Stmt.exec_keepsNames henv stmt).bind fun flow => ?_
      cases flow with
      | normal => exact execAll_keepsNames henv rest
      | _ => exact .pure _

theorem execArms_keepsNames {env : Env} {otherwise : Eval ν Flow}
    (ho : KeepsNames n otherwise) : (arms : List (Arm ν)) →
    KeepsNames n (execArms call env otherwise arms)
  | [] => ho
  | .mk condition body :: arms => by
      simp only [execArms]
      refine (single_keepsNames hcall env condition).bind fun v => ?_
      split
      · exact .inScope fun inner hinner => execAll_keepsNames hinner body
      · exact execArms_keepsNames ho arms

theorem Action.exec_keepsNames {env : Env} (henv : env.IsAbove n) (line : Nat) :
    (action : Action ν) → KeepsNames n (action.exec call env line)
  | .declare names values => by
      simp only [Action.exec]
      refine (resultsOfAll_keepsNames hcall env values).bind fun vs => ?_
      exact (KeepsNames.onInnermost henv _).bind fun _ => .pure _
  | .assign targets values => by
      simp only [Action.exec]
      refine (places_keepsNames hcall env targets).bind fun ps => ?_
      refine (resultsOfAll_keepsNames hcall env values).bind fun vs => ?_
      exact (KeepsNames.plain (plain_storeAll env ps _)).bind fun _ => .pure _
  | .call e => by
      simp only [Action.exec]
      refine KeepsNames.bind (fun s => .spread ?_) fun _ => .pure _
      exact results_keepsNames hcall env e s
  | .block body => by
      simp only [Action.exec]
      exact .inScope fun inner hinner => execAll_keepsNames hinner body
  | .branch arms none => by
      simp only [Action.exec]
      exact execArms_keepsNames (.pure _) arms
  | .branch arms (some otherwise) => by
      simp only [Action.exec]
      refine execArms_keepsNames ?_ arms
      exact .inScope fun inner hinner => execAll_keepsNames hinner otherwise
  | .whileLoop condition body => by
      simp only [Action.exec]
      refine .of_rel (GradedCongruence.whileRounds_rel _ (single_keepsNames hcall env condition) ?_)
      exact .inScope fun inner hinner => execAll_keepsNames hinner body
  | .repeatLoop body condition => by
      simp only [Action.exec]
      refine .of_rel (GradedCongruence.repeatRounds_rel _ ?_ fun inner =>
        single_keepsNames hcall inner condition)
      exact .inOpenScope fun inner hinner => execAll_keepsNames hinner body
  | .countLoop counter start limit step body => by
      -- The rounds open a scope for the counter and one for the body.
      have hrounds : ∀ a b x, KeepsNames n
          (if x == 0 then fault .loopStepZero else countRounds line a b x fun i => do
            let outer ← newScope [(counter, .number i)]
            inScope (outer :: env) fun inner => execAll call inner body) := by
        intro a b x
        split
        · exact .fault _
        · refine .of_rel (GradedCongruence.countRounds_rel _ fun i => ?_)
          exact .opened_inScope fun inner hinner => execAll_keepsNames hinner body
      simp only [Action.exec]
      refine (single_keepsNames hcall env start).bind fun a => ?_
      refine (KeepsNames.plain (plain_loopNumber _ a)).bind fun a => ?_
      refine (single_keepsNames hcall env limit).bind fun b => ?_
      refine (KeepsNames.plain (plain_loopNumber _ b)).bind fun b => ?_
      cases step with
      | none => exact (KeepsNames.pure 1).bind fun x => hrounds a b x
      | some e =>
          refine (single_keepsNames hcall env e).bind fun v => ?_
          exact (KeepsNames.plain (plain_loopNumber _ v)).bind fun x => hrounds a b x
  | .eachLoop names exprs body => by
      simp only [Action.exec]
      refine (resultsOfAll_keepsNames hcall env exprs).bind fun vs => ?_
      refine .of_rel (GradedCongruence.eachRounds_rel _ (fun v => ?_) fun vs => ?_)
      · exact KeepsNames.callValue hcall _ _ _
      · exact .opened_inScope fun inner hinner => execAll_keepsNames hinner body
  | .define root path _ definition => by
      simp only [Action.exec]
      refine KeepsNames.bind (.of_scopes fun _ _ => rfl) fun f => ?_
      exact (KeepsNames.plain (plain_defineAt env root path f)).bind fun _ => .pure _
  | .declareFunction name definition => by
      simp only [Action.exec]
      refine (KeepsNames.onInnermost henv _).bind fun _ => ?_
      refine KeepsNames.bind (.of_scopes fun _ _ => rfl) fun f => ?_
      exact (KeepsNames.onInnermost henv _).bind fun _ => .pure _
  | .returnValues values => by
      simp only [Action.exec]
      exact (resultsOfAll_keepsNames hcall env values).bind fun vs => .pure _
  | .breakLoop => .pure _

end

end Syntax

/-! ## Calls -/

section Calls

variable [Reference ν]

/-- A function declares nothing in the scopes that there are. Its parameters have a scope that is
    opened for the call, and its body has another one. -/
theorem callClosure_keepsNames (n fuel : Nat) (c : Closure ν) (args : List Value) :
    KeepsNames n (callClosure fuel c args) := by
  induction fuel generalizing c args with
  | zero => exact .fault _
  | succ fuel ih =>
      simp only [callClosure]
      refine KeepsNames.bind (.framed ?_) fun flow => ?_
      · exact .opened_inScope fun inner hinner => execAll_keepsNames ih hinner c.definition.body
      · cases flow with
        | returned vs => exact .pure vs
        | normal => exact .pure []
        | broken => exact .fault _

theorem callWithin_keepsNames (n : Nat) (c : Closure ν) (args : List Value) :
    KeepsNames n (callWithin c args) :=
  fun s m => callClosure_keepsNames n (s.limits.maxCallDepth + 1) c args s m

end Calls

/-- A name leads to the same declaration where the scopes that it is looked up in have declared the
    same names. -/
theorem slot?_eq_of_names {scopes scopes' : Array Scope} (name : String) {env : Env}
    (h : ∀ id ∈ env, (scopeAt scopes' id).names = (scopeAt scopes id).names) :
    Env.slot? scopes' env name = Env.slot? scopes env name := by
  induction env with
  | nil => rfl
  | cons id env ih =>
      have hnames := h id List.mem_cons_self
      have hrest := ih fun other hother => h other (List.mem_cons_of_mem id hother)
      simp only [Env.slot?, findIdx?_names, hnames, hrest]

end Script

end PixelEffects
