import PixelEffects.Proofs.Script.Built
import PixelEffects.Script.Evaluator

/-!
# Evaluation and Built Tables

Whatever a script does, it leaves built tables behind.

This is an induction over the syntax. It does not matter which values there are, since a key is
checked when a value becomes one, and that is the only way to get one. So a theorem is needed for
each kind of syntax that says that it builds, and two of them say more: the places of an assignment
have legal keys, and the table that a constructor puts together is built. The functions that are
called are not known, but calls are evaluation one level further in.

## Main definitions

* `Place.IsLegal`: A place that can be stored into.

## Theorems

* `Builds.index`, `Builds.storeAll`, `Builds.defineAt` and others: What is done with values.
* `Expr.results_builds`, `Stmt.exec_builds` and others: One for each kind of syntax.
* `callWithin_builds`: Calls.
-/

namespace PixelEffects

namespace Script

variable {ν α σ : Type}

/-- A place that is a variable, or has a legal key. -/
def Place.IsLegal : Place ν → Prop
  | .var _ => True
  | .entry _ k => k.IsLegal

/-! ## What is done with values -/

theorem BuildsTo.keyOf (v : Value) : BuildsTo Key.IsLegal (keyOf v : Eval ν Key) :=
  .orFault fun _ hk => Key.isLegal_of_ofValue? hk

theorem BuildsTo.entryPlace (object key : Value) :
    BuildsTo Place.IsLegal (entryPlace object key : Eval ν (Place ν)) := by
  cases object with
  | table id => exact (BuildsTo.keyOf key).bind fun k hk => .pure hk
  | _ => exact .fault _

theorem built_addItems {t : Table} (h : t.Built) (n : Nat) (vs : List Value) :
    (addItems t n vs).1.Built := by
  induction vs generalizing t n with
  | nil => exact h
  | cons v vs ih => exact ih (h.set (Key.isLegal_ofPosition n) v) (n + 1)

namespace Builds

theorem single {x : Eval ν (List Value)} (hx : Builds x) : Builds (single x) :=
  nested (hx.bind fun _ => pure _)

theorem one {x : Eval ν Value} (hx : Builds x) : Builds (do Pure.pure [← x]) :=
  hx.bind fun _ => pure _

theorem spread {isMulti : Bool} {x : Eval ν (List Value)} (hx : Builds x) :
    Builds (spread isMulti x) := by
  cases isMulti with
  | true => exact hx.watched
  | false => exact hx.single.one

theorem inScope {env : Env} {body : Env → Eval ν Flow} (h : ∀ inner, Builds (body inner)) :
    Builds (inScope env body) :=
  nested ((newScope []).bind fun _ => h _)

theorem inOpenScope {env : Env} {body : Env → Eval ν Flow} (h : ∀ inner, Builds (body inner)) :
    Builds (inOpenScope env body) :=
  (newScope []).bind fun _ => (h _).watched.bind fun _ => pure _

theorem callLibrary (b : Builtin) (args : List Value) :
    Builds (callLibrary b args : Eval ν (List Value)) := by
  refine (exposeAll _).bind fun _ => fun s m hm => ?_
  have hcall := Library.call_builds args s.address b m.tables hm
  unfold Script.callBuiltin
  dsimp only
  generalize Library.call s.address b args m.tables = r at hcall
  cases hcall with
  | ok hheap _ => exact .ok hheap trivial
  | error hheap => exact .error hheap

theorem callValue {call : Caller ν} (hcall : ∀ c args, Builds (call c args)) (site : Site)
    (f : Value) (args : List Value) : Builds (callValue call site f args) := by
  cases f with
  | builtin b => exact callLibrary b args
  | function id =>
      refine (closureAt id).bind fun c => ?_
      cases c with
      | none => exact fault _
      | some c => exact hcall c args
  | _ => exact fault _

theorem index (object key : Value) : Builds (index object key : Eval ν Value) := by
  have hentry : ∀ id, Builds (do
      let k ← Script.keyOf key
      Pure.pure ((← Script.readTable id).get k) : Eval ν Value) :=
    fun id => bind (orFault _ _) fun k => (readTable id).bind fun t => pure _
  cases object with
  | table id =>
      unfold Script.index
      dsimp only
      split
      · exact pure _
      · exact hentry id
  | text t =>
      refine (readGlobal "string").bind fun library => ?_
      cases library with
      | table id => exact hentry id
      | _ => exact pure _
  | _ => exact fault _

theorem follow (v : Value) (path : List String) : Builds (follow v path : Eval ν Value) := by
  induction path generalizing v with
  | nil => exact pure v
  | cons segment path ih => exact (index v _).bind fun w => ih w

theorem loopNumber (part : LoopPart) (v : Value) :
    Builds (loopNumber part v : Eval ν Float) := by
  cases v with
  | number x => exact pure x
  | _ => exact fault _

/-! ## Loops -/

section Loops

variable {line : Nat}

theorem afterBody {again : Eval ν σ} (hagain : Builds again) (flow : Flow) :
    Builds (afterBody again flow) := by
  cases flow with
  | normal => exact hagain.bind fun _ => pure _
  | broken => exact pure _
  | returned vs => exact pure _

theorem whileRounds {cond : Eval ν Value} {body : Eval ν Flow} (hcond : Builds cond)
    (hbody : Builds body) : Builds (whileRounds line cond body) := by
  refine rounds (fun _ => hcond.bind fun v => ?_) ()
  split
  · exact hbody.bind fun flow => afterBody ((atLine line).bind fun _ => tick) flow
  · exact pure _

theorem repeatRounds {body : Eval ν (Flow × Env)} {cond : Env → Eval ν Value}
    (hbody : Builds body) (hcond : ∀ env, Builds (cond env)) :
    Builds (repeatRounds line body cond) := by
  refine rounds (fun _ => hbody.bind fun r => ?_) ()
  rcases r with ⟨_ | _ | vs, env⟩
  · refine (hcond env).bind fun v => ?_
    split
    · exact pure _
    · exact (atLine line).bind fun _ => tick.bind fun _ => pure _
  · exact pure _
  · exact pure _

theorem countRounds {start limit step : Float} {body : Float → Eval ν Flow}
    (hbody : ∀ i, Builds (body i)) : Builds (countRounds line start limit step body) := by
  refine rounds (fun i => ?_) start
  split
  · refine (hbody i).bind fun flow => afterBody ?_ flow
    exact (atLine line).bind fun _ => tick.bind fun _ => pure _
  · exact pure _

theorem eachRounds {iterate : Value → Eval ν (List Value)} {body : List Value → Eval ν Flow}
    (hiterate : ∀ v, Builds (iterate v)) (hbody : ∀ vs, Builds (body vs)) (control : Value) :
    Builds (eachRounds line iterate control body) := by
  refine rounds (fun v => (atLine line).bind fun _ => (hiterate v).bind fun vs => ?_) control
  dsimp only
  split
  · exact pure _
  · exact (hbody vs).bind fun flow => afterBody (tick.bind fun _ => pure _) flow

end Loops

section Variables

variable [Reference ν]

theorem indexOf (e : Expr ν) (object key : Value) :
    Builds (indexOf e object key : Eval ν Value) := by
  unfold Script.indexOf
  split
  · exact fault _
  · exact index object key

theorem store (env : Env) {p : Place ν} (hp : p.IsLegal) (v : Value) :
    Builds (store env p v) := by
  cases p with
  | var x => exact writeVariable env x v
  | entry id k => exact writeEntry id hp v

theorem storeAll (env : Env) {ps : List (Place ν)} (hps : ∀ p ∈ ps, p.IsLegal)
    (vs : List Value) : Builds (storeAll env ps vs) := by
  induction ps generalizing vs with
  | nil => exact pure _
  | cons p ps ih =>
      cases vs with
      | nil => exact pure _
      | cons v vs =>
          rcases List.forall_mem_cons.mp hps with ⟨hp, hps⟩
          exact (store env hp v).bind fun _ => ih hps vs

/-- A function is stored in a variable or under a name. -/
theorem defineAt (env : Env) (root : ν) (path : List String) (f : Value) :
    Builds (defineAt env root path f) := by
  match path with
  | [] => exact fault _
  | [_] => exact writeVariable env root f
  | n :: segment :: rest =>
      refine (readVariable env root).bind fun v => (follow v _).bind fun w => ?_
      cases w with
      | table id => exact writeEntry id (Key.isLegal_text _) f
      | _ => exact fault _

end Variables

end Builds

/-! ## The induction -/

section Syntax

variable [Reference ν] {call : Caller ν} (hcall : ∀ c args, Builds (call c args))

include hcall

-- Only expressions and loops call functions themselves, the others do it through them.
set_option linter.unusedSectionVars false

mutual

/-- Evaluating an expression builds, if calling functions does. -/
theorem Expr.results_builds (env : Env) : (e : Expr ν) → Builds (e.results call env)
  | .nil | .bool _ | .number _ | .text _ => Builds.pure _
  | .function d => (Builds.newClosure d env).one
  | .name x => (Builds.readVariable env x).one
  | .index object key => by
      simp only [Expr.results]
      refine (Expr.results_builds env object).single.bind fun o => ?_
      refine (Expr.results_builds env key).single.bind fun k => ?_
      exact (Builds.indexOf object o k).one
  | .call callee args => by
      simp only [Expr.results]
      refine (Expr.results_builds env callee).single.bind fun f => ?_
      refine (resultsOfAll_builds env args).bind fun vs => ?_
      exact Builds.callValue hcall _ f vs
  | .method object name args => by
      simp only [Expr.results]
      refine (Expr.results_builds env object).single.bind fun o => ?_
      refine (Builds.index o _).bind fun f => ?_
      refine (resultsOfAll_builds env args).bind fun vs => ?_
      exact Builds.callValue hcall _ f (o :: vs)
  | .table fields => by
      simp only [Expr.results]
      refine (addFields_builds env 1 fields .empty).bind fun t ht => ?_
      exact (Builds.newTable ht).one
  | .unary op operand => by
      simp only [Expr.results]
      refine (Expr.results_builds env operand).single.bind fun v => ?_
      exact (Builds.askTables _).one
  | .binary op left right => by
      have hl := (Expr.results_builds env left).single
      have hr := (Expr.results_builds env right).single
      cases op with
      | and =>
          simp only [Expr.results]
          refine hl.bind fun l => ?_
          split
          · exact hr.one
          · exact Builds.pure _
      | or =>
          simp only [Expr.results]
          refine hl.bind fun l => ?_
          split
          · exact Builds.pure _
          · exact hr.one
      | _ =>
          simp only [Expr.results]
          exact hl.bind fun l => hr.bind fun r => (Builds.orFault _ _).one
  | .paren inner => by
      simp only [Expr.results]
      exact (Expr.results_builds env inner).single.one

theorem resultsOfAll_builds (env : Env) :
    (es : List (Expr ν)) → Builds (resultsOfAll call env es)
  | [] => Builds.pure _
  | [e] => by
      simp only [resultsOfAll]
      exact (Expr.results_builds env e).spread
  | e :: next :: es => by
      simp only [resultsOfAll]
      refine (Expr.results_builds env e).single.bind fun v => ?_
      exact (resultsOfAll_builds env (next :: es)).bind fun vs => Builds.pure _

/-- The table of a constructor is built: names and positions are legal, and other keys are
    checked. -/
theorem addFields_builds (env : Env) {t : Table} (pos : Nat) : (fields : List (Field ν)) →
    t.Built → BuildsTo Table.Built (addFields call env t pos fields)
  | [], ht => .pure ht
  | .named name value :: fields, ht => by
      simp only [addFields]
      refine (Expr.results_builds env value).single.bind fun v => ?_
      exact addFields_builds env _ fields (ht.set (Key.isLegal_text name) v)
  | .keyed key value :: fields, ht => by
      simp only [addFields]
      refine (Expr.results_builds env key).single.bind fun k => ?_
      refine (BuildsTo.keyOf k).bind fun k hk => ?_
      refine (Expr.results_builds env value).single.bind fun v => ?_
      exact addFields_builds env _ fields (ht.set hk v)
  | .item value :: fields, ht => by
      simp only [addFields]
      refine (Expr.results_builds env value).spread.bind fun vs => ?_
      exact addFields_builds env _ fields (built_addItems ht pos vs)

theorem places_builds (env : Env) : (targets : List (Expr ν)) →
    BuildsTo (fun ps => ∀ p ∈ ps, p.IsLegal) (places call env targets)
  | [] => .pure fun _ hp => (List.not_mem_nil hp).elim
  | .name x :: targets => by
      simp only [places]
      refine (places_builds env targets).bind fun ps hps => .pure ?_
      exact List.forall_mem_cons.mpr ⟨trivial, hps⟩
  | .index object key :: targets => by
      simp only [places]
      refine (Expr.results_builds env object).single.bind fun o => ?_
      refine (Expr.results_builds env key).single.bind fun k => ?_
      refine (BuildsTo.entryPlace o k).bind fun p hp => ?_
      refine (places_builds env targets).bind fun ps hps => .pure ?_
      exact List.forall_mem_cons.mpr ⟨hp, hps⟩
  | .nil :: _ | .bool _ :: _ | .number _ :: _ | .text _ :: _ | .function _ :: _
  | .call .. :: _ | .method .. :: _ | .table _ :: _ | .unary .. :: _ | .binary .. :: _
  | .paren _ :: _ => .fault _

theorem Stmt.exec_builds (env : Env) : (stmt : Stmt ν) → Builds (stmt.exec call env)
  | .mk line action => by
      simp only [Stmt.exec]
      refine (Builds.atLine line).bind fun _ => Builds.takeStep.bind fun _ => ?_
      exact Action.exec_builds env line action

theorem execAll_builds (env : Env) : (stmts : List (Stmt ν)) → Builds (execAll call env stmts)
  | [] => Builds.pure _
  | stmt :: rest => by
      simp only [execAll]
      refine (Stmt.exec_builds env stmt).bind fun flow => ?_
      cases flow with
      | normal => exact execAll_builds env rest
      | broken => exact Builds.pure _
      | returned vs => exact Builds.pure _

theorem execArms_builds (env : Env) {otherwise : Eval ν Flow} (ho : Builds otherwise) :
    (arms : List (Arm ν)) → Builds (execArms call env otherwise arms)
  | [] => ho
  | .mk condition body :: arms => by
      simp only [execArms]
      refine (Expr.results_builds env condition).single.bind fun v => ?_
      split
      · exact Builds.inScope fun inner => execAll_builds inner body
      · exact execArms_builds env ho arms

theorem Action.exec_builds (env : Env) (line : Nat) : (action : Action ν) →
    Builds (action.exec call env line)
  | .declare names values => by
      simp only [Action.exec]
      refine (resultsOfAll_builds env values).bind fun vs => ?_
      exact (Builds.onInnermost env _).bind fun _ => Builds.pure _
  | .assign targets values => by
      simp only [Action.exec]
      refine (places_builds env targets).bind fun ps hps => ?_
      refine (resultsOfAll_builds env values).bind fun vs => ?_
      exact (Builds.storeAll env hps _).bind fun _ => Builds.pure _
  | .call expr => by
      simp only [Action.exec]
      exact (Expr.results_builds env expr).spread.bind fun _ => Builds.pure _
  | .block body => by
      simp only [Action.exec]
      exact Builds.inScope fun inner => execAll_builds inner body
  | .branch arms none => by
      simp only [Action.exec]
      exact execArms_builds env (Builds.pure _) arms
  | .branch arms (some otherwise) => by
      simp only [Action.exec]
      exact execArms_builds env (Builds.inScope fun inner => execAll_builds inner otherwise) arms
  | .whileLoop condition body => by
      simp only [Action.exec]
      refine Builds.whileRounds (Expr.results_builds env condition).single ?_
      exact Builds.inScope fun inner => execAll_builds inner body
  | .repeatLoop body condition => by
      simp only [Action.exec]
      refine Builds.repeatRounds (Builds.inOpenScope fun inner => execAll_builds inner body)
        fun inner => ?_
      exact (Expr.results_builds inner condition).single
  | .countLoop counter start limit step body => by
      have hrounds : ∀ a b x : Float, Builds
          (if x == 0 then fault .loopStepZero else countRounds line a b x fun i => do
            let outer ← newScope [(counter, .number i)]
            inScope (outer :: env) fun inner => execAll call inner body) := by
        intro a b x
        split
        · exact .fault _
        · refine Builds.countRounds fun i => (Builds.newScope _).bind fun outer => ?_
          exact Builds.inScope fun inner => execAll_builds inner body
      simp only [Action.exec]
      refine (Expr.results_builds env start).single.bind fun a => ?_
      refine (Builds.loopNumber _ a).bind fun a => ?_
      refine (Expr.results_builds env limit).single.bind fun b => ?_
      refine (Builds.loopNumber _ b).bind fun b => ?_
      cases step with
      | none => exact (Builds.pure _).bind fun x => hrounds a b x
      | some e =>
          refine (Expr.results_builds env e).single.bind fun v => ?_
          exact (Builds.loopNumber _ v).bind fun x => hrounds a b x
  | .eachLoop names exprs body => by
      simp only [Action.exec]
      refine (resultsOfAll_builds env exprs).bind fun vs => ?_
      refine Builds.eachRounds (fun v => Builds.callValue hcall _ _ _) (fun vs => ?_) _
      refine (Builds.newScope _).bind fun outer => ?_
      exact Builds.inScope fun inner => execAll_builds inner body
  | .define root path _ definition => by
      simp only [Action.exec]
      refine (Builds.newClosure definition env).bind fun f => ?_
      exact (Builds.defineAt env root path f).bind fun _ => Builds.pure _
  | .declareFunction name definition => by
      simp only [Action.exec]
      refine (Builds.onInnermost env _).bind fun _ => ?_
      refine (Builds.newClosure definition env).bind fun f => ?_
      exact (Builds.onInnermost env _).bind fun _ => Builds.pure _
  | .returnValues values => by
      simp only [Action.exec]
      exact (resultsOfAll_builds env values).bind fun vs => Builds.pure _
  | .breakLoop => Builds.pure _

end

theorem block_builds (env : Env) (body : List (Stmt ν)) : Builds (block call env body) :=
  Builds.inScope fun inner => execAll_builds hcall inner body

end Syntax

/-! ## Calls -/

variable [Reference ν]

/-- By induction on how deep calls may be. -/
theorem callClosure_builds (fuel : Nat) (c : Closure ν) (args : List Value) :
    Builds (callClosure fuel c args) := by
  induction fuel generalizing c args with
  | zero => exact .fault _
  | succ fuel ih =>
      unfold callClosure
      refine Builds.bind (Builds.framed ?_) fun flow => ?_
      · exact (Builds.newScope _).bind fun frame => block_builds ih _ _
      · cases flow with
        | returned vs => exact Builds.pure _
        | normal => exact Builds.pure _
        | broken => exact .fault _

theorem callWithin_builds (c : Closure ν) (args : List Value) : Builds (callWithin c args) :=
  fun s m hm => callClosure_builds (s.limits.maxCallDepth + 1) c args s m hm

end Script

end PixelEffects
