import PixelEffects.Proofs.Script.Vocabulary.Library
import PixelEffects.Script.Evaluator

/-!
# Evaluation and Vocabularies

A script whose texts are of a vocabulary keeps it.

This is an induction over the syntax. There is a lemma for each thing that an expression or a
statement does with values that it has, and a theorem for each kind of syntax, which says that its
parts come to such values. The functions that are called are those of the machine. Their texts are
of the vocabulary too, so calls keep it, by induction on how deep they may be.

## Main definitions

* `Vocabulary.AdmitsFlow`, `Vocabulary.AdmitsPlace`: What statements end with, and what assignments
  store into.
* `Vocabulary.KeepsCalls`: Calls that keep a vocabulary.

## Theorems

* `Vocabulary.Keeps.index`, `Vocabulary.Keeps.storeAll` and others: What is done with values.
* `Expr.results_admitted`, `execAll_admitted` and others: One for each kind of syntax.
* `callWithin_admitted`: Calls.
-/

namespace PixelEffects

namespace Script

variable {s : Setting}

namespace Vocabulary

section Results

variable {address : Addressing} (V : Vocabulary address)

/-- How a statement leaves the ones after it, with values of a vocabulary. -/
def AdmitsFlow : Flow → Prop
  | .returned vs => V.AdmitsAll vs
  | _ => True

/-- A place that values of a vocabulary can be stored into. -/
def AdmitsPlace : Place String → Prop
  | .var _ => True
  | .entry id k => id ≠ Machine.globals ∧ V.Admits k.toValue

end Results

/-- Calls of functions whose texts are of a vocabulary keep it. -/
def KeepsCalls (V : Vocabulary s.address) (call : Caller String) : Prop :=
  ∀ c args, c.definition.every (literalChecks V.text) = true → V.AdmitsAll args →
    V.Keeps V.AdmitsAll (call c args)

variable {V : Vocabulary s.address} {α : Type}

theorem AdmitsAll.adjusted {vs : List Value} (h : V.AdmitsAll vs) (n : Nat) :
    V.AdmitsAll (adjusted n vs) := by
  intro v hv
  rcases List.mem_append.mp hv with hv | hv
  · exact h v (List.mem_of_mem_take hv)
  · rw [(List.mem_replicate.mp hv).2]
    exact admits_nil

theorem text_joined {l r v : Value} (hl : V.Admits l) (hr : V.Admits r)
    (h : joined? l r = .ok v) : V.Admits v := by
  cases ha : l.joinable? with
  | none =>
      unfold joined? at h
      rw [ha] at h
      cases h
  | some a =>
      cases hb : r.joinable? with
      | none =>
          unfold joined? at h
          rw [ha, hb] at h
          cases h
      | some b =>
          rw [joined?_eq ha hb] at h
          split at h
          · next hfits =>
              cases h
              exact V.append (text_of_joinable? hl ha) (text_of_joinable? hr hb) hfits
          · cases h

/-- What an operator gives is of the vocabulary: joining is the only one that makes a text. -/
theorem admits_binary? {op : BinaryOp} {l r v : Value} (hl : V.Admits l) (hr : V.Admits r)
    (h : binary? op l r = .ok v) : V.Admits v := by
  have hcalculated : ∀ op, calculated? op l r = .ok v → V.Admits v := by
    intro op h
    simp only [calculated?, bind, Except.bind] at h
    split at h
    · cases h
    · split at h
      · cases h
      · cases h
        trivial
  have hordered : ∀ holds, ordered? l r holds = .ok v → V.Admits v := by
    intro holds h
    simp only [ordered?, bind, Except.bind] at h
    split at h
    · cases h
    · cases h
      trivial
  cases op with
  | concat => exact text_joined hl hr h
  | eq | ne =>
      cases h
      trivial
  | lt | le | gt | ge => exact hordered _ h
  | add | sub | mul | div | floorDiv | mod | pow | and | or => exact hcalculated _ h

theorem admits_unary? {heap : Heap} {op : UnaryOp} {v w : Value} (h : unary? heap op v = .ok w) :
    V.Admits w := by
  unfold unary? at h
  split at h <;> cases h <;> trivial

/-! ## What is done with values -/

namespace Keeps

theorem single {x : Eval String (List Value)} (hx : V.Keeps V.AdmitsAll x) :
    V.Keeps V.Admits (single x) :=
  nested (hx.bind fun _ hvs => pure hvs.headD)

theorem one {x : Eval String Value} (hx : V.Keeps V.Admits x) :
    V.Keeps V.AdmitsAll (do Pure.pure [← x]) :=
  hx.bind fun _ hv => pure (AdmitsAll.one hv)

theorem spread {isMulti : Bool} {x : Eval String (List Value)} (hx : V.Keeps V.AdmitsAll x) :
    V.Keeps V.AdmitsAll (spread isMulti x) := by
  cases isMulti with
  | true => exact hx.watched
  | false => exact hx.single.one

theorem inScope {P : Flow → Prop} {env : Env} {body : Env → Eval String Flow}
    (h : ∀ inner, V.Keeps P (body inner)) : V.Keeps P (inScope env body) :=
  nested ((newScope AdmitsScope.empty).bind fun _ _ => h _)

theorem inOpenScope {P : Flow → Prop} {env : Env} {body : Env → Eval String Flow}
    (h : ∀ inner, V.Keeps P (body inner)) :
    V.Keeps (fun r => P r.1) (inOpenScope env body) :=
  (newScope AdmitsScope.empty).bind fun _ _ =>
    (h _).watched.bind fun _ hflow => pure hflow

theorem callBuiltin {b : Builtin} {args : List Value} (hb : V.Admits (.builtin b))
    (hargs : V.AdmitsAll args) : V.Keeps V.AdmitsAll (callBuiltin b args : Eval String _) := by
  intro m hm
  have hcall := call_answers hb hargs m.tables hm.heap
  unfold Script.callBuiltin
  dsimp only
  generalize Library.call s.address b args m.tables = r at hcall
  cases hcall with
  | ok hheap hvs => exact .ok (hm.withTables hheap) hvs
  | error hheap => exact .error (hm.withTables hheap)

theorem callLibrary {b : Builtin} {args : List Value} (hb : V.Admits (.builtin b))
    (hargs : V.AdmitsAll args) : V.Keeps V.AdmitsAll (callLibrary b args : Eval String _) :=
  (exposeAll _).bind fun _ _ => callBuiltin hb hargs

theorem keyOf {v : Value} (hv : V.Admits v) :
    V.Keeps (fun k => V.Admits k.toValue) (keyOf v : Eval String Key) :=
  orFault _ fun _ hk => admits_toValue_ofValue? hv hk

/-- Whatever is read, what is found is of the vocabulary. -/
theorem index (object key : Value) : V.Keeps V.Admits (index object key : Eval String Value) := by
  have hentry : ∀ id, V.Keeps V.Admits
      (do let k ← Script.keyOf key; Pure.pure ((← Script.readTable id).get k)) := by
    intro id
    refine bind (P := fun _ => True) (orFault _ fun _ _ => trivial) fun k _ => ?_
    exact (readTable id).bind fun t ht => pure (ht k)
  cases object with
  | table id =>
      unfold Script.index
      dsimp only
      split
      · exact pure admits_nil
      · exact hentry id
  | text t =>
      -- The functions on texts are looked up in what a global holds, which may be any table.
      refine (readGlobal "string").bind fun library _ => ?_
      cases library with
      | table id => exact hentry id
      | _ => exact pure admits_nil
  | _ => exact fault _

theorem indexOf (e : Expr) (object key : Value) :
    V.Keeps V.Admits (indexOf e object key : Eval String Value) := by
  unfold Script.indexOf
  split
  · exact fault _
  · exact index object key

theorem entryPlace {object key : Value} (ho : V.Admits object) (hk : V.Admits key) :
    V.Keeps V.AdmitsPlace (entryPlace object key : Eval String _) := by
  cases object with
  | table id => exact (keyOf hk).bind fun k hk => pure ⟨ho, hk⟩
  | _ => exact fault _

theorem store (env : Env) {p : Place String} {v : Value} (hp : V.AdmitsPlace p) (hv : V.Admits v) :
    V.Keeps (fun _ => True) (store env p v) := by
  cases p with
  | var x => exact writeVariable env x hv
  | entry id k => exact writeEntry hp.1 hp.2 hv

theorem storeAll (env : Env) {ps : List (Place String)} {vs : List Value}
    (hps : ∀ p ∈ ps, V.AdmitsPlace p) (hvs : V.AdmitsAll vs) :
    V.Keeps (fun _ => True) (storeAll env ps vs) := by
  induction ps generalizing vs with
  | nil => exact pure trivial
  | cons p ps ih =>
      cases vs with
      | nil => exact pure trivial
      | cons v vs =>
          rcases List.forall_mem_cons.mp hps with ⟨hp, hps⟩
          exact (store env hp hvs.head).bind fun _ _ => ih hps hvs.tail

theorem follow {v : Value} (hv : V.Admits v) (path : List String) :
    V.Keeps V.Admits (follow v path : Eval String Value) := by
  induction path generalizing v with
  | nil => exact pure hv
  | cons segment path ih => exact (index v _).bind fun w hw => ih hw

/-- The last name of a path becomes a key, unless it is the only one. -/
theorem defineAt (env : Env) (root : String) {path : List String} {f : Value}
    (hpath : path.tail.all V.text = true) (hf : V.Admits f) :
    V.Keeps (fun _ => True) (defineAt env root path f) := by
  match path with
  | [] => exact fault _
  | [_] => exact writeVariable env root hf
  | n :: segment :: rest =>
      have hlast : V.text ((segment :: rest).getLastD n) = true := by
        rw [List.tail_cons] at hpath
        rw [List.getLastD_cons]
        exact List.all_eq_true.mp hpath _ List.getLastD_mem_cons
      refine (readVariable env root).bind fun v hv => (follow hv _).bind fun w hw => ?_
      cases w with
      | table id => exact writeEntry hw hlast hf
      | _ => exact fault _

theorem loopNumber (part : LoopPart) (v : Value) :
    V.Keeps (fun _ => True) (loopNumber part v : Eval String Float) := by
  cases v with
  | number x => exact pure trivial
  | _ => exact fault _

/-! ## Loops -/

section Loops

variable {σ : Type} {line : Nat}

theorem afterBody {I : σ → Prop} {again : Eval String σ} (hagain : V.Keeps I again) {flow : Flow}
    (hflow : V.AdmitsFlow flow) :
    V.Keeps (TurnMeets I V.AdmitsFlow) (afterBody again flow) := by
  cases flow with
  | normal => exact hagain.bind fun _ hstate => pure (.again hstate)
  | broken => exact pure (.done trivial)
  | returned vs => exact pure (.done hflow)

theorem whileRounds {cond : Eval String Value} {body : Eval String Flow}
    (hcond : V.Keeps V.Admits cond) (hbody : V.Keeps V.AdmitsFlow body) :
    V.Keeps V.AdmitsFlow (whileRounds line cond body) := by
  refine rounds (I := fun _ => True) (fun _ _ => hcond.bind fun v _ => ?_) trivial
  split
  · refine hbody.bind fun flow hflow => afterBody ?_ hflow
    exact (atLine line).bind fun _ _ => tick
  · exact pure (.done trivial)

theorem repeatRounds {body : Eval String (Flow × Env)} {cond : Env → Eval String Value}
    (hbody : V.Keeps (fun r => V.AdmitsFlow r.1) body)
    (hcond : ∀ env, V.Keeps V.Admits (cond env)) : V.Keeps V.AdmitsFlow (repeatRounds line body cond) := by
  refine rounds (I := fun _ => True) (fun _ _ => hbody.bind fun r hr => ?_) trivial
  rcases r with ⟨_ | _ | vs, env⟩
  · refine (hcond env).bind fun v _ => ?_
    split
    · exact pure (.done trivial)
    · exact (atLine line).bind fun _ _ => tick.bind fun _ _ => pure (.again trivial)
  · exact pure (.done trivial)
  · exact pure (.done hr)

theorem countRounds {start limit step : Float} {body : Float → Eval String Flow}
    (hbody : ∀ i, V.Keeps V.AdmitsFlow (body i)) :
    V.Keeps V.AdmitsFlow (countRounds line start limit step body) := by
  refine rounds (I := fun _ => True) (fun i _ => ?_) trivial
  split
  · refine (hbody i).bind fun flow hflow => afterBody ?_ hflow
    exact (atLine line).bind fun _ _ => tick.bind fun _ _ => pure trivial
  · exact pure (.done trivial)

/-- A loop over what an iterator gives: the value that a round begins with is of the vocabulary. -/
theorem eachRounds {iterate : Value → Eval String (List Value)} {control : Value}
    {body : List Value → Eval String Flow} (hcontrol : V.Admits control)
    (hiterate : ∀ v, V.Admits v → V.Keeps V.AdmitsAll (iterate v))
    (hbody : ∀ vs, V.AdmitsAll vs → V.Keeps V.AdmitsFlow (body vs)) :
    V.Keeps V.AdmitsFlow (eachRounds line iterate control body) := by
  refine rounds (I := V.Admits) (fun v hv => (atLine line).bind fun _ _ => ?_) hcontrol
  refine (hiterate v hv).bind fun vs hvs => ?_
  dsimp only
  split
  · exact pure (.done trivial)
  · refine (hbody vs hvs).bind fun flow hflow => afterBody ?_ hflow
    exact tick.bind fun _ _ => pure hvs.headD

end Loops

/-! ## Calls -/

theorem callValue {call : Caller String} (hcall : V.KeepsCalls call) (site : Site) {f : Value}
    {args : List Value} (hf : V.Admits f) (hargs : V.AdmitsAll args) :
    V.Keeps V.AdmitsAll (callValue call site f args) := by
  cases f with
  | builtin b => exact callLibrary hf hargs
  | function id =>
      refine (closureAt id).bind fun c hc => ?_
      cases c with
      | none => exact fault _
      | some c => exact hcall c args (hc c rfl) hargs
  | _ => exact fault _

end Keeps

end Vocabulary

open Vocabulary

/-! ## The induction -/

section Syntax

variable {V : Vocabulary s.address} {call : Caller String} (hcall : V.KeepsCalls call)

include hcall

-- Only expressions and loops call functions themselves, the others do it through them.
set_option linter.unusedSectionVars false

mutual

/-- The results of an expression whose texts are of a vocabulary are values of it. -/
theorem Expr.results_admitted (env : Env) : (e : Expr) → e.every (literalChecks V.text) = true →
    V.Keeps V.AdmitsAll (e.results call env)
  | .nil, _ => .pure (AdmitsAll.one admits_nil)
  | .bool b, _ => .pure (AdmitsAll.one trivial)
  | .number x, _ => .pure (AdmitsAll.one (admits_number x))
  | .text t, h => .pure (AdmitsAll.one h)
  | .function d, h => by
      simp only [Expr.every, Bool.and_eq_true] at h
      exact (Keeps.newClosure h.2 env).one
  | .name x, _ => (Keeps.readVariable env x).one
  | .index object key, h => by
      simp only [Expr.every, Bool.and_eq_true] at h
      simp only [Expr.results]
      refine (Expr.results_admitted env object h.2.1).single.bind fun o _ => ?_
      refine (Expr.results_admitted env key h.2.2).single.bind fun k _ => ?_
      exact (Keeps.indexOf object o k).one
  | .call callee args, h => by
      simp only [Expr.every, Bool.and_eq_true] at h
      simp only [Expr.results]
      refine (Expr.results_admitted env callee h.2.1).single.bind fun f hf => ?_
      refine (resultsOfAll_admitted env args h.2.2).bind fun vs hvs => ?_
      exact Keeps.callValue hcall _ hf hvs
  | .method object name args, h => by
      simp only [Expr.every, Bool.and_eq_true] at h
      simp only [Expr.results]
      refine (Expr.results_admitted env object h.2.1).single.bind fun o ho => ?_
      refine (Keeps.index o _).bind fun f hf => ?_
      refine (resultsOfAll_admitted env args h.2.2).bind fun vs hvs => ?_
      exact Keeps.callValue hcall _ hf (hvs.cons ho)
  | .table fields, h => by
      simp only [Expr.every, Bool.and_eq_true] at h
      simp only [Expr.results]
      refine (addFields_admitted env .empty 1 fields h.1 h.2 .empty).bind fun t ht => ?_
      exact (Keeps.newTable ht).one
  | .unary op operand, h => by
      simp only [Expr.every, Bool.and_eq_true] at h
      simp only [Expr.results]
      refine (Expr.results_admitted env operand h.2).single.bind fun v _ => ?_
      exact (Keeps.askTables fun _ _ hw => admits_unary? hw).one
  | .binary op left right, h => by
      simp only [Expr.every, Bool.and_eq_true] at h
      have hl := (Expr.results_admitted env left h.2.1).single
      have hr := (Expr.results_admitted env right h.2.2).single
      cases op with
      | and =>
          simp only [Expr.results]
          refine hl.bind fun l hadmits => ?_
          split
          · exact hr.one
          · exact .pure (AdmitsAll.one hadmits)
      | or =>
          simp only [Expr.results]
          refine hl.bind fun l hadmits => ?_
          split
          · exact .pure (AdmitsAll.one hadmits)
          · exact hr.one
      | _ =>
          simp only [Expr.results]
          refine hl.bind fun l hl => hr.bind fun r hr => ?_
          exact (Keeps.orFault id fun _ hv => admits_binary? hl hr hv).one
  | .paren inner, h => by
      simp only [Expr.every, Bool.and_eq_true] at h
      simp only [Expr.results]
      exact (Expr.results_admitted env inner h.2).single.one

theorem resultsOfAll_admitted (env : Env) : (es : List Expr) →
    everyExpr (literalChecks V.text) es = true → V.Keeps V.AdmitsAll (resultsOfAll call env es)
  | [], _ => .pure AdmitsAll.nil
  | [e], h => by
      simp only [everyExpr, Bool.and_eq_true] at h
      simp only [resultsOfAll]
      exact (Expr.results_admitted env e h.1).spread
  | e :: next :: es, h => by
      rw [everyExpr, Bool.and_eq_true] at h
      simp only [resultsOfAll]
      refine (Expr.results_admitted env e h.1).single.bind fun v hv => ?_
      refine (resultsOfAll_admitted env (next :: es) h.2).bind fun vs hvs => ?_
      exact .pure (hvs.cons hv)

theorem addFields_admitted (env : Env) (t : Table) (pos : Nat) : (fields : List Field) →
    fields.all (Field.nameIn V.text) = true → everyField (literalChecks V.text) fields = true →
      V.AdmitsTable t → V.Keeps V.AdmitsTable (addFields call env t pos fields)
  | [], _, _ => fun ht => .pure ht
  | .named name value :: fields, hnames, h => fun ht => by
      simp only [List.all_cons, Bool.and_eq_true] at hnames
      simp only [everyField, Field.every, Bool.and_eq_true] at h
      simp only [addFields]
      refine (Expr.results_admitted env value h.1).single.bind fun v hv => ?_
      exact addFields_admitted env _ _ fields hnames.2 h.2 (ht.set hnames.1 hv)
  | .keyed key value :: fields, hnames, h => fun ht => by
      simp only [List.all_cons, Bool.and_eq_true] at hnames
      simp only [everyField, Field.every, Bool.and_eq_true] at h
      simp only [addFields]
      refine (Expr.results_admitted env key h.1.1).single.bind fun k hk => ?_
      refine (Keeps.keyOf hk).bind fun k hk => ?_
      refine (Expr.results_admitted env value h.1.2).single.bind fun v hv => ?_
      exact addFields_admitted env _ _ fields hnames.2 h.2 (ht.set hk hv)
  | .item value :: fields, hnames, h => fun ht => by
      simp only [List.all_cons, Bool.and_eq_true] at hnames
      simp only [everyField, Field.every, Bool.and_eq_true] at h
      simp only [addFields]
      refine (Expr.results_admitted env value h.1).spread.bind fun vs hvs => ?_
      exact addFields_admitted env _ _ fields hnames.2 h.2 (ht.addItems pos hvs)

theorem places_admitted (env : Env) : (targets : List Expr) →
    everyExpr (literalChecks V.text) targets = true →
      V.Keeps (fun ps => ∀ p ∈ ps, V.AdmitsPlace p) (places call env targets)
  | [], _ => .pure fun _ hp => (List.not_mem_nil hp).elim
  | .name x :: targets, h => by
      simp only [everyExpr, Bool.and_eq_true] at h
      simp only [places]
      refine (places_admitted env targets h.2).bind fun ps hps => .pure fun p hp => ?_
      rcases List.mem_cons.mp hp with rfl | hp
      · trivial
      · exact hps p hp
  | .index object key :: targets, h => by
      simp only [everyExpr, Expr.every, Bool.and_eq_true] at h
      simp only [places]
      refine (Expr.results_admitted env object h.1.2.1).single.bind fun o ho => ?_
      refine (Expr.results_admitted env key h.1.2.2).single.bind fun k hk => ?_
      refine (Keeps.entryPlace ho hk).bind fun place hplace => ?_
      refine (places_admitted env targets h.2).bind fun ps hps => .pure fun p hp => ?_
      rcases List.mem_cons.mp hp with rfl | hp
      · exact hplace
      · exact hps p hp
  | .nil :: _, _ | .bool _ :: _, _ | .number _ :: _, _ | .text _ :: _, _ | .function _ :: _, _
  | .call .. :: _, _ | .method .. :: _, _ | .table _ :: _, _ | .unary .. :: _, _
  | .binary .. :: _, _ | .paren _ :: _, _ => .fault _

theorem Stmt.exec_admitted (env : Env) : (stmt : Stmt) → stmt.every (literalChecks V.text) = true →
    V.Keeps V.AdmitsFlow (stmt.exec call env)
  | .mk line action, h => by
      simp only [Stmt.every] at h
      simp only [Stmt.exec]
      refine (Keeps.atLine line).bind fun _ _ => Keeps.takeStep.bind fun _ _ => ?_
      exact Action.exec_admitted env line action h

theorem execAll_admitted (env : Env) : (stmts : List Stmt) →
    everyStmt (literalChecks V.text) stmts = true → V.Keeps V.AdmitsFlow (execAll call env stmts)
  | [], _ => .pure trivial
  | stmt :: rest, h => by
      simp only [everyStmt, Bool.and_eq_true] at h
      simp only [execAll]
      refine (Stmt.exec_admitted env stmt h.2.1).bind fun flow hflow => ?_
      cases flow with
      | normal => exact execAll_admitted env rest h.2.2
      | broken => exact .pure trivial
      | returned vs => exact .pure hflow

theorem execArms_admitted (env : Env) {otherwise : Eval String Flow}
    (ho : V.Keeps V.AdmitsFlow otherwise) : (arms : List Arm) →
      everyArm (literalChecks V.text) arms = true →
        V.Keeps V.AdmitsFlow (execArms call env otherwise arms)
  | [], _ => ho
  | .mk condition body :: arms, h => by
      simp only [everyArm, Arm.every, Bool.and_eq_true] at h
      simp only [execArms]
      refine (Expr.results_admitted env condition h.1.1).single.bind fun v _ => ?_
      split
      · exact .inScope fun inner => execAll_admitted inner body h.1.2
      · exact execArms_admitted env ho arms h.2

theorem Action.exec_admitted (env : Env) (line : Nat) : (action : Action) →
    action.every (literalChecks V.text) = true → V.Keeps V.AdmitsFlow (action.exec call env line)
  | .declare names values, h => by
      simp only [Action.every, Bool.and_eq_true] at h
      simp only [Action.exec]
      refine (resultsOfAll_admitted env values h.2).bind fun vs hvs => ?_
      have hdeclare : ∀ scope, V.AdmitsScope scope →
          V.AdmitsScope (Scope.declareAll names vs scope) :=
        fun scope hscope => hscope.declareAll names hvs
      exact (Keeps.onInnermost env hdeclare).bind fun _ _ => .pure trivial
  | .assign targets values, h => by
      simp only [Action.every, Bool.and_eq_true] at h
      simp only [Action.exec]
      refine (places_admitted env targets h.2.1).bind fun ps hps => ?_
      refine (resultsOfAll_admitted env values h.2.2).bind fun vs hvs => ?_
      exact (Keeps.storeAll env hps (hvs.adjusted _)).bind fun _ _ => .pure trivial
  | .call expr, h => by
      simp only [Action.every, Bool.and_eq_true] at h
      simp only [Action.exec]
      exact (Expr.results_admitted env expr h.2).spread.bind fun _ _ => .pure trivial
  | .block body, h => by
      simp only [Action.every, Bool.and_eq_true] at h
      simp only [Action.exec]
      exact .inScope fun inner => execAll_admitted inner body h.2
  | .branch arms none, h => by
      simp only [Action.every, Bool.and_eq_true] at h
      simp only [Action.exec]
      have hnormal : V.AdmitsFlow .normal := trivial
      exact execArms_admitted env (.pure hnormal) arms h.2
  | .branch arms (some otherwise), h => by
      simp only [Action.every, Bool.and_eq_true] at h
      simp only [Action.exec]
      refine execArms_admitted env ?_ arms h.2.1
      exact .inScope fun inner => execAll_admitted inner otherwise h.2.2
  | .whileLoop condition body, h => by
      simp only [Action.every, Bool.and_eq_true] at h
      simp only [Action.exec]
      refine .whileRounds (Expr.results_admitted env condition h.2.1).single ?_
      exact .inScope fun inner => execAll_admitted inner body h.2.2
  | .repeatLoop body condition, h => by
      simp only [Action.every, Bool.and_eq_true] at h
      simp only [Action.exec]
      have hbody : ∀ inner, V.Keeps V.AdmitsFlow (execAll call inner body) :=
        fun inner => execAll_admitted inner body h.2.1
      refine .repeatRounds (.inOpenScope hbody) fun inner => ?_
      exact (Expr.results_admitted inner condition h.2.2).single
  | .countLoop counter start limit step body, h => by
      -- The checks are defined for a loop with a step and for one without, the parts are the same.
      have hparts : start.every (literalChecks V.text) = true ∧
          limit.every (literalChecks V.text) = true ∧
          everyStmt (literalChecks V.text) body = true := by
        cases step <;> simp only [Action.every, Bool.and_eq_true] at h
        · exact h.2
        · exact ⟨h.2.1, h.2.2.1, h.2.2.2.2⟩
      rcases hparts with ⟨hstart, hlimit, hbody⟩
      have hrounds : ∀ a b x : Float, V.Keeps V.AdmitsFlow
          (if x == 0 then fault .loopStepZero else countRounds line a b x fun i => do
            let outer ← newScope [(counter, .number i)]
            inScope (outer :: env) fun inner => execAll call inner body) := by
        intro a b x
        split
        · exact .fault _
        · refine .countRounds fun i => (Keeps.newScope ?_).bind fun outer _ => ?_
          · intro d hd
            rw [List.mem_singleton.mp hd]
            exact admits_number i
          · exact .inScope fun inner => execAll_admitted inner body hbody
      simp only [Action.exec]
      refine (Expr.results_admitted env start hstart).single.bind fun a _ => ?_
      refine (Keeps.loopNumber _ a).bind fun a _ => ?_
      refine (Expr.results_admitted env limit hlimit).single.bind fun b _ => ?_
      refine (Keeps.loopNumber _ b).bind fun b _ => ?_
      cases step with
      | none => exact Keeps.bind (P := fun _ => True) (.pure trivial) fun x _ => hrounds a b x
      | some e =>
          simp only [Action.every, Bool.and_eq_true] at h
          refine (Expr.results_admitted env e h.2.2.2.1).single.bind fun v _ => ?_
          exact (Keeps.loopNumber _ v).bind fun x _ => hrounds a b x
  | .eachLoop names exprs body, h => by
      simp only [Action.every, Bool.and_eq_true] at h
      simp only [Action.exec]
      refine (resultsOfAll_admitted env exprs h.2.1).bind fun vs hvs => ?_
      -- The expressions give the function that is called, its first argument, and the first value
      -- of the second one, which each round replaces.
      have hinit := hvs.adjusted 3
      have hstate := (hinit.drop 1).headD
      have hcontrol := (hinit.drop 2).headD
      refine .eachRounds hcontrol (fun v hv => ?_) fun vs hvs => ?_
      · exact .callValue hcall _ hinit.headD ((AdmitsAll.one hv).cons hstate)
      · refine (Keeps.newScope (AdmitsScope.empty.declareAll names hvs)).bind fun outer _ => ?_
        exact .inScope fun inner => execAll_admitted inner body h.2.2
  | .define root path _ definition, h => by
      simp only [Action.every, Bool.and_eq_true] at h
      simp only [Action.exec]
      refine (Keeps.newClosure h.2 env).bind fun f hf => ?_
      exact (Keeps.defineAt env root h.1 hf).bind fun _ _ => .pure trivial
  | .declareFunction name definition, h => by
      simp only [Action.every, Bool.and_eq_true] at h
      simp only [Action.exec]
      have hdeclare : ∀ scope, V.AdmitsScope scope →
          V.AdmitsScope (Scope.declareAll [name] [.nil] scope) :=
        fun scope hscope => hscope.declareAll [name] (AdmitsAll.one admits_nil)
      refine (Keeps.onInnermost env hdeclare).bind fun _ _ => ?_
      refine (Keeps.newClosure h.2 env).bind fun f hf => ?_
      have hstore : ∀ scope, V.AdmitsScope scope → V.AdmitsScope (Scope.store 0 f scope) :=
        fun scope hscope => hscope.store 0 hf
      exact (Keeps.onInnermost env hstore).bind fun _ _ => .pure trivial
  | .returnValues values, h => by
      simp only [Action.every, Bool.and_eq_true] at h
      simp only [Action.exec]
      exact (resultsOfAll_admitted env values h.2).bind fun vs hvs => .pure hvs
  | .breakLoop, _ => .pure trivial

end

theorem block_admitted (env : Env) {body : List Stmt}
    (h : everyStmt (literalChecks V.text) body = true) :
    V.Keeps V.AdmitsFlow (block call env body) :=
  .inScope fun inner => execAll_admitted hcall inner body h

end Syntax

/-! ## Calls of script functions -/

variable {V : Vocabulary s.address}

/-- By induction on how deep calls may be. -/
theorem callClosure_admitted (fuel : Nat) : V.KeepsCalls (callClosure fuel) := by
  induction fuel with
  | zero => exact fun _ _ _ _ => .fault _
  | succ fuel ih =>
      intro c args hc hargs
      have hbody : everyStmt (literalChecks V.text) c.definition.body = true := by
        generalize c.definition = f at hc
        cases f
        exact hc
      unfold callClosure
      refine Keeps.bind (P := V.AdmitsFlow) (.framed ?_) fun flow hflow => ?_
      · refine (Keeps.newScope (AdmitsScope.empty.declareAll _ hargs)).bind fun frame _ => ?_
        exact block_admitted ih _ hbody
      · cases flow with
        | returned vs => exact .pure hflow
        | normal => exact .pure AdmitsAll.nil
        | broken => exact .fault _

theorem callWithin_admitted : V.KeepsCalls callWithin :=
  fun c args hc hargs m hm => callClosure_admitted _ c args hc hargs m hm

end Script

end PixelEffects
