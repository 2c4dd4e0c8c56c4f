import PixelEffects.Proofs.Script.Host
import PixelEffects.Proofs.Script.Scoping

/-!
# Lexical Scope

Where no name changes its meaning, looking up names is lexical scoping.

A chunk that is settled runs in the same way with its names and with their resolutions. The proof is
an induction over the syntax. An expression declares nothing where it stands, and so its parts are
evaluated one after the other in scopes of which the text says the same. A statement may declare
names in the scope of its block, and the text says something else of that scope behind it. A block is
run in a scope of its own, with the names that its statements declare as its plan.

For a chunk that is not settled the two ways may differ. `late_declaration` is an example: a function
that refers to a variable finds another one when the block around it has gone on to declare the name
again.

## Main definitions

* `CallsAgree`: Two ways to call functions agree on functions that are linked.
* `Place.resolve`: What an assignment stores into, resolved.
* `HostOp.resolve`: What a host asks, with its chunk resolved.

## Theorems

* `Expr.results_agree`, `execAll_agrees` and others: One for each kind of syntax.
* `callClosure_agrees`: Functions that are linked do the same.
* `settled_answers`: A host cannot tell the two ways apart if its chunks are settled.
-/

namespace PixelEffects

namespace Script

variable {α β : Type}

/-! ## Behind declarations -/

namespace TextScope

theorem after_append (s : TextScope) (names more : List String) :
    (s.after names).after more = s.after (names ++ more) := by
  unfold TextScope.after
  rw [List.reverse_append, List.append_assoc, List.drop_drop, List.length_append]

/-- Behind its last statement, a block has declared all its names. -/
theorem opened_after (body : List Stmt) :
    (opened body).after (declaredBy body) = complete (declaredBy body) := by
  unfold TextScope.after opened complete
  rw [List.append_nil, List.drop_length]

end TextScope

theorem names_declareAll (names : List String) (values : List Value) (scope : Scope) :
    (Scope.declareAll names values scope).names = names.reverse ++ scope.names := by
  induction names generalizing values scope with
  | nil => cases values <;> rfl
  | cons n names ih =>
      have hrest : ∀ v values, (Scope.declareAll names values ((n, v) :: scope)).names =
          (n :: names).reverse ++ scope.names := by
        intro v values
        rw [ih, List.reverse_cons, List.append_assoc]
        rfl
      cases values with
      | nil => exact hrest .nil []
      | cons v values => exact hrest v values

/-- The scope of a block declares the next names of its plan. -/
theorem together_declare {plan : Plan} {m : Machine} {closures : Array (Closure Var)}
    {text : TextEnv} {s : TextScope} {id : ScopeId} {env : Env} (hmatches : Matches plan m closures)
    (hd : Describes plan (declaredNames m.scopes) (s :: text) (id :: env)) (hfree : s.captured = false)
    (hid : id ∉ env) {names rest : List String} (hcoming : s.coming = names ++ rest)
    (values : List Value) :
    Together (some id) plan m closures
      (fun _ _ plan' names' => Describes plan' names' (s.after names :: text) (id :: env))
      (declare (id :: env) names values : Eval String Unit)
      (declare (id :: env) names values : Eval Var Unit) := by
  rcases hd with _ | ⟨hs, hd⟩
  -- Only the scope of the block changes: it has the new names in front of its others.
  let m' : Machine := { m with
    scopes := m.scopes.modify id.index (Scope.declareAll names values) }
  have hsize : (declaredNames m'.scopes).size = (declaredNames m.scopes).size := by
    rw [size_declaredNames, size_declaredNames, Array.size_modify]
  have hold : ∀ other : ScopeId, other ≠ id →
      namesAt (declaredNames m'.scopes) other = namesAt (declaredNames m.scopes) other := by
    intro other hother
    have hindex : id.index ≠ other.index := fun h => hother (congrArg ScopeId.mk h.symm)
    rw [namesAt_declaredNames, namesAt_declaredNames, scopeAt, scopeAt,
      Array.getD_eq_getD_getElem?, Array.getD_eq_getD_getElem?, Array.getElem?_modify,
      if_neg hindex]
  have hnew : namesAt (declaredNames m'.scopes) id =
      names.reverse ++ namesAt (declaredNames m.scopes) id := by
    have hinside : id.index < m.scopes.size := by
      have := hs.inside
      rw [size_declaredNames] at this
      exact this
    rw [namesAt_declaredNames, namesAt_declaredNames, scopeAt, scopeAt,
      Array.getD_eq_getD_getElem?, Array.getD_eq_getD_getElem?, Array.getElem?_modify, if_pos rfl,
      Array.getElem?_eq_getElem hinside]
    exact names_declareAll names values _
  -- The scope is not captured, so what it has declared is what the text says is visible.
  have hcurrent := hs.current hfree
  have hplan : (names.reverse ++ s.visible).reverse ++ rest = plan id.index := by
    rw [← hs.planned, hcoming, List.reverse_append, List.reverse_reverse, List.append_assoc]
  have hframe : Frame (some id) plan (declaredNames m.scopes) plan (declaredNames m'.scopes) := by
    refine ⟨Nat.le_of_eq hsize.symm, fun _ _ => rfl, fun other _ hother => hold other ?_⟩
    rintro rfl
    exact hother rfl
  -- Functions that remember the scope stay linked, since no declaration is lost.
  have hgrows : ∀ other : ScopeId, namesAt (declaredNames m.scopes) other <:+
      namesAt (declaredNames m'.scopes) other := by
    intro other
    by_cases hother : other = id
    · rw [hother, hnew]
      exact List.suffix_append _ _
    · exact ⟨[], (hold other hother).symm⟩
  have hmatches' : Matches plan m' closures := by
    refine ⟨fun other hinside => ?_, hmatches.size, fun i c c' hc hc' => ?_⟩
    · rw [hsize] at hinside
      by_cases hother : other = id
      · rw [hother, hnew, hcurrent, ← hplan]
        exact List.prefix_append _ _
      · rw [hold other hother]
        exact hmatches.planned other hinside
    · exact (hmatches.linked i c c' hc hc').later (Nat.le_of_eq hsize.symm) (fun _ _ => rfl)
        fun other _ => hgrows other
  -- The names that were coming are visible now, and the scopes further out are untouched.
  have hafter : Describes plan (declaredNames m'.scopes) (s.after names :: text) (id :: env) := by
    refine .cons ⟨?_, ?_, ?_, fun _ => ?_⟩ (hframe.describes hd fun other hother => ?_)
    · rw [hsize]
      exact hs.inside
    · rw [TextScope.after, hcoming, List.drop_left]
      exact hplan
    · rw [hnew, hcurrent]
      exact List.suffix_refl _
    · rw [hnew, hcurrent]
      rfl
    · rintro ⟨⟩
      exact hid hother
  exact fun _ => .ended hmatches' hframe hafter

theorem agree_setLatest {text : TextEnv} {env : Env} (v : Value) :
    Agree text env (setLatest env v : Eval String Unit) (setLatest env v : Eval Var Unit) := by
  refine Agree.of_run fun plan s m closures _ _ => ?_
  cases env with
  | nil => exact ⟨m, rfl, rfl, Or.inl ⟨(), rfl, rfl⟩⟩
  | cons id env =>
      refine ⟨{ m with scopes := m.scopes.modify id.index (Scope.store 0 v) }, ?_, rfl,
        Or.inl ⟨(), rfl, rfl⟩⟩
      exact declaredNames_store m.scopes ⟨id, 0⟩ v

/-! ## Compounds -/

section Compounds

variable {text : TextEnv} {env : Env}

theorem agree_single {x : Eval String (List Value)} {y : Eval Var (List Value)}
    (h : Agree text env x y) : Agree text env (single x) (single y) :=
  (resolutionCongruence text env).single_rel (n := 0) h

theorem agree_one {x : Eval String Value} {y : Eval Var Value} (h : Agree text env x y) :
    Agree text env (do pure [← x]) (do pure [← y]) :=
  (resolutionCongruence text env).one_rel (n := 0) h

theorem agree_spread {isMulti : Bool} {x : Eval String (List Value)} {y : Eval Var (List Value)}
    (h : Agree text env x y) : Agree text env (spread isMulti x) (spread isMulti y) :=
  (resolutionCongruence text env).spread_rel (Nat.le_refl _) (k := 0) fun _ _ => h

theorem agree_pure (a : α) : Agree text env (pure a) (pure a) :=
  Agree.plain (Plain.pure a)

theorem agree_fault {c : Cause} (hc : c.isBound = false) :
    Agree text env (fault c : Eval String α) (fault c) :=
  Agree.plain (Plain.fault hc)

/-- An entry that is looked for in vain is named as the source names it. -/
theorem agree_indexOf (e : Expr) (object key : Value) :
    Agree text env (indexOf e object key) (indexOf (e.resolve text) object key) := by
  cases e with
  | name x =>
      simp only [Expr.resolve]
      cases object with
      | nil => exact agree_fault rfl
      | _ =>
          simp only [indexOf]
          exact Agree.plain (plain_index _ key)
  | _ => exact Agree.plain (plain_index object key)

theorem agree_defineAt {root : String} (hsettles : text.settles root = true) (path : List String)
    (f : Value) :
    Agree text env (defineAt env root path f) (defineAt env (text.resolve root) path f) := by
  match path with
  | [] => exact agree_fault rfl
  | [_] => exact agree_writeVariable hsettles f
  | n :: segment :: rest =>
      refine Agree.bind (agree_readVariable hsettles) fun v => ?_
      refine Agree.bind (Agree.plain (plain_follow v _)) fun w => ?_
      cases w with
      | table id => exact Agree.plain (plain_writeEntry id _ f)
      | _ => exact agree_fault rfl

/-- What an assignment stores into, with variables resolved. -/
def Place.resolve (text : TextEnv) : Place String → Place Var
  | .var x => .var (text.resolve x)
  | .entry table key => .entry table key

/-- A place whose variable settles. -/
def Place.settled (text : TextEnv) : Place String → Bool
  | .var x => text.settles x
  | .entry _ _ => true

/-- Places that stand for each other. -/
def PlacesAgree (text : TextEnv) (ps : List (Place String)) (ps' : List (Place Var)) : Prop :=
  ps' = ps.map (Place.resolve text) ∧ ∀ p ∈ ps, p.settled text = true

theorem PlacesAgree.cons {p : Place String} {ps : List (Place String)} {ps' : List (Place Var)}
    (hp : p.settled text = true) (h : PlacesAgree text ps ps') :
    PlacesAgree text (p :: ps) (p.resolve text :: ps') := by
  refine ⟨by rw [h.1, List.map_cons], fun q hq => ?_⟩
  rcases List.mem_cons.mp hq with rfl | hq
  · exact hp
  · exact h.2 q hq

theorem agree_storeAll (ps : List (Place String)) (vs : List Value)
    (hps : ∀ p ∈ ps, p.settled text = true) :
    Agree text env (storeAll env ps vs) (storeAll env (ps.map (Place.resolve text)) vs) := by
  induction ps generalizing vs with
  | nil => exact agree_pure ()
  | cons p ps ih =>
      cases vs with
      | nil => exact agree_pure ()
      | cons v vs =>
          have hp := hps p List.mem_cons_self
          refine Agree.bind ?_ fun _ => ih vs fun q hq => hps q (List.mem_cons_of_mem p hq)
          cases p with
          | var x => exact agree_writeVariable hp v
          | entry id k => exact Agree.plain (plain_writeEntry id k v)

end Compounds

theorem agree_entryPlace {text : TextEnv} {env : Env} (object key : Value) :
    AgreeUpTo (fun p p' => p' = p.resolve text ∧ p.settled text = true) text env
      (entryPlace object key) (entryPlace object key) := by
  cases object with
  | table id =>
      refine AgreeUpTo.bind (Agree.plain (plain_keyOf key)) ?_
      rintro k _ rfl
      exact AgreeUpTo.pure ⟨rfl, rfl⟩
  | _ => exact AgreeUpTo.fault _

/-- Two ways to call functions that do the same for functions that are linked. -/
def CallsAgree (call : Caller String) (call' : Caller Var) : Prop :=
  ∀ plan m closures c c' args, Matches plan m closures →
    Linked plan (declaredNames m.scopes) c c' →
    Together none plan m closures (fun a b _ _ => a = b) (call c args) (call' c' args)

/-- A value that is called is the same library function, or functions that are linked. -/
theorem agree_callValue {call : Caller String} {call' : Caller Var} (hcall : CallsAgree call call')
    {text : TextEnv} {env : Env} (site : Site) (f : Value) (args : List Value) :
    Agree text env (callValue call site f args) (callValue call' site f args) := by
  cases f with
  | builtin b => exact Agree.library b args
  | function id =>
      intro plan m closures hmatches hd s
      simp only [callValue, run_closureAt_bind]
      have hresolved : (m.withClosures closures).closures = closures := rfl
      rw [hresolved]
      -- Either neither machine has such a function, or both have it and theirs are linked.
      rcases hmatches.lookup id.index with ⟨hc, hc'⟩ | ⟨c, c', hc, hc', hlinked⟩
      · rw [hc, hc']
        exact .failed hmatches
      · rw [hc, hc']
        exact hcall plan m closures c c' args hmatches hlinked s
  | _ => exact agree_fault rfl

/-- A statement or several run together, and unless one of them leaves, the text says the truth
    behind the names that they declare. -/
def ProceedsTogether (text : TextEnv) (s : TextScope) (id : ScopeId) (env : Env)
    (names : List String) (x : Eval String Flow) (y : Eval Var Flow) : Prop :=
  ∀ plan m closures, Matches plan m closures →
    Describes plan (declaredNames m.scopes) (s :: text) (id :: env) →
    Together (some id) plan m closures
      (fun a b plan' names' => a = b ∧
        (a = .normal → Describes plan' names' (s.after names :: text) (id :: env))) x y

/-- Where nothing is declared, the text goes on to say the same. -/
theorem Agree.proceeds {text : TextEnv} {s : TextScope} {id : ScopeId} {env : Env}
    {x : Eval String Flow} {y : Eval Var Flow} (h : Agree (s :: text) (id :: env) x y) :
    ProceedsTogether text s id env [] x y := by
  intro plan m closures hmatches hd r
  have hrun := h plan m closures hmatches hd r
  generalize x r m = u, y r (m.withClosures closures) = v at hrun
  cases hrun with
  | failed hmatches => exact .failed hmatches
  | ended hmatches hframe hab =>
      exact .ended hmatches hframe.weaken
        ⟨hab, fun _ => hframe.describes hd fun _ _ => Option.some_ne_none _⟩

/-- What happens before a declaration declares nothing. -/
theorem ProceedsTogether.after {text : TextEnv} {s : TextScope} {id : ScopeId} {env : Env}
    {names : List String} {x : Eval String α} {y : Eval Var α} {f : α → Eval String Flow}
    {g : α → Eval Var Flow} (hx : Agree (s :: text) (id :: env) x y)
    (hf : ∀ a, ProceedsTogether text s id env names (f a) (g a)) :
    ProceedsTogether text s id env names (x >>= f) (y >>= g) := by
  intro plan m closures hmatches hd
  refine (hx plan m closures hmatches hd).andThen fun a b plan' m' closures' hmatches' hframe hab => ?_
  cases hab
  exact hf a plan' m' closures' hmatches' (hframe.describes hd fun _ _ => Option.some_ne_none _)

/-- A block whose statements run together. -/
theorem agree_inScope {text : TextEnv} {env : Env} (body : List Stmt) {x : Env → Eval String Flow}
    {y : Env → Eval Var Flow}
    (h : ∀ id, id ∉ env →
      ProceedsTogether text (.opened body) id env (declaredBy body) (x (id :: env)) (y (id :: env))) :
    Agree text env (inScope env x) (inScope env y) := by
  refine Agree.nested (Agree.opened (s := .opened body) rfl ?_)
  intro id plan m closures hid hmatches hd
  exact (h id hid plan m closures hmatches hd).imp fun _ _ _ _ hpost => hpost.1

/-- A computation in a scope that is opened with all its declarations. -/
theorem agree_inComplete {text : TextEnv} {env : Env} {scope : Scope} {names : List String}
    (hnames : scope.names = names.reverse ++ []) {x : ScopeId → Eval String α}
    {y : ScopeId → Eval Var α} (h : ∀ id, Agree (.complete names :: text) (id :: env) (x id) (y id)) :
    Agree text env (newScope scope >>= x) (newScope scope >>= y) := by
  rw [List.append_nil] at hnames
  refine Agree.opened (s := .complete names) hnames fun id plan m closures _ hmatches hd => ?_
  exact (h id plan m closures hmatches hd).weaken

/-- A loop over numbers, when it is known which. -/
theorem agree_counting {text : TextEnv} {env : Env} {line : Nat} (counter : String)
    (body : List Stmt) (a b step : Float) {x : Env → Eval String Flow} {y : Env → Eval Var Flow}
    (h : ∀ outer inner, inner ∉ outer :: env →
      ProceedsTogether (.complete [counter] :: text) (.opened body) inner (outer :: env)
        (declaredBy body) (x (inner :: outer :: env)) (y (inner :: outer :: env))) :
    Agree text env
      (if step == 0 then fault .loopStepZero
        else countRounds line a b step fun i => do
          let outer ← newScope [(counter, .number i)]
          inScope (outer :: env) x)
      (if step == 0 then fault .loopStepZero
        else countRounds line a b step fun i => do
          let outer ← newScope [(counter, .number i)]
          inScope (outer :: env) y) := by
  split
  · exact agree_fault rfl
  · refine (resolutionCongruence text env).countRounds_rel (n := 0) fun i => ?_
    exact agree_inComplete rfl fun outer => agree_inScope body (h outer)

/-- A `repeat` whose statements run together, with a condition that sees what they have declared. -/
theorem agree_repeatRounds {text : TextEnv} {env : Env} {line : Nat} (body : List Stmt)
    {x : Env → Eval String Flow} {y : Env → Eval Var Flow} {cond : Env → Eval String Value}
    {cond' : Env → Eval Var Value}
    (h : ∀ id, id ∉ env →
      ProceedsTogether text (.opened body) id env (declaredBy body) (x (id :: env)) (y (id :: env)))
    (hcond : ∀ id,
      Agree (.complete (declaredBy body) :: text) (id :: env) (cond (id :: env)) (cond' (id :: env))) :
    Agree text env (repeatRounds line (inOpenScope env x) cond)
      (repeatRounds line (inOpenScope env y) cond') := by
  refine (resolutionCongruence text env).rounds (n := 0) () fun _ => ?_
  change Agree text env _ _
  simp only [inOpenScope, bind_assoc, pure_bind]
  refine Agree.opened (s := .opened body) rfl fun id plan m closures hid hmatches hd => ?_
  -- Noting the body in the record changes neither scopes nor functions.
  have hnote := Together.note_stores m (.enter .repeatBody)
  have hbody := h id hid plan (m.note (.enter .repeatBody)) closures
    (hmatches.unchanged (by rw [hnote.1]) hnote.2) (by rw [hnote.1]; exact hd)
  refine (Together.watched hbody).bind fun a b plan' m' closures' hmatches' _ hpost => ?_
  rcases hpost with ⟨rfl, hnormal⟩
  cases a with
  | normal =>
      have hd' := hnormal rfl
      rw [TextScope.opened_after] at hd'
      -- The round ends in the scope of the body, and everything in it has been declared.
      refine Together.weaken ?_
      refine (hcond id).bind (fun v => ?_) plan' m' closures' hmatches' hd'
      split
      · exact agree_pure _
      · exact Agree.bind (Agree.atLine line) fun _ => Agree.bind Agree.tick fun _ => agree_pure _
  | broken => exact Together.pure hmatches' rfl
  | returned vs => exact Together.pure hmatches' rfl

/-! ## The induction -/

section Syntax

variable {call : Caller String} {call' : Caller Var} (hcall : CallsAgree call call')

include hcall

-- As in the congruence, only expressions and loops call functions themselves.
set_option linter.unusedSectionVars false

mutual

/-- An expression whose names settle has the same results as its resolution. -/
theorem Expr.results_agree (text : TextEnv) (env : Env) : (e : Expr) → e.settled text = true →
    Agree text env (e.results call env) ((e.resolve text).results call' env)
  | .nil, _ | .bool _, _ | .number _, _ | .text _, _ => agree_pure _
  | .function d, h => agree_one (agree_newClosure h)
  | .name x, h => agree_one (agree_readVariable h)
  | .index object key, h => by
      simp only [Expr.settled, Bool.and_eq_true] at h
      simp only [Expr.resolve, Expr.results]
      refine Agree.bind (agree_single (Expr.results_agree text env object h.1)) fun o => ?_
      refine Agree.bind (agree_single (Expr.results_agree text env key h.2)) fun k => ?_
      exact agree_one (agree_indexOf object o k)
  | .call callee args, h => by
      simp only [Expr.settled, Bool.and_eq_true] at h
      simp only [Expr.resolve, Expr.results, calleeSite_resolve]
      refine Agree.bind (agree_single (Expr.results_agree text env callee h.1)) fun f => ?_
      refine Agree.bind (resultsOfAll_agree text env args h.2) fun vs => ?_
      exact agree_callValue hcall _ f vs
  | .method object name args, h => by
      simp only [Expr.settled, Bool.and_eq_true] at h
      simp only [Expr.resolve, Expr.results]
      refine Agree.bind (agree_single (Expr.results_agree text env object h.1)) fun o => ?_
      refine Agree.bind (Agree.plain (plain_index o _)) fun f => ?_
      refine Agree.bind (resultsOfAll_agree text env args h.2) fun vs => ?_
      exact agree_callValue hcall _ f (o :: vs)
  | .table fields, h => by
      simp only [Expr.settled] at h
      simp only [Expr.resolve, Expr.results]
      refine Agree.bind (addFields_agree text env .empty 1 fields h) fun t => ?_
      exact agree_one (Agree.plain (plain_newTable t))
  | .unary op operand, h => by
      simp only [Expr.settled] at h
      simp only [Expr.resolve, Expr.results]
      refine Agree.bind (agree_single (Expr.results_agree text env operand h)) fun v => ?_
      exact agree_one (Agree.plain (plain_askTables fun t c hc => unary?_boundless hc))
  | .binary op left right, h => by
      simp only [Expr.settled, Bool.and_eq_true] at h
      have hl := agree_single (Expr.results_agree text env left h.1)
      have hr := agree_single (Expr.results_agree text env right h.2)
      cases op with
      | and =>
          simp only [Expr.resolve, Expr.results]
          refine Agree.bind hl fun l => ?_
          split
          · exact agree_one hr
          · exact agree_pure _
      | or =>
          simp only [Expr.resolve, Expr.results]
          refine Agree.bind hl fun l => ?_
          split
          · exact agree_pure _
          · exact agree_one hr
      | _ =>
          simp only [Expr.resolve, Expr.results]
          refine Agree.bind hl fun l => Agree.bind hr fun r => ?_
          exact agree_one (Agree.plain (plain_binary _ l r))
  | .paren inner, h => by
      simp only [Expr.settled] at h
      simp only [Expr.resolve, Expr.results]
      exact agree_one (agree_single (Expr.results_agree text env inner h))

theorem resultsOfAll_agree (text : TextEnv) (env : Env) : (es : List Expr) →
    settledList text es = true →
    Agree text env (resultsOfAll call env es) (resultsOfAll call' env (resolveList text es))
  | [], _ => agree_pure _
  | [e], h => by
      simp only [settledList, Bool.and_eq_true] at h
      simp only [resolveList, resultsOfAll, isMulti_resolve]
      exact agree_spread (Expr.results_agree text env e h.1)
  | e :: next :: es, h => by
      rw [settledList, Bool.and_eq_true] at h
      have hrest := resultsOfAll_agree text env (next :: es) h.2
      simp only [resolveList, resultsOfAll] at hrest ⊢
      refine Agree.bind (agree_single (Expr.results_agree text env e h.1)) fun v => ?_
      exact Agree.bind hrest fun vs => agree_pure _

theorem addFields_agree (text : TextEnv) (env : Env) (t : Table) (pos : Nat) :
    (fields : List Field) → settledFields text fields = true →
    Agree text env (addFields call env t pos fields)
      (addFields call' env t pos (resolveFields text fields))
  | [], _ => agree_pure _
  | .named name value :: fields, h => by
      simp only [settledFields, Bool.and_eq_true] at h
      simp only [resolveFields, addFields]
      refine Agree.bind (agree_single (Expr.results_agree text env value h.1)) fun v => ?_
      exact addFields_agree text env _ _ fields h.2
  | .keyed key value :: fields, h => by
      simp only [settledFields, Bool.and_eq_true] at h
      simp only [resolveFields, addFields]
      refine Agree.bind (agree_single (Expr.results_agree text env key h.1.1)) fun k => ?_
      refine Agree.bind (Agree.plain (plain_keyOf k)) fun k => ?_
      refine Agree.bind (agree_single (Expr.results_agree text env value h.1.2)) fun v => ?_
      exact addFields_agree text env _ _ fields h.2
  | .item value :: fields, h => by
      simp only [settledFields, Bool.and_eq_true] at h
      simp only [resolveFields, addFields, isMulti_resolve, isEmpty_resolveFields]
      refine Agree.bind (agree_spread (Expr.results_agree text env value h.1)) fun vs => ?_
      exact addFields_agree text env _ _ fields h.2

theorem places_agree (text : TextEnv) (env : Env) : (targets : List Expr) →
    settledList text targets = true →
    AgreeUpTo (PlacesAgree text) text env (places call env targets)
      (places call' env (resolveList text targets))
  | [], _ => AgreeUpTo.pure ⟨rfl, fun p hp => by cases hp⟩
  | .name x :: targets, h => by
      simp only [settledList, Expr.settled, Bool.and_eq_true] at h
      simp only [resolveList, Expr.resolve, places]
      refine AgreeUpTo.bind (places_agree text env targets h.2) fun ps ps' hps => ?_
      exact AgreeUpTo.pure (PlacesAgree.cons (p := .var x) h.1 hps)
  | .index object key :: targets, h => by
      simp only [settledList, Expr.settled, Bool.and_eq_true] at h
      simp only [resolveList, Expr.resolve, places]
      refine AgreeUpTo.bind (agree_single (Expr.results_agree text env object h.1.1)) ?_
      rintro o _ rfl
      refine AgreeUpTo.bind (agree_single (Expr.results_agree text env key h.1.2)) ?_
      rintro k _ rfl
      refine AgreeUpTo.bind (agree_entryPlace o k) ?_
      rintro p _ ⟨rfl, hp⟩
      refine AgreeUpTo.bind (places_agree text env targets h.2) fun ps ps' hps => ?_
      exact AgreeUpTo.pure (PlacesAgree.cons hp hps)
  | .nil :: _, _ | .bool _ :: _, _ | .number _ :: _, _ | .text _ :: _, _ | .function _ :: _, _
  | .call .. :: _, _ | .method .. :: _, _ | .table _ :: _, _ | .unary .. :: _, _
  | .binary .. :: _, _ | .paren _ :: _, _ => AgreeUpTo.fault _

theorem Stmt.exec_agrees (text : TextEnv) (s : TextScope) (id : ScopeId) (env : Env)
    (hfree : s.captured = false) (hid : id ∉ env) (rest : List String) : (st : Stmt) →
    s.coming = st.declared ++ rest → st.settled (s :: text) = true →
    ProceedsTogether text s id env st.declared (st.exec call (id :: env))
      ((st.resolve (s :: text)).exec call' (id :: env))
  | .mk line action, hcoming, h => by
      simp only [Stmt.settled] at h
      simp only [Stmt.resolve, Stmt.exec]
      refine ProceedsTogether.after (Agree.atLine line) fun _ => ?_
      refine ProceedsTogether.after
        (Agree.bind Agree.tick fun _ => Agree.mark .statement) fun _ => ?_
      exact Action.exec_agrees text s id env hfree hid rest line action hcoming h

/-- Statements in the scope of their block, with what is left of its plan. -/
theorem execAll_agrees (text : TextEnv) (s : TextScope) (id : ScopeId) (env : Env)
    (hfree : s.captured = false) (hid : id ∉ env) : (stmts : List Stmt) →
    s.coming = declaredBy stmts → settledBlock (s :: text) stmts = true →
    ProceedsTogether text s id env (declaredBy stmts) (execAll call (id :: env) stmts)
      (execAll call' (id :: env) (resolveBlock (s :: text) stmts))
  | [], _, _ => (agree_pure Flow.normal).proceeds
  | st :: rest, hcoming, h => by
      simp only [settledBlock, Bool.and_eq_true] at h
      simp only [resolveBlock, execAll]
      intro plan m closures hmatches hd
      -- What is coming to the block is what the first statement declares and then the rest.
      have hfirst := Stmt.exec_agrees text s id env hfree hid (declaredBy rest) st hcoming h.1
      refine (hfirst plan m closures hmatches hd).bind ?_
      rintro flow _ plan' m' closures' hmatches' - ⟨rfl, hnormal⟩
      cases flow with
      | normal =>
          have hcoming' : (s.after st.declared).coming = declaredBy rest := by
            rw [TextScope.after, hcoming]
            exact List.drop_left
          have hrest := execAll_agrees text (s.after st.declared) id env hfree hid rest hcoming' h.2
            plan' m' closures' hmatches' (hnormal rfl)
          refine hrest.imp fun _ _ _ _ hpost => ?_
          rw [TextScope.after_append] at hpost
          exact hpost
      | broken => exact Together.pure hmatches' ⟨rfl, fun hleft => by cases hleft⟩
      | returned vs => exact Together.pure hmatches' ⟨rfl, fun hleft => by cases hleft⟩

theorem execArms_agree (text : TextEnv) (env : Env) {otherwise : Eval String Flow}
    {otherwise' : Eval Var Flow} (ho : Agree text env otherwise otherwise') : (arms : List Arm) →
    settledArms text arms = true →
    Agree text env (execArms call env otherwise arms)
      (execArms call' env otherwise' (resolveArms text arms))
  | [], _ => ho
  | .mk condition body :: arms, h => by
      simp only [settledArms, Bool.and_eq_true] at h
      simp only [resolveArms, execArms]
      refine Agree.bind (agree_single (Expr.results_agree text env condition h.1.1)) fun v => ?_
      split
      · exact agree_inScope body fun inner hinner =>
          execAll_agrees text (.opened body) inner env rfl hinner body rfl h.1.2
      · exact execArms_agree text env ho arms h.2

theorem Action.exec_agrees (text : TextEnv) (s : TextScope) (id : ScopeId) (env : Env)
    (hfree : s.captured = false) (hid : id ∉ env) (rest : List String) (line : Nat) :
    (action : Action) → s.coming = (Stmt.mk line action).declared ++ rest →
    action.settled (s :: text) = true →
    ProceedsTogether text s id env (Stmt.mk line action).declared
      (action.exec call (id :: env) line)
      ((action.resolve (s :: text)).exec call' (id :: env) line)
  | .declare names values, hcoming, h => by
      simp only [Action.settled] at h
      simp only [Action.resolve, Action.exec]
      refine ProceedsTogether.after (resultsOfAll_agree _ _ values h) fun vs => ?_
      intro plan m closures hmatches hd
      refine (together_declare hmatches hd hfree hid hcoming vs).bind ?_
      intro _ _ plan' m' closures' hmatches' _ hd'
      exact Together.pure hmatches' ⟨rfl, fun _ => hd'⟩
  | .declareFunction name d, hcoming, h => by
      simp only [Action.settled] at h
      simp only [Action.resolve, Action.exec]
      intro plan m closures hmatches hd
      refine (together_declare hmatches hd hfree hid hcoming [.nil]).bind ?_
      intro _ _ plan' m' closures' hmatches' _ hd'
      -- The function is made where its own name is visible already.
      have hrest : Agree (s.after [name] :: text) (id :: env)
          (do let f ← newClosure d (id :: env); setLatest (id :: env) f; pure Flow.normal)
          (do
            let f ← newClosure (d.resolve (TextEnv.captured (s.after [name] :: text))) (id :: env)
            setLatest (id :: env) f
            pure Flow.normal) :=
        Agree.bind (agree_newClosure h) fun f => Agree.bind (agree_setLatest f) fun _ => agree_pure _
      exact hrest.proceeds plan' m' closures' hmatches' hd'
  | .assign targets values, _, h => by
      simp only [Action.settled, Bool.and_eq_true] at h
      refine Agree.proceeds ?_
      simp only [Action.resolve, Action.exec]
      refine AgreeUpTo.bind (places_agree _ _ targets h.1) ?_
      rintro ps _ ⟨rfl, hps⟩
      refine Agree.bind (resultsOfAll_agree _ _ values h.2) fun vs => ?_
      rw [List.length_map]
      exact Agree.bind (agree_storeAll ps _ hps) fun _ => agree_pure _
  | .call expr, _, h => by
      simp only [Action.settled] at h
      refine Agree.proceeds ?_
      simp only [Action.resolve, Action.exec, isMulti_resolve]
      exact Agree.bind (agree_spread (Expr.results_agree _ _ expr h)) fun _ => agree_pure _
  | .block body, _, h => by
      simp only [Action.settled] at h
      refine Agree.proceeds ?_
      simp only [Action.resolve, Action.exec]
      exact agree_inScope body fun inner hinner =>
        execAll_agrees _ (.opened body) inner _ rfl hinner body rfl h
  | .branch arms none, _, h => by
      simp only [Action.settled] at h
      refine Agree.proceeds ?_
      simp only [Action.resolve, Action.exec]
      exact execArms_agree _ _ (agree_pure _) arms h
  | .branch arms (some otherwise), _, h => by
      simp only [Action.settled, Bool.and_eq_true] at h
      refine Agree.proceeds ?_
      simp only [Action.resolve, Action.exec]
      refine execArms_agree _ _ (agree_inScope otherwise fun inner hinner => ?_) arms h.1
      exact execAll_agrees _ (.opened otherwise) inner _ rfl hinner otherwise rfl h.2
  | .whileLoop condition body, _, h => by
      simp only [Action.settled, Bool.and_eq_true] at h
      refine Agree.proceeds ?_
      simp only [Action.resolve, Action.exec]
      refine (resolutionCongruence _ _).whileRounds_rel (n := 0)
        (agree_single (Expr.results_agree _ _ condition h.1)) ?_
      exact agree_inScope body fun inner hinner =>
        execAll_agrees _ (.opened body) inner _ rfl hinner body rfl h.2
  | .repeatLoop body condition, _, h => by
      simp only [Action.settled, Bool.and_eq_true] at h
      refine Agree.proceeds ?_
      simp only [Action.resolve, Action.exec]
      refine agree_repeatRounds body (fun inner hinner => ?_) fun inner => ?_
      · exact execAll_agrees _ (.opened body) inner _ rfl hinner body rfl h.1
      · exact agree_single (Expr.results_agree _ _ condition h.2)
  | .countLoop counter start limit none body, _, h => by
      simp only [Action.settled, Bool.and_eq_true] at h
      refine Agree.proceeds ?_
      simp only [Action.resolve, Action.exec]
      refine Agree.bind (agree_single (Expr.results_agree _ _ start h.1.1)) fun v => ?_
      refine Agree.bind (Agree.plain (plain_loopNumber _ v)) fun a => ?_
      refine Agree.bind (agree_single (Expr.results_agree _ _ limit h.1.2)) fun v => ?_
      refine Agree.bind (Agree.plain (plain_loopNumber _ v)) fun b => ?_
      refine Agree.bind (agree_pure 1) fun x => ?_
      refine agree_counting counter body a b x fun outer inner hinner => ?_
      exact execAll_agrees _ (.opened body) inner _ rfl hinner body rfl h.2
  | .countLoop counter start limit (some step) body, _, h => by
      simp only [Action.settled, Bool.and_eq_true] at h
      refine Agree.proceeds ?_
      simp only [Action.resolve, Action.exec]
      refine Agree.bind (agree_single (Expr.results_agree _ _ start h.1.1.1)) fun v => ?_
      refine Agree.bind (Agree.plain (plain_loopNumber _ v)) fun a => ?_
      refine Agree.bind (agree_single (Expr.results_agree _ _ limit h.1.1.2)) fun v => ?_
      refine Agree.bind (Agree.plain (plain_loopNumber _ v)) fun b => ?_
      refine Agree.bind (agree_single (Expr.results_agree _ _ step h.1.2)) fun v => ?_
      refine Agree.bind (Agree.plain (plain_loopNumber _ v)) fun x => ?_
      refine agree_counting counter body a b x fun outer inner hinner => ?_
      exact execAll_agrees _ (.opened body) inner _ rfl hinner body rfl h.2
  | .eachLoop names exprs body, _, h => by
      simp only [Action.settled, Bool.and_eq_true] at h
      refine Agree.proceeds ?_
      simp only [Action.resolve, Action.exec]
      refine Agree.bind (resultsOfAll_agree _ _ exprs h.1) fun vs => ?_
      refine (resolutionCongruence _ _).eachRounds_rel (n := 0)
        (fun v => agree_callValue hcall _ _ _) fun vs => ?_
      refine agree_inComplete (names_declareAll names vs []) fun outer =>
        agree_inScope body fun inner hinner => ?_
      exact execAll_agrees _ (.opened body) inner _ rfl hinner body rfl h.2
  | .define root path _ d, _, h => by
      simp only [Action.settled, Bool.and_eq_true] at h
      refine Agree.proceeds ?_
      simp only [Action.resolve, Action.exec]
      refine Agree.bind (agree_newClosure h.2) fun f => ?_
      exact Agree.bind (agree_defineAt h.1 path f) fun _ => agree_pure _
  | .returnValues values, _, h => by
      simp only [Action.settled] at h
      refine Agree.proceeds ?_
      simp only [Action.resolve, Action.exec]
      exact Agree.bind (resultsOfAll_agree _ _ values h) fun vs => agree_pure _
  | .breakLoop, _, _ => (agree_pure Flow.broken).proceeds

end

end Syntax

/-! ## Functions -/

/-- Functions that are linked do the same. The induction is on how deep calls are evaluated. -/
theorem callClosure_agrees (fuel : Nat) : CallsAgree (callClosure fuel) (callClosure fuel) := by
  induction fuel with
  | zero => exact fun _ _ _ _ _ _ hmatches _ _ => .failed hmatches
  | succ fuel ih =>
      rintro plan m closures ⟨⟨name, params, body, chunk, line⟩, _⟩ ⟨_, env⟩ args hmatches
        ⟨henv, text, hresolve, hsettled, hd⟩
      dsimp only at henv hresolve hsettled hd
      subst henv hresolve
      -- The body is evaluated in the scopes that the function remembers, and no others matter.
      have hcall : Agree text.captured env
          (callClosure (fuel + 1) ⟨.mk name params body chunk line, env⟩ args)
          (callClosure (fuel + 1)
            ⟨(Function.mk name params body chunk line).resolve text.captured, env⟩ args) := by
        simp only [callClosure]
        refine Agree.bind (Agree.framed ?_) fun flow => ?_
        · refine agree_inComplete (names_declareAll params args []) fun frame =>
            agree_inScope body fun inner hinner => ?_
          exact execAll_agrees ih _ (.opened body) inner _ rfl hinner body rfl hsettled
        · cases flow with
          | broken => exact agree_fault rfl
          | _ => exact agree_pure _
      exact hcall plan m closures hmatches hd

theorem callWithin_agrees : CallsAgree callWithin callWithin :=
  fun plan m closures c c' args hmatches hlinked s =>
    callClosure_agrees (s.limits.maxCallDepth + 1) plan m closures c c' args hmatches hlinked s

/-! ## Engines -/

theorem execChunk_joint {chunk : Chunk} (hsettled : chunk.settled = true) {plan : Plan}
    {m : Machine} {closures : Array (Closure Var)} (hmatches : Matches plan m closures)
    (s : Setting) :
    Joint none plan (declaredNames m.scopes) (fun a b _ _ => a = b) (execChunk chunk s m)
      (execChunk chunk.resolve s (m.withClosures closures)) := by
  -- A chunk is a block with no scope around it.
  have hblock : Agree [] [] (block callWithin [] chunk.body)
      (block callWithin [] chunk.resolve.body) :=
    agree_inScope chunk.body fun inner hinner =>
      execAll_agrees callWithin_agrees [] (.opened chunk.body) inner [] rfl hinner chunk.body rfl
        hsettled
  refine Agree.bind hblock (fun flow => ?_) plan
    { m.restarted with chunk := chunk.name, line := 0 } closures (hmatches.unchanged rfl rfl) .nil s
  cases flow with
  | broken => exact agree_fault rfl
  | _ => exact agree_pure _

theorem callGlobal_joint (name : String) (args : List Value) {plan : Plan} {m : Machine}
    {closures : Array (Closure Var)} (hmatches : Matches plan m closures) (s : Setting) :
    Joint none plan (declaredNames m.scopes) (fun a b _ _ => a = b) (callGlobal name args s m)
      (callGlobal name args s (m.withClosures closures)) := by
  -- A host calls from outside all scopes.
  have hcall : ∀ f, Joint none plan (declaredNames m.scopes) (fun a b _ _ => a = b)
      (callValue callWithin .none f args s m.restarted)
      (callValue callWithin .none f args s (m.restarted.withClosures closures)) := by
    intro f
    have hf : Agree [] [] (callValue callWithin .none f args) (callValue callWithin .none f args) :=
      agree_callValue callWithin_agrees .none f args
    exact hf plan m.restarted closures (hmatches.unchanged rfl rfl) .nil s
  unfold callGlobal
  dsimp only
  have hglobal : (m.withClosures closures).restarted.global name = m.restarted.global name := rfl
  rw [hglobal]
  cases m.restarted.global name with
  | nil => exact .failed (m := m.restarted) (hmatches.unchanged rfl rfl)
  | _ => exact hcall _

/-- An engine and the same engine with its functions resolved. -/
def EnginesMatch (e : Engine) (e' : Engine Var) : Prop :=
  ∃ plan closures, Matches plan e.machine closures ∧
    e' = ⟨e.setting, e.machine.withClosures closures⟩

/-- A host is told the same by runs with outcomes that stand for each other. -/
theorem run_enginesMatch {x : Eval String α} {y : Eval Var α} {s : Setting} {plan : Plan}
    {m : Machine} {closures : Array (Closure Var)}
    (h : Joint none plan (declaredNames m.scopes) (fun a b _ _ => a = b) (x s m)
      (y s (m.withClosures closures))) :
    (Engine.run ⟨s, m.withClosures closures⟩ y).1 = (Engine.run ⟨s, m⟩ x).1 ∧
      EnginesMatch (Engine.run ⟨s, m⟩ x).2 (Engine.run ⟨s, m.withClosures closures⟩ y).2 := by
  simp only [Engine.run]
  generalize x s m = u, y s (m.withClosures closures) = v at h
  cases h with
  | failed hmatches => exact ⟨rfl, _, _, hmatches, rfl⟩
  | ended hmatches _ hab =>
      cases hab
      exact ⟨rfl, _, _, hmatches, rfl⟩

/-- What a host asks, with its chunk resolved. -/
def HostOp.resolve : HostOp → HostOp Var
  | .run chunk => .run chunk.resolve
  | .bind name v => .bind name v
  | .call name args => .call name args
  | .entryPoint name => .entryPoint name

theorem entryPoint_resolve {e : Engine} {e' : Engine Var} (h : EnginesMatch e e') (name : String) :
    e'.entryPoint name = e.entryPoint name := by
  rcases e with ⟨s, m⟩
  rcases h with ⟨plan, closures, hmatches, rfl⟩
  unfold Engine.entryPoint
  have hglobal : (m.withClosures closures).global name = m.global name := rfl
  have hclosures : (m.withClosures closures).closures = closures := rfl
  dsimp only
  rw [hglobal, hclosures]
  cases m.global name with
  | function id =>
      dsimp only
      rcases hmatches.lookup id.index with ⟨hc, hc'⟩ | ⟨c, c', hc, hc', hlinked⟩
      · rw [hc, hc']
      · rw [hc, hc']
        rcases hlinked with ⟨_, text, hresolve, _⟩
        rcases c with ⟨⟨word, params, body, chunk, line⟩, env⟩
        -- Resolution leaves the parameters as they are.
        exact congrArg (fun d => EntryPoint.function (Function.params d).length) hresolve
  | _ => rfl

theorem answer_resolve {e : Engine} {e' : Engine Var} (h : EnginesMatch e e') (op : HostOp)
    (hop : ∀ chunk, op = .run chunk → chunk.settled = true) :
    (e'.answer op.resolve).1 = (e.answer op).1 ∧
      EnginesMatch (e.answer op).2 (e'.answer op.resolve).2 := by
  cases op with
  | entryPoint name => exact ⟨congrArg HostAnswer.entry (entryPoint_resolve h name), h⟩
  | run chunk =>
      rcases e with ⟨s, m⟩
      rcases h with ⟨plan, closures, hmatches, rfl⟩
      have hrun := run_enginesMatch (execChunk_joint (hop chunk rfl) hmatches s)
      exact ⟨congrArg HostAnswer.ran hrun.1, hrun.2⟩
  | bind name v =>
      rcases e with ⟨s, m⟩
      rcases h with ⟨plan, closures, hmatches, rfl⟩
      exact ⟨rfl, plan, closures, hmatches.unchanged rfl rfl, rfl⟩
  | call name args =>
      rcases e with ⟨s, m⟩
      rcases h with ⟨plan, closures, hmatches, rfl⟩
      let vs := (m.onTables (HostValue.allToScript args)).1
      let passed := (m.onTables (HostValue.allToScript args)).2
      have hpassed : Matches plan passed closures := hmatches.unchanged rfl rfl
      have hrun := run_enginesMatch (callGlobal_joint name vs hpassed s)
      rcases hrun with ⟨hresult, plan', closures', hmatches', hengine⟩
      -- The arguments become tables in both machines, and their tables are the same.
      have hresolved : (m.withClosures closures).onTables (HostValue.allToScript args) =
          (vs, passed.withClosures closures) := rfl
      simp only [HostOp.resolve, Engine.answer, Engine.call_eq, hresolved]
      rw [hresult, hengine]
      exact ⟨rfl, plan', closures', hmatches', rfl⟩

/-- A host asks a machine with names and one with resolutions the same. The induction is on what it
    asks. -/
theorem answers_resolve {e : Engine} {e' : Engine Var} (h : EnginesMatch e e') (ops : List HostOp)
    (hops : ∀ chunk, .run chunk ∈ ops → chunk.settled = true) :
    (e'.answers (ops.map HostOp.resolve)).1 = (e.answers ops).1 ∧
      EnginesMatch (e.answers ops).2 (e'.answers (ops.map HostOp.resolve)).2 := by
  induction ops generalizing e e' with
  | nil => exact ⟨rfl, h⟩
  | cons op ops ih =>
      have hop := answer_resolve h op fun chunk hop => hops chunk (hop ▸ List.mem_cons_self)
      have hrest := ih hop.2 fun chunk hchunk => hops chunk (List.mem_cons_of_mem _ hchunk)
      simp only [List.map_cons, Engine.answers]
      exact ⟨by rw [hop.1, hrest.1], hrest.2⟩

/-- If no name in the chunks that a host loads changes its meaning, looking names up while a chunk
    runs is lexical scoping: the host is told the same by an engine that runs the chunks with every
    name resolved to the declaration that is visible where it stands, and the tables, the scopes and
    the counts of the machine are the same at the end. -/
theorem settled_answers (setting : Setting) (ops : List HostOp)
    (hops : ∀ chunk, .run chunk ∈ ops → chunk.settled = true) :
    ((Engine.new setting : Engine Var).answers (ops.map HostOp.resolve)).1 =
        ((Engine.new setting : Engine).answers ops).1 ∧
      ∃ closures, ((Engine.new setting : Engine Var).answers (ops.map HostOp.resolve)).2.machine =
        ((Engine.new setting : Engine).answers ops).2.machine.withClosures closures := by
  -- A new engine has no scopes and no functions, so nothing needs to be resolved in it.
  have hstart : EnginesMatch (Engine.new setting) (Engine.new setting) := by
    refine ⟨fun _ => [], #[], ⟨fun id hid => ?_, rfl, fun i c c' hc _ => ?_⟩, rfl⟩
    · rw [size_declaredNames] at hid
      exact absurd hid (Nat.not_lt_zero _)
    · cases hc
  rcases answers_resolve hstart ops hops with ⟨hanswers, plan, closures, _, hengine⟩
  exact ⟨hanswers, closures, congrArg Engine.machine hengine⟩

/-- A chunk with a function that refers to a variable of the chunk. -/
def capturingChunk : Chunk :=
  ⟨"t.lua", [.mk 1 (.declare ["x"] [.text "a"]),
    .mk 2 (.define "f" ["f"] false (.mk "f" [] [.mk 2 (.returnValues [.name "x"])] "t.lua" 2))]⟩

/-- The function finds the variable that it refers to. -/
theorem settled_answers_capture :
    capturingChunk.settled = true ∧
      ((Engine.new ⟨{}, .spaced⟩ : Engine Var).answers
          ([.run capturingChunk, .call "f" []].map HostOp.resolve)).1 =
        ((Engine.new ⟨{}, .spaced⟩ : Engine).answers [.run capturingChunk, .call "f" []]).1 := by
  have hsettled : capturingChunk.settled = true := by decide
  refine ⟨hsettled, (settled_answers ⟨{}, .spaced⟩ _ fun chunk hchunk => ?_).1⟩
  rcases List.mem_cons.mp hchunk with h | h
  · cases h
    exact hsettled
  · cases List.mem_singleton.mp h

/-- The text that a host is told, if it is told one. -/
def HostAnswer.text? : HostAnswer → Option String
  | .called (.ok (.text s)) => some s
  | _ => none

/-- A source that declares a variable again behind a function that refers to it. -/
def lateDeclaration : String :=
  "local x = 'first' local function f() return x end local x = 'late' function g() return f() end"

/-- A block that declares a name again takes the variable from a function made before: the function
    refers to the first declaration and finds the second. -/
theorem late_declaration :
    ∃ chunk, parseChunk "t.lua" lateDeclaration = .ok chunk ∧ chunk.settled = false ∧
      ((Engine.new ⟨{}, .spaced⟩ : Engine Var).answers
        ([.run chunk, .call "g" []].map HostOp.resolve)).1.map HostAnswer.text? = [none, some "first"] ∧
      ((Engine.new ⟨{}, .spaced⟩ : Engine).answers [.run chunk, .call "g" []]).1.map HostAnswer.text? =
        [none, some "late"] := by
  -- What each engine answers is a computation, for the chunk that the source is parsed to.
  have hcheck : (parseChunk "t.lua" lateDeclaration).toOption.any (fun chunk => !chunk.settled &&
      decide (((Engine.new ⟨{}, .spaced⟩ : Engine Var).answers
        ([.run chunk, .call "g" []].map HostOp.resolve)).1.map HostAnswer.text? =
          [none, some "first"]) &&
      decide (((Engine.new ⟨{}, .spaced⟩ : Engine).answers
        [.run chunk, .call "g" []]).1.map HostAnswer.text? = [none, some "late"])) = true := by
    decide +kernel
  cases hparse : parseChunk "t.lua" lateDeclaration with
  | error e =>
      rw [hparse] at hcheck
      cases hcheck
  | ok chunk =>
      rw [hparse] at hcheck
      simp only [Except.toOption, Option.any_some, Bool.and_eq_true, Bool.not_eq_true',
        decide_eq_true_eq] at hcheck
      exact ⟨chunk, rfl, hcheck.1.1, hcheck.1.2, hcheck.2⟩

end Script

end PixelEffects
