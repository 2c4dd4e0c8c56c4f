import PixelEffects.Proofs.Script.Record

/-!
# Courses of Evaluation

What evaluating an expression does to a machine, apart from the functions that it calls.

That is little. An expression reads variables and entries, and it makes tables and functions, which are
put behind those that there are. It counts how far in it is, and what it begins and ends is noted in
the record. So a relation between machines that holds of these steps, and of one step after another,
holds between the machines before and after an expression as soon as it holds for the functions that
are called. Such a relation is a *course*. An expression without calls does not need the functions.

The induction over expressions is done once, for all courses.

## Main definitions

* `ReadsOnly`: A computation that leaves the machine as it is.
* `Course`: A relation that what an expression does itself respects.
* `Course.Keeps`: A computation that leads along a course.
* `Expr.hasCall`, `hasCallList`: Expressions in which there is a call.

## Theorems

* `Expr.results_keeps`, `resultsOfAll_keeps`, `places_keeps`: One for each kind of expression.
* `Course.keepsCalls`: Calls of any value, from calls of functions.
-/

namespace PixelEffects

namespace Script

variable {ν α β : Type}

/-! ## Reading -/

/-- A computation that leaves the machine as it is. -/
def ReadsOnly (x : Eval ν α) : Prop :=
  ∀ s m, machineAfter (x s m) = m

namespace ReadsOnly

theorem pure (a : α) : ReadsOnly (pure a : Eval ν α) :=
  fun _ _ => rfl

theorem fault (cause : Cause) : ReadsOnly (fault cause : Eval ν α) :=
  fun _ _ => rfl

theorem bind {x : Eval ν α} {f : α → Eval ν β} (hx : ReadsOnly x) (hf : ∀ a, ReadsOnly (f a)) :
    ReadsOnly (x >>= f) := by
  intro s m
  have hsame := hx s m
  rw [run_bind]
  generalize x s m = r at hsame ⊢
  cases r with
  | ok a m' => exact (hf a s m').trans hsame
  | error f m' => exact hsame

theorem orFault {ε : Type} (cause : ε → Cause) (r : Except ε α) :
    ReadsOnly (orFault cause r : Eval ν α) := by
  cases r with
  | ok a => exact pure a
  | error e => exact fault _

theorem askTables (f : Heap → Except Cause α) : ReadsOnly (askTables f : Eval ν α) := by
  intro s m
  exact orFault id (f m.tables) s m

theorem readVariable [Reference ν] (env : Env) (x : ν) : ReadsOnly (readVariable env x) :=
  fun _ _ => rfl

/-- Reading an entry of a table. -/
theorem entry (id : TableId) (key : Value) :
    ReadsOnly (do let k ← keyOf key; Pure.pure ((← readTable id).get k) : Eval ν Value) :=
  (orFault _ _).bind fun _ => bind (fun _ _ => rfl) fun _ => pure _

theorem index (object key : Value) : ReadsOnly (index object key : Eval ν Value) := by
  cases object with
  | table id =>
      simp only [Script.index]
      split
      · exact pure _
      · exact entry id key
  | text t =>
      refine bind (fun _ _ => rfl) fun library => ?_
      cases library with
      | table id => exact entry id key
      | _ => exact pure _
  | _ => exact fault _

theorem indexOf [Reference ν] (e : Expr ν) (object key : Value) :
    ReadsOnly (indexOf e object key) := by
  unfold Script.indexOf
  split
  · exact fault _
  · exact index object key

theorem entryPlace (object key : Value) : ReadsOnly (entryPlace object key : Eval ν (Place ν)) := by
  cases object with
  | table id => exact (orFault _ _).bind fun _ => pure _
  | _ => exact fault _

end ReadsOnly

/-! ## Courses -/

/-- A relation between the machines before and after a computation that holds for all that an expression
    does by itself: to count and to note, and to make tables and functions. -/
structure Course (ν : Type) where
  Rel : Machine ν → Machine ν → Prop
  refl : ∀ m, Rel m m
  trans : ∀ {m m' m''}, Rel m m' → Rel m' m'' → Rel m m''
  counted : ∀ m nesting record, Rel m { m with nesting := nesting, record := record }
  newTable : ∀ m t, Rel m { m with tables := m.tables.push t }
  newClosure : ∀ m c, Rel m { m with closures := m.closures.push c }

namespace Course

variable (C : Course ν) (s : Setting)

/-- A computation that leads along a course. -/
def Keeps (x : Eval ν α) : Prop :=
  ∀ m, C.Rel m (machineAfter (x s m))

/-- Calling any value leads along a course. -/
def KeepsCalls (call : Caller ν) : Prop :=
  ∀ site f args, C.Keeps s (callValue call site f args)

variable {C s}

namespace Keeps

theorem reads {x : Eval ν α} (hx : ReadsOnly x) : C.Keeps s x := by
  intro m
  rw [hx s m]
  exact C.refl m

theorem pure (a : α) : C.Keeps s (pure a : Eval ν α) :=
  reads (ReadsOnly.pure a)

theorem bind {x : Eval ν α} {f : α → Eval ν β} (hx : C.Keeps s x) (hf : ∀ a, C.Keeps s (f a)) :
    C.Keeps s (x >>= f) := by
  intro m
  have hfirst := hx m
  rw [run_bind]
  generalize x s m = r at hfirst ⊢
  cases r with
  | ok a m' => exact C.trans hfirst (hf a m')
  | error f m' => exact hfirst

theorem around {before after : Machine ν → Machine ν} {x : Eval ν α} (hx : C.Keeps s x)
    (hbefore : ∀ m, C.Rel m (before m)) (hafter : ∀ m, C.Rel m (after m)) :
    C.Keeps s (around before after x) := by
  intro m
  have hinside := C.trans (hbefore m) (hx (before m))
  unfold Script.around
  generalize x s (before m) = r at hinside ⊢
  cases r <;> exact C.trans hinside (hafter _)

theorem rel_note (m : Machine ν) (e : Event) : C.Rel m (m.note e) := by
  unfold Machine.note
  split
  · exact C.refl m
  · exact C.counted m m.nesting _

theorem watched {region : Region} {x : Eval ν α} (hx : C.Keeps s x) :
    C.Keeps s (watched region x) :=
  hx.around (fun m => rel_note m _) fun m => rel_note m _

theorem nested {region : Region} {x : Eval ν α} (hx : C.Keeps s x) :
    C.Keeps s (nested region x) := by
  have hdeeper : C.Keeps s (deeper x) :=
    hx.around (fun m => C.counted m _ m.record) fun m => C.counted m _ m.record
  intro m
  unfold Script.nested
  split
  · exact C.refl m
  · exact hdeeper.watched m

theorem one {x : Eval ν Value} (hx : C.Keeps s x) : C.Keeps s (do Pure.pure [← x]) :=
  hx.bind fun _ => pure _

theorem single {x : Eval ν (List Value)} (hx : C.Keeps s x) : C.Keeps s (single x) :=
  nested (hx.bind fun _ => pure _)

theorem spread {isMulti : Bool} {x : Eval ν (List Value)} (hx : C.Keeps s x) :
    C.Keeps s (spread isMulti x) := by
  cases isMulti with
  | true => exact hx.watched
  | false => exact hx.single.one

end Keeps

end Course

/-! ## Calls in expressions -/

mutual

/-- Whether there is a call in an expression, outside of the bodies of functions. -/
def Expr.hasCall : Expr ν → Bool
  | .nil | .bool _ | .number _ | .text _ | .function _ | .name _ => false
  | .index object key => object.hasCall || key.hasCall
  | .call _ _ => true
  | .method _ _ _ => true
  | .table fields => hasCallFields fields
  | .unary _ operand => operand.hasCall
  | .binary _ left right => left.hasCall || right.hasCall
  | .paren inner => inner.hasCall

/-- Whether there is a call in a list of expressions. -/
def hasCallList : List (Expr ν) → Bool
  | [] => false
  | e :: es => e.hasCall || hasCallList es

/-- Whether there is a call in the entries of a table constructor. -/
def hasCallFields : List (Field ν) → Bool
  | [] => false
  | .named _ value :: fields => value.hasCall || hasCallFields fields
  | .keyed key value :: fields => key.hasCall || value.hasCall || hasCallFields fields
  | .item value :: fields => value.hasCall || hasCallFields fields

end

/-! ## The induction -/

section Syntax

variable [Reference ν] {C : Course ν} {s : Setting} {call : Caller ν}

mutual

/-- Evaluating an expression leads along a course, if calling functions does or if it calls none. -/
theorem Expr.results_keeps (env : Env) : (e : Expr ν) →
    (e.hasCall = true → C.KeepsCalls s call) → C.Keeps s (e.results call env)
  | .nil, _ | .bool _, _ | .number _, _ | .text _, _ => Course.Keeps.pure _
  | .function d, _ => Course.Keeps.one fun m => C.newClosure m ⟨d, env⟩
  | .name x, _ => Course.Keeps.one (.reads (ReadsOnly.readVariable env x))
  | .index object key, h => by
      simp only [Expr.hasCall, Bool.or_eq_true] at h
      simp only [Expr.results]
      refine (Expr.results_keeps env object fun h' => h (.inl h')).single.bind fun o => ?_
      refine (Expr.results_keeps env key fun h' => h (.inr h')).single.bind fun k => ?_
      exact Course.Keeps.one (.reads (ReadsOnly.indexOf object o k))
  | .call callee args, h => by
      have hcall := h rfl
      simp only [Expr.results]
      refine (Expr.results_keeps env callee fun _ => hcall).single.bind fun f => ?_
      refine (resultsOfAll_keeps env args fun _ => hcall).bind fun vs => ?_
      -- The parts need not be without calls, as the call itself asks for the same hypothesis.
      exact hcall _ f vs
  | .method object name args, h => by
      have hcall := h rfl
      simp only [Expr.results]
      refine (Expr.results_keeps env object fun _ => hcall).single.bind fun o => ?_
      refine (Course.Keeps.reads (ReadsOnly.index o _)).bind fun f => ?_
      refine (resultsOfAll_keeps env args fun _ => hcall).bind fun vs => ?_
      exact hcall _ f (o :: vs)
  | .table fields, h => by
      simp only [Expr.hasCall] at h
      simp only [Expr.results]
      refine (addFields_keeps env .empty 1 fields h).bind fun t => ?_
      exact Course.Keeps.one fun m => C.newTable m t
  | .unary op operand, h => by
      simp only [Expr.hasCall] at h
      simp only [Expr.results]
      exact (Expr.results_keeps env operand h).single.bind fun v => .one (.reads (ReadsOnly.askTables _))
  | .binary op left right, h => by
      simp only [Expr.hasCall, Bool.or_eq_true] at h
      have hl := (Expr.results_keeps env left fun h' => h (.inl h')).single
      have hr := (Expr.results_keeps env right fun h' => h (.inr h')).single
      -- After `and` and `or` the second operand may be left out, after the others it never is.
      cases op with
      | and =>
          simp only [Expr.results]
          refine hl.bind fun l => ?_
          split
          · exact hr.one
          · exact .pure _
      | or =>
          simp only [Expr.results]
          refine hl.bind fun l => ?_
          split
          · exact .pure _
          · exact hr.one
      | _ =>
          simp only [Expr.results]
          exact hl.bind fun l => hr.bind fun r => .one (.reads (ReadsOnly.orFault _ _))
  | .paren inner, h => by
      simp only [Expr.hasCall] at h
      simp only [Expr.results]
      exact (Expr.results_keeps env inner h).single.one

theorem resultsOfAll_keeps (env : Env) : (es : List (Expr ν)) →
    (hasCallList es = true → C.KeepsCalls s call) → C.Keeps s (resultsOfAll call env es)
  | [], _ => Course.Keeps.pure _
  | [e], h => by
      simp only [hasCallList, Bool.or_false] at h
      simp only [resultsOfAll]
      exact (Expr.results_keeps env e h).spread
  | e :: next :: es, h => by
      rw [hasCallList, Bool.or_eq_true] at h
      simp only [resultsOfAll]
      refine (Expr.results_keeps env e fun h' => h (.inl h')).single.bind fun v => ?_
      exact (resultsOfAll_keeps env (next :: es) fun h' => h (.inr h')).bind fun vs => .pure _

theorem addFields_keeps (env : Env) (t : Table) (n : Nat) : (fields : List (Field ν)) →
    (hasCallFields fields = true → C.KeepsCalls s call) →
    C.Keeps s (addFields call env t n fields)
  | [], _ => Course.Keeps.pure _
  | .named name value :: fields, h => by
      simp only [hasCallFields, Bool.or_eq_true] at h
      simp only [addFields]
      refine (Expr.results_keeps env value fun h' => h (.inl h')).single.bind fun v => ?_
      exact addFields_keeps env _ n fields fun h' => h (.inr h')
  | .keyed key value :: fields, h => by
      simp only [hasCallFields, Bool.or_eq_true] at h
      simp only [addFields]
      refine (Expr.results_keeps env key fun h' => h (.inl (.inl h'))).single.bind fun k => ?_
      refine (Course.Keeps.reads (ReadsOnly.orFault _ _)).bind fun k => ?_
      refine (Expr.results_keeps env value fun h' => h (.inl (.inr h'))).single.bind fun v => ?_
      exact addFields_keeps env _ n fields fun h' => h (.inr h')
  | .item value :: fields, h => by
      simp only [hasCallFields, Bool.or_eq_true] at h
      simp only [addFields]
      refine (Expr.results_keeps env value fun h' => h (.inl h')).spread.bind fun vs => ?_
      exact addFields_keeps env _ _ fields fun h' => h (.inr h')

end

theorem places_keeps (env : Env) (targets : List (Expr ν))
    (h : hasCallList targets = true → C.KeepsCalls s call) :
    C.Keeps s (places call env targets) := by
  induction targets with
  | nil => exact .pure _
  | cons target targets ih =>
      simp only [hasCallList, Bool.or_eq_true] at h
      have hrest := ih fun h' => h (.inr h')
      cases target with
      | name x =>
          simp only [places]
          exact hrest.bind fun ps => .pure _
      | index object key =>
          simp only [Expr.hasCall, Bool.or_eq_true] at h
          simp only [places]
          refine (Expr.results_keeps env object fun h' => h (.inl (.inl h'))).single.bind fun o => ?_
          refine (Expr.results_keeps env key fun h' => h (.inl (.inr h'))).single.bind fun k => ?_
          refine (Course.Keeps.reads (ReadsOnly.entryPlace o k)).bind fun p => ?_
          exact hrest.bind fun ps => .pure _
      | _ => exact .reads (ReadsOnly.fault _)

end Syntax

/-! ## Calls -/

namespace Course

variable {C : Course ν} {s : Setting}
  (hplain : ∀ {α : Type} {x y : Eval ν α}, Plain x y → C.Keeps s x)

include hplain

/-- Library functions lead along a course that plain steps lead along. -/
theorem Keeps.library (b : Builtin) (args : List Value) : C.Keeps s (callLibrary b args) := by
  have hshown : C.Keeps s (exposeAll (Library.shown b args)) :=
    exposeAll_of (μ := ν) (R := fun x _ => C.Keeps s x) (pure ()) (fun hx hf => bind hx hf)
      (fun _ m => rel_note m _) _
  refine hshown.bind fun _ m => ?_
  rw [run_callBuiltin]
  exact hplain (plain_libraryStep s.address b args) m

/-- Calling any value leads along such a course, if calling functions does. -/
theorem keepsCalls {call : Caller ν} (hcall : ∀ c args, C.Keeps s (call c args)) :
    C.KeepsCalls s call := by
  intro site f args
  cases f with
  | builtin b => exact Keeps.library hplain b args
  | function id =>
      intro m
      simp only [callValue]
      rw [run_closureAt_bind]
      cases m.closures[id.index]? with
      | none => exact Keeps.reads (ReadsOnly.fault _) m
      | some c => exact hcall c args m
  | _ => exact Keeps.reads (ReadsOnly.fault _)

end Course

end Script

end PixelEffects
