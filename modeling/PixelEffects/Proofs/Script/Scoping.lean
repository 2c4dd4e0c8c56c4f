import Mathlib.Data.List.Forall2
import PixelEffects.Proofs.Script.Congruence
import PixelEffects.Proofs.Script.Resolution

/-!
# Scoping

A machine that looks up names beside one that does not.

Two machines go through the same run, one with names and one with variables that were resolved. They
are equal but for the functions that they keep, whose syntax differs. What has to be known all along
is that the text still says the truth about the scopes: that a scope has declared what is visible at
some place in it, or if a function remembers it, that and the next few of the names that the text
says are coming.

Which names a scope is going to declare is settled when it is opened, as a block is always run from
its beginning. So every scope has a list of names that never changes, its plan, and at each moment
it has declared a first part of it. That is the invariant (`Matches`), and it only has to be
extended when a scope is opened. Evaluation declares names in no scope that exists already, except
that a statement does in the scope that it is in (`Frame`).

## Main definitions

* `Plan`: What each scope declares in the end.
* `Describes`: The text says the truth about scopes.
* `Linked`, `Matches`: Functions and machines that stand for each other.
* `Frame`: Scopes that exist already have declared nothing since.
* `Joint`, `Together`: Outcomes and runs that stand for each other.
* `Agree`: Computations that run together wherever the text says the truth.
* `resolutionCongruence`: What evaluation is made of agrees.

## Theorems

* `slot?_resolve`: A name that settles is found where its resolution says.
* `Agree.opened`: A scope is opened with a plan.
* `agree_readVariable`, `agree_writeVariable`: Variables.
-/

namespace PixelEffects

namespace Script

variable {α β γ δ σ : Type}

/-! ## Scopes and what the text says of them -/

/-- The names that each scope declares in the end, in order. -/
abbrev Plan := Nat → List String

/-- The names that a scope has declared. -/
def namesAt (names : Array (List String)) (id : ScopeId) : List String :=
  names.getD id.index []

theorem namesAt_declaredNames (scopes : Array Scope) (id : ScopeId) :
    namesAt (declaredNames scopes) id = (scopeAt scopes id).names := by
  unfold namesAt declaredNames scopeAt
  rw [Array.getD_eq_getD_getElem?, Array.getD_eq_getD_getElem?, Array.getElem?_map]
  cases scopes[id.index]? <;> rfl

/-- The text says the truth about a scope: what is visible has been declared, and the rest of the plan
    is coming. Unless the scope is captured, nothing else has been declared. -/
structure TextScope.Describes (plan : Plan) (names : Array (List String)) (s : TextScope)
    (id : ScopeId) : Prop where
  inside : id.index < names.size
  planned : s.visible.reverse ++ s.coming = plan id.index
  declared : s.visible <:+ namesAt names id
  current : s.captured = false → namesAt names id = s.visible

/-- The text says the truth about the scopes of an environment. -/
def Describes (plan : Plan) (names : Array (List String)) (text : TextEnv) (env : Env) : Prop :=
  List.Forall₂ (TextScope.Describes plan names) text env

theorem describes_inside {plan : Plan} {names : Array (List String)} {text : TextEnv} {env : Env}
    (h : Describes plan names text env) {id : ScopeId} (hid : id ∈ env) : id.index < names.size := by
  induction h with
  | nil => cases hid
  | cons hs _ ih =>
      rcases List.mem_cons.mp hid with rfl | hid
      · exact hs.inside
      · exact ih hid

/-- Every scope has declared a first part of its plan. -/
def Planned (plan : Plan) (names : Array (List String)) : Prop :=
  ∀ id : ScopeId, id.index < names.size → (namesAt names id).reverse <+: plan id.index

/-- A scope has declared what is visible, and after it only names that the text says are coming to a
    captured scope. -/
theorem TextScope.Describes.names_eq {plan : Plan} {names : Array (List String)} {s : TextScope}
    {id : ScopeId} (h : s.Describes plan names id) (hplanned : Planned plan names) :
    ∃ newer, namesAt names id = newer ++ s.visible ∧
      ∀ x ∈ newer, s.captured = true ∧ x ∈ s.coming := by
  rcases h.declared with ⟨newer, hnewer⟩
  refine ⟨newer, hnewer.symm, fun x hx => ?_⟩
  -- If the scope is not captured, it has declared what is visible and nothing else.
  have hcaptured : s.captured = true := by
    by_contra hfree
    have hcurrent := h.current (Bool.eq_false_iff.mpr hfree)
    rw [← hnewer] at hcurrent
    rw [List.append_left_eq_self.mp hcurrent] at hx
    cases hx
  refine ⟨hcaptured, ?_⟩
  -- Behind what is visible the plan has what is coming, and what was declared begins it.
  have hprefix := hplanned id h.inside
  rw [← hnewer, ← h.planned, List.reverse_append, List.prefix_append_right_inj] at hprefix
  exact hprefix.subset (List.mem_reverse.mpr hx)

/-- A name is found in a scope where it stands among the names. -/
theorem findIdx?_names (scope : Scope) (name : String) :
    scope.findIdx? (·.1 == name) = scope.names.findIdx? (· == name) := by
  unfold Scope.names
  rw [List.findIdx?_map]
  rfl

/-- A name that settles is found where its resolution says. The induction is on the scopes outward: in
    each, the names that were declared behind the place are other names. -/
theorem slot?_resolve {plan : Plan} {scopes : Array Scope} {text : TextEnv} {env : Env}
    (h : Describes plan (declaredNames scopes) text env)
    (hplanned : Planned plan (declaredNames scopes)) {name : String}
    (hsettles : text.settles name = true) :
    Reference.slot? scopes env (text.resolve name) = Env.slot? scopes env name := by
  induction h with
  | nil => rfl
  | @cons s id text env hs _ ih =>
      simp only [TextEnv.settles, Bool.and_eq_true, Bool.not_eq_true', Bool.and_eq_false_iff,
        Bool.or_eq_true, List.contains_iff_mem] at hsettles
      rcases hs.names_eq hplanned with ⟨newer, hnames, hcoming⟩
      rw [namesAt_declaredNames] at hnames
      -- What has been declared since is coming to a captured scope, so it is not this name.
      have hother : newer.findIdx? (· == name) = none := by
        refine List.findIdx?_eq_none_iff.mpr fun x hx => ?_
        rcases hcoming x hx with ⟨hcaptured, hmem⟩
        rw [beq_eq_false_iff_ne]
        rintro rfl
        rcases hsettles.1 with hfree | habsent
        · rw [hfree] at hcaptured
          cases hcaptured
        · rw [List.contains_iff_mem.mpr hmem] at habsent
          cases habsent
      -- So the search passes over it, and goes on as in the text.
      have hfind : (scopeAt scopes id).findIdx? (·.1 == name) =
          (s.visible.findIdx? (· == name)).map (· + newer.length) := by
        rw [findIdx?_names, hnames, List.findIdx?_append, hother, Option.none_or]
      rw [Env.slot?, hfind]
      cases hvisible : s.visible.findIdx? (· == name) with
      | some position =>
          -- The text numbers declarations from the first one, the scope from the last one.
          have hlength : (scopeAt scopes id).length = newer.length + s.visible.length := by
            rw [← List.length_append, ← hnames, Scope.names, List.length_map]
          have hposition : position < s.visible.length :=
            (List.findIdx?_eq_some_iff_getElem.mp hvisible).1
          simp only [Reference.slot?, TextEnv.resolve, TextEnv.find?, hvisible,
            List.getElem?_cons_zero, Option.map_some, hlength]
          refine congrArg some (congrArg (Slot.mk id) ?_)
          omega
      | none =>
          -- A name that is not visible here must settle further out.
          have hrest : TextEnv.settles text name = true := by
            rcases hsettles.2 with hmem | hrest
            · rw [List.findIdx?_eq_none_iff] at hvisible
              have hne := hvisible name hmem
              rw [beq_self_eq_true] at hne
              cases hne
            · exact hrest
          rw [Option.map_none]
          dsimp only
          rw [← ih hrest]
          simp only [Reference.slot?, TextEnv.resolve, TextEnv.find?, hvisible]
          cases TextEnv.find? text name <;> rfl

/-! ## Machines -/

/-- The same machine with other functions. -/
def Machine.withClosures {ν μ : Type} (m : Machine ν) (closures : Array (Closure μ)) : Machine μ where
  tables := m.tables
  closures := closures
  scopes := m.scopes
  steps := m.steps
  depth := m.depth
  nesting := m.nesting
  chunk := m.chunk
  line := m.line
  record := m.record

/-- A function and its resolution at the place where it was made. It remembers scopes of which the
    text says the truth, and all its names settle. -/
def Linked (plan : Plan) (names : Array (List String)) (c : Closure) (c' : Closure Var) : Prop :=
  c'.env = c.env ∧ ∃ text : TextEnv, c'.definition = c.definition.resolve text.captured ∧
    c.definition.settled text.captured = true ∧ Describes plan names text.captured c.env

/-- A machine with its functions resolved. -/
structure Matches (plan : Plan) (m : Machine) (closures : Array (Closure Var)) : Prop where
  planned : Planned plan (declaredNames m.scopes)
  size : closures.size = m.closures.size
  linked : ∀ (i : Nat) (c : Closure) (c' : Closure Var), m.closures[i]? = some c →
    closures[i]? = some c' → Linked plan (declaredNames m.scopes) c c'

/-- Only what scopes have declared and what functions there are matters. -/
theorem Matches.unchanged {plan : Plan} {m m' : Machine} {closures : Array (Closure Var)}
    (h : Matches plan m closures) (hnames : declaredNames m'.scopes = declaredNames m.scopes)
    (hclosures : m'.closures = m.closures) : Matches plan m' closures := by
  refine ⟨?_, ?_, ?_⟩
  · rw [hnames]
    exact h.planned
  · rw [hclosures]
    exact h.size
  · rw [hnames, hclosures]
    exact h.linked

/-- A place has no function, or a function and its resolution. -/
theorem Matches.lookup {plan : Plan} {m : Machine} {closures : Array (Closure Var)}
    (h : Matches plan m closures) (i : Nat) :
    (m.closures[i]? = none ∧ closures[i]? = none) ∨
      ∃ c c', m.closures[i]? = some c ∧ closures[i]? = some c' ∧
        Linked plan (declaredNames m.scopes) c c' := by
  by_cases hi : i < m.closures.size
  · have hi' : i < closures.size := by rw [h.size]; exact hi
    have hc := Array.getElem?_eq_getElem hi
    have hc' := Array.getElem?_eq_getElem hi'
    exact Or.inr ⟨_, _, hc, hc', h.linked i _ _ hc hc'⟩
  · refine Or.inl ⟨Array.getElem?_eq_none (Nat.le_of_not_lt hi), Array.getElem?_eq_none ?_⟩
    rw [h.size]
    exact Nat.le_of_not_lt hi

/-- What has been declared since an earlier moment: only new scopes, and perhaps one that was there,
    have declared anything, and the plans of the scopes that were there are the same. -/
structure Frame (active : Option ScopeId) (plan : Plan) (names : Array (List String))
    (plan' : Plan) (names' : Array (List String)) : Prop where
  grows : names.size ≤ names'.size
  plans : ∀ i, i < names.size → plan' i = plan i
  same : ∀ id : ScopeId, id.index < names.size → some id ≠ active →
    namesAt names' id = namesAt names id

namespace Frame

variable {active : Option ScopeId} {plan plan' plan'' : Plan}
  {names names' names'' : Array (List String)}

theorem refl (active : Option ScopeId) (plan : Plan) (names : Array (List String)) :
    Frame active plan names plan names :=
  ⟨Nat.le_refl _, fun _ _ => rfl, fun _ _ _ => rfl⟩

theorem trans (h : Frame active plan names plan' names')
    (h' : Frame active plan' names' plan'' names'') : Frame active plan names plan'' names'' := by
  refine ⟨Nat.le_trans h.grows h'.grows, fun i hi => ?_, fun id hid hne => ?_⟩
  · rw [h'.plans i (Nat.lt_of_lt_of_le hi h.grows), h.plans i hi]
  · rw [h'.same id (Nat.lt_of_lt_of_le hid h.grows) hne, h.same id hid hne]

/-- If nothing has declared anything, it does not matter which scope was allowed to. -/
theorem weaken (h : Frame none plan names plan' names') : Frame active plan names plan' names' :=
  ⟨h.grows, h.plans, fun id hid _ => h.same id hid (Option.some_ne_none id)⟩

/-- A scope that is new does not count. -/
theorem old {id : ScopeId} (h : Frame (some id) plan names plan' names')
    (hnew : names.size ≤ id.index) : Frame none plan names plan' names' := by
  refine ⟨h.grows, h.plans, fun other hother _ => h.same other hother ?_⟩
  rintro ⟨⟩
  omega

/-- The text still says the truth about the scopes that have declared nothing. -/
theorem describes (h : Frame active plan names plan' names') {text : TextEnv} {env : Env}
    (hd : Describes plan names text env) (hactive : ∀ id ∈ env, some id ≠ active) :
    Describes plan' names' text env := by
  induction hd with
  | nil => exact .nil
  | @cons s id text env hs _ ih =>
      refine .cons ?_ (ih fun other hother => hactive other (List.mem_cons_of_mem _ hother))
      have hsame := h.same id hs.inside (hactive id List.mem_cons_self)
      refine ⟨Nat.lt_of_lt_of_le hs.inside h.grows, ?_, ?_, fun hfree => ?_⟩
      · rw [h.plans id.index hs.inside, hs.planned]
      · rw [hsame]
        exact hs.declared
      · rw [hsame]
        exact hs.current hfree

end Frame

/-- Functions stay linked while the scopes that they remember go on to declare names, as what they
    remember is captured. -/
theorem Linked.later {plan plan' : Plan} {names names' : Array (List String)} {c : Closure}
    {c' : Closure Var} (hgrows : names.size ≤ names'.size)
    (hplans : ∀ i, i < names.size → plan' i = plan i)
    (hnames : ∀ id : ScopeId, id.index < names.size → namesAt names id <:+ namesAt names' id)
    (h : Linked plan names c c') : Linked plan' names' c c' := by
  rcases h with ⟨henv, text, hresolve, hsettled, hdescribes⟩
  refine ⟨henv, text, hresolve, hsettled, ?_⟩
  -- All scopes that a function remembers are captured.
  have hcaptured : ∀ s ∈ text.captured, s.captured = true := by
    intro s hs
    rcases List.mem_map.mp hs with ⟨s', _, rfl⟩
    rfl
  revert hcaptured hdescribes
  generalize text.captured = text', c.env = env
  intro hdescribes hcaptured
  induction hdescribes with
  | nil => exact .nil
  | @cons s id text env hs _ ih =>
      refine .cons ⟨Nat.lt_of_lt_of_le hs.inside hgrows, ?_, ?_, fun hfree => ?_⟩
        (ih fun other hother => hcaptured other (List.mem_cons_of_mem _ hother))
      · rw [hplans id.index hs.inside, hs.planned]
      · exact hs.declared.trans (hnames id hs.inside)
      · rw [hcaptured s List.mem_cons_self] at hfree
        cases hfree

/-! ## Runs -/

/-- Outcomes of two runs from machines that match. If they are results, they stand for each other,
    and no scope that was there has declared anything, with one exception. -/
inductive Joint (active : Option ScopeId) (plan : Plan) (names : Array (List String))
    (post : α → β → Plan → Array (List String) → Prop) :
    EStateM.Result Fault Machine α → EStateM.Result Fault (Machine Var) β → Prop
  | ended {a : α} {b : β} {plan' : Plan} {m : Machine} {closures : Array (Closure Var)}
      (hmatches : Matches plan' m closures)
      (hframe : Frame active plan names plan' (declaredNames m.scopes))
      (hpost : post a b plan' (declaredNames m.scopes)) :
      Joint active plan names post (.ok a m) (.ok b (m.withClosures closures))
  | failed {f : Fault} {plan' : Plan} {m : Machine} {closures : Array (Closure Var)}
      (hmatches : Matches plan' m closures) :
      Joint active plan names post (.error f m) (.error f (m.withClosures closures))

/-- Two computations with such outcomes, from a machine with its functions and with their
    resolutions. -/
def Together (active : Option ScopeId) (plan : Plan) (m : Machine) (closures : Array (Closure Var))
    (post : α → β → Plan → Array (List String) → Prop) (x : Eval String α) (y : Eval Var β) : Prop :=
  ∀ s, Joint active plan (declaredNames m.scopes) post (x s m) (y s (m.withClosures closures))

namespace Together

variable {active : Option ScopeId} {plan : Plan} {m : Machine} {closures : Array (Closure Var)}
  {post : α → β → Plan → Array (List String) → Prop}

/-- One run after another, of which the first declares no more than both together may. -/
theorem bind_of {first : Option ScopeId}
    (hfirst : ∀ {plan plan' : Plan} {names names' : Array (List String)},
      Frame first plan names plan' names' → Frame active plan names plan' names')
    {post' : γ → δ → Plan → Array (List String) → Prop} {x : Eval String α} {y : Eval Var β}
    {f : α → Eval String γ} {g : β → Eval Var δ} (hx : Together first plan m closures post x y)
    (hf : ∀ a b plan' m' closures', Matches plan' m' closures' →
      Frame first plan (declaredNames m.scopes) plan' (declaredNames m'.scopes) →
      post a b plan' (declaredNames m'.scopes) →
      Together active plan' m' closures' post' (f a) (g b)) :
    Together active plan m closures post' (x >>= f) (y >>= g) := by
  intro s
  have h := hx s
  rw [run_bind, run_bind]
  generalize x s m = u, y s (m.withClosures closures) = v at h
  cases h with
  | failed hmatches => exact .failed hmatches
  | @ended a b plan' m' closures' hmatches hframe hpost =>
      -- The second run begins where the first one ended, and what both declared adds up.
      have h' := hf a b plan' m' closures' hmatches hframe hpost s
      dsimp only
      generalize f a s m' = u', g b s (m'.withClosures closures') = v' at h'
      cases h' with
      | failed hmatches => exact .failed hmatches
      | ended hmatches' hframe' hpost' =>
          exact .ended hmatches' ((hfirst hframe).trans hframe') hpost'

theorem bind {post' : γ → δ → Plan → Array (List String) → Prop} {x : Eval String α}
    {y : Eval Var β} {f : α → Eval String γ} {g : β → Eval Var δ}
    (hx : Together active plan m closures post x y)
    (hf : ∀ a b plan' m' closures', Matches plan' m' closures' →
      Frame active plan (declaredNames m.scopes) plan' (declaredNames m'.scopes) →
      post a b plan' (declaredNames m'.scopes) →
      Together active plan' m' closures' post' (f a) (g b)) :
    Together active plan m closures post' (x >>= f) (y >>= g) :=
  bind_of (fun h => h) hx hf

/-- A run after one that has declared nothing. -/
theorem andThen {post' : γ → δ → Plan → Array (List String) → Prop} {x : Eval String α}
    {y : Eval Var β} {f : α → Eval String γ} {g : β → Eval Var δ}
    (hx : Together none plan m closures post x y)
    (hf : ∀ a b plan' m' closures', Matches plan' m' closures' →
      Frame none plan (declaredNames m.scopes) plan' (declaredNames m'.scopes) →
      post a b plan' (declaredNames m'.scopes) →
      Together active plan' m' closures' post' (f a) (g b)) :
    Together active plan m closures post' (x >>= f) (y >>= g) :=
  bind_of Frame.weaken hx hf

theorem pure {a : α} {b : β} (hmatches : Matches plan m closures)
    (hpost : post a b plan (declaredNames m.scopes)) :
    Together active plan m closures post (Pure.pure a) (Pure.pure b) :=
  fun _ => .ended hmatches (Frame.refl _ _ _) hpost

theorem imp {post' : α → β → Plan → Array (List String) → Prop} {x : Eval String α} {y : Eval Var β}
    (hx : Together active plan m closures post x y)
    (hpost : ∀ a b plan' names', post a b plan' names' → post' a b plan' names') :
    Together active plan m closures post' x y := by
  intro s
  have h := hx s
  generalize x s m = u, y s (m.withClosures closures) = v at h
  cases h with
  | failed hmatches => exact .failed hmatches
  | ended hmatches hframe h => exact .ended hmatches hframe (hpost _ _ _ _ h)

/-- A scope that declares nothing may be one that is allowed to. -/
theorem weaken {x : Eval String α} {y : Eval Var β} (hx : Together none plan m closures post x y) :
    Together active plan m closures post x y := by
  intro s
  have h := hx s
  generalize x s m = u, y s (m.withClosures closures) = v at h
  cases h with
  | failed hmatches => exact .failed hmatches
  | ended hmatches hframe h => exact .ended hmatches hframe.weaken h

/-- Changes before and after that leave the scopes and the functions alone. -/
theorem around {before after : Machine → Machine} {before' after' : Machine Var → Machine Var}
    (hbefore : before' (m.withClosures closures) = (before m).withClosures closures)
    (hscopes : (before m).scopes = m.scopes)
    (hafter : ∀ m closures, after' (m.withClosures closures) = (after m).withClosures closures)
    (hscopes' : ∀ m, (after m).scopes = m.scopes) (hclosures' : ∀ m, (after m).closures = m.closures)
    {x : Eval String α} {y : Eval Var β}
    (hx : Together active plan (before m) closures post x y) :
    Together active plan m closures post (around before after x) (Script.around before' after' y) := by
  intro s
  have h := hx s
  unfold Script.around
  rw [hbefore]
  rw [hscopes] at h
  generalize x s (before m) = u, y s ((before m).withClosures closures) = v at h
  -- The change after the run leaves machines matching, whatever the run ended with.
  have hkeep : ∀ {plan : Plan} {m : Machine} {closures : Array (Closure Var)},
      Matches plan m closures → Matches plan (after m) closures :=
    fun {_ m _} h => h.unchanged (by rw [hscopes']) (hclosures' m)
  cases h with
  | @failed f plan' m' closures' hmatches =>
      dsimp only
      rw [hafter]
      exact .failed (hkeep hmatches)
  | @ended a b plan' m' closures' hmatches hframe hpost =>
      dsimp only
      rw [hafter]
      refine .ended (hkeep hmatches) ?_ ?_
      · rw [hscopes']
        exact hframe
      · rw [hscopes']
        exact hpost

theorem note_withClosures (m : Machine) (closures : Array (Closure Var)) (e : Event) :
    (m.withClosures closures).note e = (m.note e).withClosures closures := by
  rcases m with ⟨tables, cs, scopes, steps, depth, nesting, chunk, line, _ | events⟩ <;> rfl

theorem note_stores (m : Machine) (e : Event) :
    (m.note e).scopes = m.scopes ∧ (m.note e).closures = m.closures := by
  unfold Machine.note
  split <;> exact ⟨rfl, rfl⟩

theorem watched {region : Region} {x : Eval String α} {y : Eval Var β}
    (hx : Together active plan (m.note (.enter region)) closures post x y) :
    Together active plan m closures post (watched region x) (Script.watched region y) :=
  around (note_withClosures m closures _) (note_stores m _).1
    (fun m closures => note_withClosures m closures _) (fun m => (note_stores m _).1)
    (fun m => (note_stores m _).2) hx

end Together

/-- Two computations that run together from wherever the text says the truth, with results that
    stand for each other, and that declare nothing in any scope that was there. -/
def AgreeUpTo (R : α → β → Prop) (text : TextEnv) (env : Env) (x : Eval String α)
    (y : Eval Var β) : Prop :=
  ∀ plan m closures, Matches plan m closures → Describes plan (declaredNames m.scopes) text env →
    Together none plan m closures (fun a b _ _ => R a b) x y

/-- Two computations that run together and have the same results. -/
abbrev Agree (text : TextEnv) (env : Env) (x : Eval String α) (y : Eval Var α) : Prop :=
  AgreeUpTo Eq text env x y

theorem AgreeUpTo.bind {R : α → β → Prop} {S : γ → δ → Prop} {text : TextEnv} {env : Env}
    {x : Eval String α} {y : Eval Var β} {f : α → Eval String γ} {g : β → Eval Var δ}
    (hx : AgreeUpTo R text env x y) (hf : ∀ a b, R a b → AgreeUpTo S text env (f a) (g b)) :
    AgreeUpTo S text env (x >>= f) (y >>= g) := by
  intro plan m closures hmatches hd
  refine (hx plan m closures hmatches hd).bind fun a b plan' m' closures' hmatches' hframe hab => ?_
  exact hf a b hab plan' m' closures' hmatches' (hframe.describes hd fun _ _ => Option.some_ne_none _)

theorem AgreeUpTo.pure {R : α → β → Prop} {text : TextEnv} {env : Env} {a : α} {b : β} (h : R a b) :
    AgreeUpTo R text env (Pure.pure a) (Pure.pure b) :=
  fun _ _ _ hmatches _ => Together.pure hmatches h

theorem AgreeUpTo.fault {R : α → β → Prop} {text : TextEnv} {env : Env} (c : Cause) :
    AgreeUpTo R text env (fault c) (Script.fault c) :=
  fun _ _ _ hmatches _ _ => .failed hmatches

namespace Agree

variable {text : TextEnv} {env : Env}

theorem bind {x : Eval String α} {y : Eval Var α} {f : α → Eval String β} {g : α → Eval Var β}
    (hx : Agree text env x y) (hf : ∀ a, Agree text env (f a) (g a)) :
    Agree text env (x >>= f) (y >>= g) :=
  AgreeUpTo.bind hx fun a _ hab => hab ▸ hf a

/-- A run from matching machines to matching machines that declares nothing. -/
theorem of_run {x : Eval String α} {y : Eval Var α}
    (h : ∀ plan s m closures, Matches plan m closures →
      Describes plan (declaredNames m.scopes) text env →
      ∃ m' : Machine, declaredNames m'.scopes = declaredNames m.scopes ∧
        m'.closures = m.closures ∧
        ((∃ a, x s m = .ok a m' ∧ y s (m.withClosures closures) = .ok a (m'.withClosures closures)) ∨
          ∃ f, x s m = .error f m' ∧
            y s (m.withClosures closures) = .error f (m'.withClosures closures))) :
    Agree text env x y := by
  intro plan m closures hmatches hd s
  rcases h plan s m closures hmatches hd with ⟨m', hnames, hclosures, ⟨a, hx, hy⟩ | ⟨f, hx, hy⟩⟩
  · rw [hx, hy]
    refine .ended (hmatches.unchanged hnames hclosures) ?_ rfl
    rw [hnames]
    exact Frame.refl _ _ _
  · rw [hx, hy]
    exact .failed (hmatches.unchanged hnames hclosures)

theorem plain {x : Eval String α} {y : Eval Var α} (hx : Plain x y) : Agree text env x y := by
  rcases hx with ⟨g, hg, rfl, rfl⟩
  refine of_run fun plan s m closures _ _ => ?_
  have hnames := hg.names m.tables m.scopes
  refine ⟨{ m with
    tables := (g m.tables m.scopes).2.1
    scopes := (g m.tables m.scopes).2.2 }, hnames, rfl, ?_⟩
  simp only [StoreStep.toEval, Machine.withClosures]
  rcases g m.tables m.scopes with ⟨c | a, t, sc⟩
  · exact Or.inr ⟨_, rfl, rfl⟩
  · exact Or.inl ⟨_, rfl, rfl⟩

theorem tick : Agree text env (tick : Eval String Unit) (tick : Eval Var Unit) := by
  refine of_run fun plan s m closures _ _ => ⟨{ m with steps := m.steps + 1 }, rfl, rfl, ?_⟩
  unfold Script.tick Machine.withClosures
  dsimp only
  by_cases h : m.steps + 1 > s.limits.maxSteps
  · rw [if_pos h, if_pos h]
    exact Or.inr ⟨_, rfl, rfl⟩
  · rw [if_neg h, if_neg h]
    exact Or.inl ⟨_, rfl, rfl⟩

theorem atLine (line : Nat) :
    Agree text env (atLine line : Eval String Unit) (Script.atLine line : Eval Var Unit) :=
  of_run fun _ _ m _ _ _ => ⟨{ m with line := line }, rfl, rfl, Or.inl ⟨(), rfl, rfl⟩⟩

theorem noting (e : Event) :
    Agree text env (fun _ m => .ok () (m.note e) : Eval String Unit)
      (fun _ m => .ok () (m.note e) : Eval Var Unit) := by
  refine of_run fun _ _ m closures _ _ => ⟨m.note e, ?_, ?_, Or.inl ⟨(), rfl, ?_⟩⟩
  · rw [(Together.note_stores m _).1]
  · exact (Together.note_stores m _).2
  · exact congrArg (EStateM.Result.ok ()) (Together.note_withClosures m closures _)

theorem mark (p : Progress) :
    Agree text env (mark p : Eval String Unit) (Script.mark p : Eval Var Unit) :=
  noting _

theorem library (b : Builtin) (args : List Value) :
    Agree text env (callLibrary b args : Eval String (List Value))
      (callLibrary b args : Eval Var (List Value)) := by
  have hshown : Agree text env (exposeAll (Library.shown b args) : Eval String Unit)
      (exposeAll (Library.shown b args) : Eval Var Unit) :=
    exposeAll_of (plain (Plain.pure ())) (fun hx hf => bind hx hf) (fun r => noting (.shown r)) _
  refine bind hshown fun _ plan m closures hmatches hd s => ?_
  rw [run_callBuiltin, run_callBuiltin]
  exact plain (plain_libraryStep s.address b args) plan m closures hmatches hd s

theorem watched {region : Region} {x : Eval String α} {y : Eval Var α} (hx : Agree text env x y) :
    Agree text env (watched region x) (Script.watched region y) := by
  intro plan m closures hmatches hd
  have hstores := Together.note_stores m (.enter region)
  refine Together.watched (hx plan _ closures (hmatches.unchanged ?_ hstores.2) ?_)
  · rw [hstores.1]
  · rw [hstores.1]
    exact hd

theorem nested {region : Region} {x : Eval String α} {y : Eval Var α} (hx : Agree text env x y) :
    Agree text env (nested region x) (Script.nested region y) := by
  have hdeeper : Agree text env (deeper x) (deeper y) := by
    intro plan m closures hmatches hd
    have hbody := hx plan { m with nesting := m.nesting + 1 } closures
      (hmatches.unchanged rfl rfl) hd
    unfold deeper
    apply Together.around
    · rfl
    · rfl
    · exact fun _ _ => rfl
    · exact fun _ => rfl
    · exact fun _ => rfl
    · exact hbody
  intro plan m closures hmatches hd s
  unfold Script.nested
  have hsame : (m.withClosures closures).nesting = m.nesting := rfl
  by_cases hfull : m.nesting ≥ maxNesting
  · rw [hsame, if_pos hfull, if_pos hfull]
    exact .failed hmatches
  · rw [hsame, if_neg hfull, if_neg hfull]
    exact hdeeper.watched plan m closures hmatches hd s

theorem framed {chunk : String} {line : Nat} {x : Eval String α} {y : Eval Var α}
    (hx : Agree text env x y) :
    Agree text env (framed chunk line x) (Script.framed chunk line y) := by
  intro plan m closures hmatches hd s
  have hcallee := hx plan { m with depth := m.depth + 1, chunk := chunk, line := line } closures
    (hmatches.unchanged rfl rfl) hd s
  unfold Script.framed
  have hdepth : (m.withClosures closures).depth = m.depth := rfl
  have hstart : ({ m.withClosures closures with
      depth := m.depth + 1, chunk := chunk, line := line } : Machine Var) =
    Machine.withClosures { m with depth := m.depth + 1, chunk := chunk, line := line } closures := rfl
  dsimp only
  rw [hdepth]
  by_cases hfull : m.depth ≥ s.limits.maxCallDepth
  · rw [if_pos hfull, if_pos hfull]
    exact .failed hmatches
  · rw [if_neg hfull, if_neg hfull, hstart]
    generalize x s { m with depth := m.depth + 1, chunk := chunk, line := line } = u,
      y s (Machine.withClosures { m with depth := m.depth + 1, chunk := chunk, line := line }
        closures) = v at hcallee
    cases hcallee with
    | @failed f plan' m' closures' hmatches' =>
        exact .failed (m := { m' with depth := m'.depth - 1, chunk := m.chunk, line := m.line })
          (hmatches'.unchanged rfl rfl)
    | @ended a b plan' m' closures' hmatches' hframe hab =>
        exact .ended (m := { m' with depth := m'.depth - 1, chunk := m.chunk, line := m.line })
          (hmatches'.unchanged rfl rfl) hframe hab

theorem loop {round : σ → Eval String (Turn σ α)} {round' : σ → Eval Var (Turn σ α)}
    (hround : ∀ s, Agree text env (round s) (round' s)) (fuel : Nat) (state : σ) :
    Agree text env (loop round fuel state) (Script.loop round' fuel state) := by
  induction fuel generalizing state with
  | zero => exact of_run fun _ _ m _ _ _ => ⟨m, rfl, rfl, Or.inr ⟨_, rfl, rfl⟩⟩
  | succ fuel ih =>
      refine bind (hround state) fun turn => ?_
      cases turn with
      | again state => exact bind (mark .round) fun _ => ih state
      | done a => exact plain (Plain.pure a)

end Agree

/-- What evaluation is made of agrees, with names and with their resolutions. -/
def resolutionCongruence (text : TextEnv) (env : Env) : Congruence String Var where
  Rel _ x y := Agree text env x y
  RelRound _ x y := Agree text env x y
  mono _ h := h
  plain h := Agree.plain h
  library b args := Agree.library b args
  bind hx hf := Agree.bind hx hf
  takeStep := Agree.bind Agree.tick fun _ => Agree.mark .statement
  atLine line := Agree.atLine line
  nested _ hx := Agree.nested hx
  watched _ hx := Agree.watched hx
  rounds state hround := fun plan m closures hmatches hd s =>
    Agree.loop hround (s.limits.maxSteps + 1) state plan m closures hmatches hd s
  roundDone _ := Agree.plain (Plain.pure _)
  roundAgain _ := Agree.bind Agree.tick fun _ => Agree.plain (Plain.pure _)
  roundBind hx hf := Agree.bind hx hf

/-! ## Variables, functions and scopes -/

section Stores

variable {text : TextEnv} {env : Env}

theorem agree_readVariable {name : String} (hsettles : text.settles name = true) :
    Agree text env (readVariable env name : Eval String Value)
      (readVariable env (text.resolve name) : Eval Var Value) := by
  refine Agree.of_run fun plan s m closures hmatches hd => ⟨m, rfl, rfl, Or.inl ⟨_, rfl, ?_⟩⟩
  -- The search by name ends at the slot of the resolution, so both read the same.
  have hslot := slot?_resolve hd hmatches.planned hsettles
  have hlookup : (m.withClosures closures).lookup env (text.resolve name) = m.lookup env name := by
    unfold Machine.lookup
    have hscopes : (m.withClosures closures).scopes = m.scopes := rfl
    rw [hscopes, hslot]
    rfl
  unfold readVariable
  rw [hlookup]

theorem agree_writeVariable {name : String} (hsettles : text.settles name = true) (v : Value) :
    Agree text env (writeVariable env name v : Eval String Unit)
      (writeVariable env (text.resolve name) v : Eval Var Unit) := by
  refine Agree.of_run fun plan s m closures hmatches hd =>
    ⟨m.assign env name v, ?_, ?_, Or.inl ⟨(), rfl, ?_⟩⟩
  · unfold Machine.assign
    split
    · exact declaredNames_store m.scopes _ v
    · rfl
  · unfold Machine.assign
    split <;> rfl
  · have hslot := slot?_resolve hd hmatches.planned hsettles
    have hassign : (m.withClosures closures).assign env (text.resolve name) v =
        (m.assign env name v).withClosures closures := by
      unfold Machine.assign
      have hscopes : (m.withClosures closures).scopes = m.scopes := rfl
      rw [hscopes, hslot]
      have hname : Reference.slot? m.scopes env name = Env.slot? m.scopes env name := rfl
      rw [hname]
      cases Env.slot? m.scopes env name <;> rfl
    unfold writeVariable
    rw [hassign]

/-- A function that is made and its resolution are linked from then on. -/
theorem agree_newClosure {definition : Function}
    (hsettled : definition.settled text.captured = true) :
    Agree text env (newClosure definition env)
      (newClosure (definition.resolve text.captured) env) := by
  intro plan m closures hmatches hd s
  -- Being captured, the scopes may go on to declare what is coming.
  have hcaptured : Describes plan (declaredNames m.scopes) text.captured env := by
    refine List.forall₂_map_left_iff.mpr (hd.imp fun s id h => ?_)
    exact ⟨h.inside, h.planned, h.declared, fun hfree => by cases hfree⟩
  have hlinked : Linked plan (declaredNames m.scopes) ⟨definition, env⟩
      ⟨definition.resolve text.captured, env⟩ := ⟨rfl, text, rfl, hsettled, hcaptured⟩
  have hpush : Matches plan { m with closures := m.closures.push ⟨definition, env⟩ }
      (closures.push ⟨definition.resolve text.captured, env⟩) := by
    refine ⟨hmatches.planned, ?_, fun i c c' hc hc' => ?_⟩
    · rw [Array.size_push, Array.size_push, hmatches.size]
    · rw [Array.getElem?_push] at hc hc'
      rw [hmatches.size] at hc'
      by_cases hi : i = m.closures.size
      · rw [if_pos hi] at hc hc'
        cases hc
        cases hc'
        exact hlinked
      · rw [if_neg hi] at hc hc'
        exact hmatches.linked i c c' hc hc'
  have hsize : (m.withClosures closures).closures.size = m.closures.size := hmatches.size
  unfold newClosure
  rw [hsize]
  exact .ended hpush (Frame.refl _ _ _) rfl

/-- The plans when a new scope is opened as the text has it. -/
def Plan.opened (plan : Plan) (size : Nat) (s : TextScope) : Plan :=
  Function.update plan size (s.visible.reverse ++ s.coming)

/-- The machine when a new scope is opened. -/
def Machine.opened (m : Machine) (scope : Scope) : Machine :=
  { m with scopes := m.scopes.push scope }

theorem size_declaredNames (scopes : Array Scope) : (declaredNames scopes).size = scopes.size :=
  Array.size_map ..

theorem namesAt_opened (m : Machine) (scope : Scope) :
    namesAt (declaredNames (m.opened scope).scopes) ⟨m.scopes.size⟩ = scope.names := by
  rw [namesAt_declaredNames, Machine.opened, scopeAt]
  simp only [Array.getD_eq_getD_getElem?, Array.getElem?_push_size, Option.getD_some]

/-- The scopes that were there when a new one is opened stay as they are. -/
theorem Frame.opened (plan : Plan) (m : Machine) (s : TextScope) (scope : Scope) :
    Frame none plan (declaredNames m.scopes) (plan.opened m.scopes.size s)
      (declaredNames (m.opened scope).scopes) := by
  refine ⟨?_, fun i hi => ?_, fun id hid _ => ?_⟩
  · rw [size_declaredNames, size_declaredNames, Machine.opened, Array.size_push]
    omega
  · rw [size_declaredNames] at hi
    exact Function.update_of_ne (Nat.ne_of_lt hi) _ _
  · rw [size_declaredNames] at hid
    rw [namesAt_declaredNames, namesAt_declaredNames, Machine.opened, scopeAt, scopeAt,
      Array.getD_eq_getD_getElem?, Array.getD_eq_getD_getElem?, Array.getElem?_push_lt hid,
      Array.getElem?_eq_getElem hid]

theorem Matches.opened {plan : Plan} {m : Machine} {closures : Array (Closure Var)} {s : TextScope}
    {scope : Scope} (hvisible : scope.names = s.visible) (h : Matches plan m closures) :
    Matches (plan.opened m.scopes.size s) (m.opened scope) closures := by
  have hframe := Frame.opened plan m s scope
  refine ⟨fun id hid => ?_, h.size, fun i c c' hc hc' => ?_⟩
  · by_cases hnew : id = ⟨m.scopes.size⟩
    · rw [hnew, namesAt_opened, hvisible, Plan.opened, Function.update_self]
      exact List.prefix_append _ _
    · -- Every other scope was there before and has the plan that it had.
      have hold : id.index < (declaredNames m.scopes).size := by
        have hne : id.index ≠ m.scopes.size := fun hindex => hnew (congrArg ScopeId.mk hindex)
        rw [size_declaredNames, Machine.opened, Array.size_push] at hid
        rw [size_declaredNames]
        omega
      rw [hframe.same id hold (Option.some_ne_none _), hframe.plans _ hold]
      exact h.planned id hold
  · refine (h.linked i c c' hc hc').later hframe.grows hframe.plans fun id hid => ?_
    exact ⟨[], (hframe.same id hid (Option.some_ne_none _)).symm⟩

theorem Describes.opened {plan : Plan} {m : Machine} {s : TextScope} {scope : Scope}
    (hvisible : scope.names = s.visible) (h : Describes plan (declaredNames m.scopes) text env) :
    Describes (plan.opened m.scopes.size s) (declaredNames (m.opened scope).scopes) (s :: text)
      (⟨m.scopes.size⟩ :: env) := by
  have hat : namesAt (declaredNames (m.opened scope).scopes) ⟨m.scopes.size⟩ = s.visible := by
    rw [namesAt_opened, hvisible]
  refine .cons ⟨?_, ?_, ?_, fun _ => hat⟩
    ((Frame.opened plan m s scope).describes h fun _ _ => Option.some_ne_none _)
  · rw [size_declaredNames, Machine.opened, Array.size_push]
    exact Nat.lt_succ_self _
  · rw [Plan.opened, Function.update_self]
  · exact ⟨[], hat.symm⟩

/-- A scope is opened with a plan, of which it has declared nothing or all. What is done in it then
    may declare the rest. -/
theorem Agree.opened {s : TextScope} {scope : Scope} (hvisible : scope.names = s.visible)
    {x : ScopeId → Eval String α} {y : ScopeId → Eval Var α}
    (h : ∀ id plan m closures, id ∉ env → Matches plan m closures →
      Describes plan (declaredNames m.scopes) (s :: text) (id :: env) →
      Together (some id) plan m closures (fun a b _ _ => a = b) (x id) (y id)) :
    Agree text env (newScope scope >>= x) (newScope scope >>= y) := by
  intro plan m closures hmatches hd r
  -- The new scope is none of those around it, since they were there before.
  have hfresh : (⟨m.scopes.size⟩ : ScopeId) ∉ env := by
    intro hmem
    have hinside := describes_inside hd hmem
    rw [size_declaredNames] at hinside
    exact Nat.lt_irrefl _ hinside
  have hrun := h ⟨m.scopes.size⟩ _ _ closures hfresh (hmatches.opened hvisible) (hd.opened hvisible) r
  rw [run_bind, run_bind]
  change Joint none plan (declaredNames m.scopes) (fun a b _ _ => a = b) (x ⟨m.scopes.size⟩ r (m.opened scope))
    (y ⟨m.scopes.size⟩ r ((m.opened scope).withClosures closures))
  generalize x ⟨m.scopes.size⟩ r (m.opened scope) = u,
    y ⟨m.scopes.size⟩ r ((m.opened scope).withClosures closures) = v at hrun
  cases hrun with
  | failed hmatches => exact .failed hmatches
  | ended hmatches hframe hab =>
      -- The new scope may have declared names, but it was not there before.
      refine .ended hmatches (((Frame.opened plan m s scope).weaken.trans hframe).old ?_) hab
      exact Nat.le_of_eq (size_declaredNames _)

end Stores

end Script

end PixelEffects
