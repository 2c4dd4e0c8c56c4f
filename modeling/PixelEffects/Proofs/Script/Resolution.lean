import PixelEffects.Script.Engine

/-!
# Resolution

Which declaration a name means, said by the text.

A script looks up names while it runs. In a language with lexical scoping there is another way: the
declaration that is visible where a name stands can be found in the text once and for all, and what
remains for the run is to go out a number of scopes and take a declaration by its number. `Var` is a
variable found in this way, and the resolution of a chunk is the same chunk with every name replaced.
It runs on the same machine, since a machine takes any kind of reference.

The two ways need not agree. A function remembers the scopes around it and not what they held, and
they go on to declare names. A name that the function does not declare itself then means something
else than it did where the function was made. `Chunk.settled` says that no name can: where a name
stands in a function, no scope that the function remembers declares it later on, as far out as the
name is looked up. The scopes that the text of the function itself opens do not count, because a run
that reaches the name has made their declarations up to there and no more.

## Main definitions

* `Var`: A variable by the place of its declaration.
* `TextScope`, `TextEnv`: What the text says of a scope and of those around it.
* `TextEnv.resolve`, `TextEnv.settles`: What a name means, and whether that can change.
* `Expr.resolve`, `Chunk.resolve` and others: Syntax with resolved names.
* `Expr.settled`, `Chunk.settled` and others: Syntax in which no name changes its meaning.
* `TextEnv.Becomes`: What may become of the scopes that a function remembers.

## Theorems

* `TextEnv.settles_iff`: A name settles exactly if it means the same whatever becomes of the scopes.
-/

namespace PixelEffects

namespace Script

/-- A variable with the place of its declaration: how many scopes out it is, and how many
    declarations of that scope come before it. A global has none. -/
structure Var where
  word : String
  place : Option (Nat × Nat)
deriving Repr, DecidableEq

/-- A resolved variable refers to the declaration at its place. -/
instance : Reference Var where
  word x := x.word
  slot? scopes env x :=
    match x.place with
    | none => none
    | some (hops, number) =>
      match env[hops]? with
      | none => none
      | some id => some ⟨id, (scopeAt scopes id).length - 1 - number⟩

/-- What the text says of a scope at some place: what it has declared, the latest first, and what it
    is going to declare, in order. It is captured when the place is in a function that is made while
    the scope goes on. -/
structure TextScope where
  visible : List String
  coming : List String
  captured : Bool
deriving Repr, DecidableEq

/-- The names that a statement declares in the scope that it is in. -/
def Stmt.declared {ν : Type} : Stmt ν → List String
  | .mk _ (.declare names _) => names
  | .mk _ (.declareFunction name _) => [name]
  | _ => []

/-- The names that the statements of a block declare, in order. -/
def declaredBy {ν : Type} (body : List (Stmt ν)) : List String :=
  body.flatMap Stmt.declared

namespace TextScope

/-- The scope of a block where the block begins. -/
def opened (body : List Stmt) : TextScope :=
  ⟨[], declaredBy body, false⟩

/-- A scope with all its declarations. -/
def complete (names : List String) : TextScope :=
  ⟨names.reverse, [], false⟩

/-- The scope behind the declaration of its next names. -/
def after (names : List String) (s : TextScope) : TextScope :=
  { s with visible := names.reverse ++ s.visible, coming := s.coming.drop names.length }

end TextScope

/-- What the text says of the scopes around a place, the innermost first. -/
abbrev TextEnv := List TextScope

namespace TextEnv

/-- The scopes around a place behind a declaration. -/
def after (names : List String) : TextEnv → TextEnv
  | [] => []
  | s :: outer => s.after names :: outer

/-- The scopes around a place, as a function remembers them. -/
def captured (env : TextEnv) : TextEnv :=
  env.map fun s => { s with captured := true }

/-- The place of the declaration that is visible: the latest one of the innermost scope that has
    one. -/
def find? (env : TextEnv) (name : String) : Option (Nat × Nat) :=
  match env with
  | [] => none
  | s :: outer =>
    match s.visible.findIdx? (· == name) with
    | some position => some (0, s.visible.length - 1 - position)
    | none => (find? outer name).map fun place => (place.1 + 1, place.2)

/-- What a name means. -/
def resolve (env : TextEnv) (name : String) : Var :=
  ⟨name, find? env name⟩

/-- Whether a name goes on to mean what it means: on the way out to its declaration, no captured scope
    is going to declare it. -/
def settles (env : TextEnv) (name : String) : Bool :=
  match env with
  | [] => true
  | s :: outer =>
    !(s.captured && s.coming.contains name) && (s.visible.contains name || settles outer name)

end TextEnv

/-! ## Resolving -/

mutual

/-- An expression with its names resolved. -/
def Expr.resolve (env : TextEnv) : Expr → Expr Var
  | .nil => .nil
  | .bool b => .bool b
  | .number x => .number x
  | .text s => .text s
  | .function definition => .function (definition.resolve env.captured)
  | .name x => .name (env.resolve x)
  | .index object key => .index (object.resolve env) (key.resolve env)
  | .call callee args => .call (callee.resolve env) (resolveList env args)
  | .method object name args => .method (object.resolve env) name (resolveList env args)
  | .table fields => .table (resolveFields env fields)
  | .unary op operand => .unary op (operand.resolve env)
  | .binary op left right => .binary op (left.resolve env) (right.resolve env)
  | .paren inner => .paren (inner.resolve env)

/-- Expressions with their names resolved. -/
def resolveList (env : TextEnv) : List Expr → List (Expr Var)
  | [] => []
  | e :: es => e.resolve env :: resolveList env es

/-- Entries of a table constructor with their names resolved. -/
def resolveFields (env : TextEnv) : List Field → List (Field Var)
  | [] => []
  | .named name value :: fields => .named name (value.resolve env) :: resolveFields env fields
  | .keyed key value :: fields =>
    .keyed (key.resolve env) (value.resolve env) :: resolveFields env fields
  | .item value :: fields => .item (value.resolve env) :: resolveFields env fields

/-- A function with its names resolved. Its parameters are one scope, its body is another. -/
def Function.resolve (env : TextEnv) : Function → Function Var
  | .mk name params body chunk line =>
    .mk name params (resolveBlock (.opened body :: .complete params :: env) body) chunk line

/-- Statements with their names resolved, each one behind the declarations of those before it. -/
def resolveBlock (env : TextEnv) : List Stmt → List (Stmt Var)
  | [] => []
  | s :: rest => s.resolve env :: resolveBlock (env.after s.declared) rest

/-- Conditions and their blocks with their names resolved. -/
def resolveArms (env : TextEnv) : List Arm → List (Arm Var)
  | [] => []
  | .mk condition body :: arms =>
    .mk (condition.resolve env) (resolveBlock (.opened body :: env) body) :: resolveArms env arms

/-- A statement with its names resolved. -/
def Stmt.resolve (env : TextEnv) : Stmt → Stmt Var
  | .mk line action => .mk line (action.resolve env)

/-- What a statement does, with its names resolved. A function that is declared by its name is
    visible in itself. The condition of a `repeat` sees what the body has declared. -/
def Action.resolve (env : TextEnv) : Action → Action Var
  | .declare names values => .declare names (resolveList env values)
  | .assign targets values => .assign (resolveList env targets) (resolveList env values)
  | .call expr => .call (expr.resolve env)
  | .block body => .block (resolveBlock (.opened body :: env) body)
  | .branch arms none => .branch (resolveArms env arms) none
  | .branch arms (some otherwise) =>
    .branch (resolveArms env arms) (some (resolveBlock (.opened otherwise :: env) otherwise))
  | .whileLoop condition body =>
    .whileLoop (condition.resolve env) (resolveBlock (.opened body :: env) body)
  | .repeatLoop body condition =>
    .repeatLoop (resolveBlock (.opened body :: env) body)
      (condition.resolve (.complete (declaredBy body) :: env))
  | .countLoop counter start limit none body =>
    .countLoop counter (start.resolve env) (limit.resolve env) none
      (resolveBlock (.opened body :: .complete [counter] :: env) body)
  | .countLoop counter start limit (some step) body =>
    .countLoop counter (start.resolve env) (limit.resolve env) (some (step.resolve env))
      (resolveBlock (.opened body :: .complete [counter] :: env) body)
  | .eachLoop names exprs body =>
    .eachLoop names (resolveList env exprs)
      (resolveBlock (.opened body :: .complete names :: env) body)
  | .define root path isMethod definition =>
    .define (env.resolve root) path isMethod (definition.resolve env.captured)
  | .declareFunction name definition =>
    .declareFunction name (definition.resolve (env.after [name]).captured)
  | .returnValues values => .returnValues (resolveList env values)
  | .breakLoop => .breakLoop

end

/-- A chunk with its names resolved. -/
def Chunk.resolve (chunk : Chunk) : Chunk Var :=
  ⟨chunk.name, resolveBlock [.opened chunk.body] chunk.body⟩

/-! ## Settled syntax -/

mutual

/-- No name in an expression changes its meaning. -/
def Expr.settled (env : TextEnv) : Expr → Bool
  | .nil | .bool _ | .number _ | .text _ => true
  | .function definition => definition.settled env.captured
  | .name x => env.settles x
  | .index object key => object.settled env && key.settled env
  | .call callee args => callee.settled env && settledList env args
  | .method object _ args => object.settled env && settledList env args
  | .table fields => settledFields env fields
  | .unary _ operand => operand.settled env
  | .binary _ left right => left.settled env && right.settled env
  | .paren inner => inner.settled env

/-- No name in some expressions does. -/
def settledList (env : TextEnv) : List Expr → Bool
  | [] => true
  | e :: es => e.settled env && settledList env es

/-- No name in the entries of a table constructor does. -/
def settledFields (env : TextEnv) : List Field → Bool
  | [] => true
  | .named _ value :: fields => value.settled env && settledFields env fields
  | .keyed key value :: fields => key.settled env && value.settled env && settledFields env fields
  | .item value :: fields => value.settled env && settledFields env fields

/-- No name in a function does. -/
def Function.settled (env : TextEnv) : Function → Bool
  | .mk _ params body _ _ => settledBlock (.opened body :: .complete params :: env) body

/-- No name in some statements does. -/
def settledBlock (env : TextEnv) : List Stmt → Bool
  | [] => true
  | s :: rest => s.settled env && settledBlock (env.after s.declared) rest

/-- No name in conditions and their blocks does. -/
def settledArms (env : TextEnv) : List Arm → Bool
  | [] => true
  | .mk condition body :: arms =>
    condition.settled env && settledBlock (.opened body :: env) body && settledArms env arms

/-- No name in a statement does. -/
def Stmt.settled (env : TextEnv) : Stmt → Bool
  | .mk _ action => action.settled env

/-- No name in what a statement does changes its meaning. -/
def Action.settled (env : TextEnv) : Action → Bool
  | .declare _ values => settledList env values
  | .assign targets values => settledList env targets && settledList env values
  | .call expr => expr.settled env
  | .block body => settledBlock (.opened body :: env) body
  | .branch arms none => settledArms env arms
  | .branch arms (some otherwise) =>
    settledArms env arms && settledBlock (.opened otherwise :: env) otherwise
  | .whileLoop condition body =>
    condition.settled env && settledBlock (.opened body :: env) body
  | .repeatLoop body condition =>
    settledBlock (.opened body :: env) body &&
      condition.settled (.complete (declaredBy body) :: env)
  | .countLoop counter start limit none body =>
    start.settled env && limit.settled env &&
      settledBlock (.opened body :: .complete [counter] :: env) body
  | .countLoop counter start limit (some step) body =>
    start.settled env && limit.settled env && step.settled env &&
      settledBlock (.opened body :: .complete [counter] :: env) body
  | .eachLoop names exprs body =>
    settledList env exprs && settledBlock (.opened body :: .complete names :: env) body
  | .define root _ _ definition => env.settles root && definition.settled env.captured
  | .declareFunction name definition => definition.settled (env.after [name]).captured
  | .returnValues values => settledList env values
  | .breakLoop => true

end

/-- No name in a chunk changes its meaning. -/
def Chunk.settled (chunk : Chunk) : Bool :=
  settledBlock [.opened chunk.body] chunk.body

/-! ## What settled means -/

namespace TextEnv

/-- What may have become of the scopes around a place when a function that is made there runs: those
    that the function remembers may have gone on to make some of the declarations that were coming. -/
inductive Becomes : TextEnv → TextEnv → Prop
  | nil : Becomes [] []
  | same (s : TextScope) {outer outer' : TextEnv} : Becomes outer outer' →
      Becomes (s :: outer) (s :: outer')
  | declared (s : TextScope) (n : Nat) {outer outer' : TextEnv} : s.captured = true →
      Becomes outer outer' → Becomes (s :: outer) (s.after (s.coming.take n) :: outer')

theorem Becomes.refl (env : TextEnv) : Becomes env env := by
  induction env with
  | nil => exact .nil
  | cons s outer ih => exact .same s ih

theorem findIdx?_name_eq_none {names : List String} {name : String} :
    names.findIdx? (· == name) = none ↔ name ∉ names := by
  rw [List.findIdx?_eq_none_iff]
  constructor
  · intro h hmem
    have hne := h name hmem
    rw [beq_self_eq_true] at hne
    cases hne
  · intro h other hmem
    rw [beq_eq_false_iff_ne]
    rintro rfl
    exact h hmem

/-- A name that a scope has not declared is found one scope further out. -/
theorem find?_of_not_mem {s : TextScope} {name : String} (h : name ∉ s.visible) (outer : TextEnv) :
    find? (s :: outer) name = (find? outer name).map fun place => (place.1 + 1, place.2) := by
  rw [find?, findIdx?_name_eq_none.mpr h]

/-- Declarations of other names leave a name in a scope where it is. -/
theorem find?_after {s : TextScope} {names : List String} {name : String} (h : name ∉ names)
    {outer outer' : TextEnv} (houter : name ∉ s.visible → find? outer' name = find? outer name) :
    find? (s.after names :: outer') name = find? (s :: outer) name := by
  -- The search passes over what is new, and numbers count from the other end.
  have hnone : names.reverse.findIdx? (· == name) = none :=
    findIdx?_name_eq_none.mpr fun hmem => h (List.mem_reverse.mp hmem)
  unfold find?
  dsimp only [TextScope.after]
  rw [List.findIdx?_append, hnone, Option.none_or]
  cases hpos : s.visible.findIdx? (· == name) with
  | none =>
      rw [houter (findIdx?_name_eq_none.mp hpos)]
      rfl
  | some position =>
      have hlt : position < s.visible.length := (List.findIdx?_eq_some_iff_findIdx_eq.mp hpos).1
      simp only [Option.map_some, List.length_append, List.length_reverse]
      congr 2
      omega

/-- The place that a scope gives for a name is that of a declaration it has. -/
theorem find?_cons_lt {s : TextScope} {outer : TextEnv} {name : String} {number : Nat}
    (h : find? (s :: outer) name = some (0, number)) : number < s.visible.length := by
  unfold find? at h
  cases hpos : s.visible.findIdx? (· == name) with
  | none =>
      rw [hpos] at h
      -- What is found further out is not in this scope.
      cases hfound : find? outer name with
      | none =>
          rw [hfound] at h
          cases h
      | some place =>
          rw [hfound] at h
          cases h
  | some position =>
      rw [hpos] at h
      have hlt : position < s.visible.length := (List.findIdx?_eq_some_iff_findIdx_eq.mp hpos).1
      cases h
      omega

/-- A declaration of the name hides the one that was visible. -/
theorem find?_after_ne {s : TextScope} {names : List String} {name : String} (h : name ∈ names)
    (outer outer' : TextEnv) : find? (s.after names :: outer') name ≠ find? (s :: outer) name := by
  cases hpos : names.reverse.findIdx? (· == name) with
  | none => exact absurd (List.mem_reverse.mpr h) (findIdx?_name_eq_none.mp hpos)
  | some position =>
      have hlt : position < names.reverse.length :=
        (List.findIdx?_eq_some_iff_findIdx_eq.mp hpos).1
      rw [List.length_reverse] at hlt
      -- The new declaration comes behind all that were visible, so its number is larger.
      have hfound : find? (s.after names :: outer') name =
          some (0, names.length + s.visible.length - 1 - position) := by
        unfold find?
        dsimp only [TextScope.after]
        rw [List.findIdx?_append, hpos, Option.some_or, List.length_append, List.length_reverse]
      rw [hfound]
      intro heq
      have hbefore := find?_cons_lt heq.symm
      omega

theorem settles_cons {s : TextScope} {outer : TextEnv} {name : String} :
    settles (s :: outer) name = true ↔
      (s.captured = true → name ∉ s.coming) ∧ (name ∈ s.visible ∨ settles outer name = true) := by
  rw [settles, Bool.and_eq_true, Bool.or_eq_true, Bool.not_eq_true', Bool.and_eq_false_imp]
  rw [List.contains_iff_mem, List.contains_eq_mem, decide_eq_false_iff_not]

/-- A name goes on to mean what it means exactly if it does so whatever becomes of the scopes. -/
theorem settles_iff (env : TextEnv) (name : String) :
    env.settles name = true ↔ ∀ env', env.Becomes env' → env'.find? name = env.find? name := by
  induction env with
  | nil =>
      refine ⟨fun _ env' h => ?_, fun _ => rfl⟩
      cases h
      rfl
  | cons s outer ih =>
      rw [settles_cons]
      constructor
      · rintro ⟨hcoming, hfound⟩ env' hbecomes
        -- A name that this scope has not declared is left to the scopes further out.
        have houter : ∀ outer', Becomes outer outer' → name ∉ s.visible →
            find? outer' name = find? outer name :=
          fun outer' hb hvisible => ih.mp (hfound.resolve_left hvisible) outer' hb
        cases hbecomes with
        | same _ hb =>
            have hnone : name ∉ ([] : List String) := List.not_mem_nil
            exact find?_after hnone (houter _ hb)
        | declared _ n hcaptured hb =>
            exact find?_after (fun hmem => hcoming hcaptured (List.mem_of_mem_take hmem))
              (houter _ hb)
      · intro h
        refine ⟨fun hcaptured hcoming => ?_, ?_⟩
        · -- If all that is coming has been declared, the name means another declaration.
          have hsame := h _ (.declared s s.coming.length hcaptured (.refl outer))
          rw [List.take_length] at hsame
          exact find?_after_ne hcoming outer outer hsame
        · by_cases hvisible : name ∈ s.visible
          · exact .inl hvisible
          · refine .inr (ih.mpr fun outer' hb => ?_)
            -- What becomes of the scopes further out must not matter, as the name is found there.
            have hsame := h _ (.same s hb)
            rw [find?_of_not_mem hvisible, find?_of_not_mem hvisible] at hsame
            refine Option.map_injective ?_ hsame
            rintro ⟨hops, number⟩ ⟨hops', number'⟩ heq
            cases heq
            rfl

end TextEnv

/-! ## What resolution leaves as it is -/

theorem isMulti_resolve (env : TextEnv) (e : Expr) : (e.resolve env).isMulti = e.isMulti := by
  cases e <;> rfl

theorem isEmpty_resolveFields (env : TextEnv) (fields : List Field) :
    (resolveFields env fields).isEmpty = fields.isEmpty := by
  cases fields with
  | nil => rfl
  | cons f fields => cases f <;> rfl

theorem calleeSite_resolve (env : TextEnv) (e : Expr) :
    calleeSite (e.resolve env) = calleeSite e := by
  cases e with
  | index object key => cases key <;> rfl
  | _ => rfl

end Script

end PixelEffects
