import PixelEffects.Script.Library

/-!
# Evaluation

What a script means.

Evaluation is a recursion on the syntax tree. The one thing that is not part of the tree is the
body of a function that is called, so calling a function is a parameter here, and the recursion
through calls is tied in a second step. It goes as deep as the call depth allows and no deeper.

Every expression has a list of results. Only a call can have more or fewer than one, and wherever
one value is wanted the first result counts, `nil` when there is none. In a list of expressions
the last one contributes all of its results.

A statement sets the line of the machine and takes one step before anything else. Blocks and
expressions count as nested while they are evaluated. Two things do not: the body of a `repeat`,
because its condition has to see the declarations of the body, and a call of which all results are
wanted. They are noted in the record of the machine like the others.

The record also notes each statement that is done, each round of a loop after which the loop goes
on, and what a library function is about to show the place of.

What a variable is referred to by is a parameter too, so that evaluation by name and evaluation
with variables that are found in some other way are one definition.

## Main definitions

* `Flow`: How a statement leaves the ones after it.
* `Place`: What an assignment stores into.
* `single`, `spread`: One result of an expression, and all of them.
* `Expr.results`, `Stmt.exec`: Expressions and statements.
* `callClosure`: Script functions.
* `callValue`: Any value.
-/

namespace PixelEffects

namespace Script

/-- How a statement leaves the ones after it: to be run, or left by a `break` or a `return`. -/
inductive Flow
  | normal
  | broken
  | returned (values : List Value)
deriving Repr, Inhabited

/-- What an assignment stores into. -/
inductive Place (ν : Type)
  | var (x : ν)
  | entry (table : TableId) (key : Key)
deriving Repr

variable {ν : Type}

/-- How script functions are called. -/
abbrev Caller (ν : Type) := Closure ν → List Value → Eval ν (List Value)

/-- The first result of an expression, evaluated one level further in. -/
def single (results : Eval ν (List Value)) : Eval ν Value :=
  nested .value do
    let vs ← results
    pure (vs.headD .nil)

/-- All results of an expression that can have several, and the one result of any other. -/
def spread (isMulti : Bool) (results : Eval ν (List Value)) : Eval ν (List Value) :=
  if isMulti then watched .allResults results else do pure [← single results]

/-- A block, evaluated one level further in and in a scope of its own. -/
def inScope (env : Env) (body : Env → Eval ν Flow) : Eval ν Flow :=
  nested .block do
    let scope ← newScope []
    body (scope :: env)

/-- The body of a `repeat`, in a scope of its own, and the environment that it leaves behind. -/
def inOpenScope (env : Env) (body : Env → Eval ν Flow) : Eval ν (Flow × Env) := do
  let scope ← newScope []
  let flow ← watched .repeatBody (body (scope :: env))
  pure (flow, scope :: env)

/-- A list of values cut or filled up to a length. -/
def adjusted (n : Nat) (vs : List Value) : List Value :=
  vs.take n ++ List.replicate (n - vs.length) .nil

/-- Call a library function. -/
def callBuiltin (b : Builtin) (args : List Value) : Eval ν (List Value) := fun s m =>
  let heap := m.tables
  let m := { m with tables := #[] }
  match Library.call s.address b args heap with
  | .ok vs heap => .ok vs { m with tables := heap }
  | .error cause heap => fault (.library cause) s { m with tables := heap }

/-- Call a library function, and note before what it shows the places of. -/
def callLibrary (b : Builtin) (args : List Value) : Eval ν (List Value) := do
  exposeAll (Library.shown b args)
  callBuiltin b args

/-- Call any value, which the source names in some way. -/
def callValue (call : Caller ν) (site : Site) (f : Value) (args : List Value) :
    Eval ν (List Value) :=
  match f with
  | .builtin b => callLibrary b args
  | .function id => do
    match ← closureAt id with
    | some c => call c args
    | none => fault (.notCallable .function site)
  | v => fault (.notCallable v.type site)

/-- How the source names the value that a call is made on. -/
def calleeSite [Reference ν] : Expr ν → Site
  | .name x => .global (Reference.word x)
  | .index _ (.text s) => .field s
  | _ => .none

/-- How a fault names the entry that was looked for. -/
def fieldSite : Value → Site
  | .text s => .field s
  | _ => .none

/-- The key that a value is. -/
def keyOf (v : Value) : Eval ν Key :=
  orFault .key (Key.ofValue? v)

/-- Read an entry. A text has the entries of the table `string`, as far as that is a table. -/
def index (object key : Value) : Eval ν Value :=
  match object with
  | .table id =>
    if key.isNil then pure .nil
    else do
      let k ← keyOf key
      pure ((← readTable id).get k)
  | .text _ => do
    match ← readGlobal "string" with
    | .table id => do
      let k ← keyOf key
      pure ((← readTable id).get k)
    | _ => pure .nil
  | v => fault (.notIndexable v.type (fieldSite key))

/-- Read an entry of what an expression gave. A variable that gave `nil` is named in the fault. -/
def indexOf [Reference ν] (expr : Expr ν) (object key : Value) : Eval ν Value :=
  match expr, object with
  | .name x, .nil => fault (.notIndexable .nil (.global (Reference.word x)))
  | _, _ => index object key

/-- Where an entry of a table is stored. -/
def entryPlace (object key : Value) : Eval ν (Place ν) :=
  match object with
  | .table id => do pure (.entry id (← keyOf key))
  | v => fault (.notIndexable v.type .none)

/-- Store a value. -/
def store [Reference ν] (env : Env) : Place ν → Value → Eval ν Unit
  | .var x, v => writeVariable env x v
  | .entry id k, v => writeEntry id k v

/-- Store values into places, one after the other. -/
def storeAll [Reference ν] (env : Env) : List (Place ν) → List Value → Eval ν Unit
  | p :: ps, v :: vs => do
    store env p v
    storeAll env ps vs
  | _, _ => pure ()

/-- Store several values at successive positions of a table. -/
def addItems : Table → Nat → List Value → Table × Nat
  | t, n, [] => (t, n)
  | t, n, v :: vs => addItems (t.set (Key.ofPosition n) v) (n + 1) vs

/-- Follow the path of a function name through tables. -/
def follow : Value → List String → Eval ν Value
  | v, [] => pure v
  | v, segment :: path => do follow (← index v (.text segment)) path

/-- Store a function under a path of names, the first of which is that of a variable. -/
def defineAt [Reference ν] (env : Env) (root : ν) (path : List String) (f : Value) :
    Eval ν Unit :=
  match path with
  | [] => fault .namelessFunction
  | [_] => writeVariable env root f
  | n :: segment :: rest => do
    let segments := (segment :: rest).dropLast
    match ← follow (← readVariable env root) segments with
    | .table id => writeEntry id (.text ((segment :: rest).getLastD n)) f
    | v => fault (.notIndexable v.type (.field (".".intercalate (n :: segments))))

/-- A part of a numeric loop. -/
def loopNumber (part : LoopPart) : Value → Eval ν Float
  | .number x => pure x
  | v => fault (.loopNumber part v.type)

/-- Go on to the next round of a loop after its body, or leave the loop. -/
def afterBody {σ : Type} (again : Eval ν σ) : Flow → Eval ν (Turn σ Flow)
  | .broken => pure (.done .normal)
  | .returned vs => pure (.done (.returned vs))
  | .normal => do pure (.again (← again))

/-- A loop with a condition in front. -/
def whileRounds (line : Nat) (condition : Eval ν Value) (body : Eval ν Flow) : Eval ν Flow :=
  rounds (fun () => do
    if (← condition).truthy then
      afterBody (do
        atLine line
        tick) (← body)
    else pure (.done .normal)) ()

/-- A loop with a condition behind. The body says which environment the condition is to be evaluated
    in. -/
def repeatRounds (line : Nat) (body : Eval ν (Flow × Env)) (condition : Env → Eval ν Value) :
    Eval ν Flow :=
  rounds (fun () => do
    match ← body with
    | (.normal, env) =>
      if (← condition env).truthy then pure (.done .normal)
      else
        atLine line
        tick
        pure (.again ())
    | (.broken, _) => pure (.done .normal)
    | (.returned vs, _) => pure (.done (.returned vs))) ()

/-- Whether a numeric loop goes on. -/
def counts (step limit i : Float) : Bool :=
  (step > 0 && i ≤ limit) || (step < 0 && i ≥ limit)

/-- A loop over numbers. -/
def countRounds (line : Nat) (start limit step : Float) (body : Float → Eval ν Flow) : Eval ν Flow :=
  rounds (fun i => do
    if counts step limit i then
      afterBody (do
        atLine line
        tick
        pure (i + step)) (← body i)
    else pure (.done .normal)) start

/-- A loop over what an iterator gives, until it gives `nil`. -/
def eachRounds (line : Nat) (iterate : Value → Eval ν (List Value)) (control : Value)
    (body : List Value → Eval ν Flow) : Eval ν Flow :=
  rounds (fun control => do
    atLine line
    let vs ← iterate control
    let first := vs.headD .nil
    if first.isNil then pure (.done .normal)
    else
      afterBody (do
        tick
        pure first) (← body vs)) control

variable [Reference ν]

mutual

/-- The results of an expression. -/
def Expr.results (call : Caller ν) (env : Env) : Expr ν → Eval ν (List Value)
  | .nil => pure [.nil]
  | .bool b => pure [.bool b]
  | .number x => pure [.number x]
  | .text s => pure [.text s]
  | .function definition => do pure [← newClosure definition env]
  | .name x => do pure [← readVariable env x]
  | .index object key => do
    let o ← single (object.results call env)
    let k ← single (key.results call env)
    pure [← indexOf object o k]
  | .call callee args => do
    let f ← single (callee.results call env)
    let vs ← resultsOfAll call env args
    callValue call (calleeSite callee) f vs
  | .method object name args => do
    let o ← single (object.results call env)
    let f ← index o (.text name)
    let vs ← resultsOfAll call env args
    callValue call (if f.isNil then .method name else .none) f (o :: vs)
  | .table fields => do
    let t ← addFields call env .empty 1 fields
    pure [← newTable t]
  | .unary op operand => do
    let v ← single (operand.results call env)
    pure [← askTables fun heap => unary? heap op v]
  | .binary .and left right => do
    let l ← single (left.results call env)
    if l.truthy then pure [← single (right.results call env)] else pure [l]
  | .binary .or left right => do
    let l ← single (left.results call env)
    if l.truthy then pure [l] else pure [← single (right.results call env)]
  | .binary op left right => do
    let l ← single (left.results call env)
    let r ← single (right.results call env)
    pure [← orFault id (binary? op l r)]
  | .paren inner => do pure [← single (inner.results call env)]

/-- The results of a list of expressions: one of each, and all of the last. -/
def resultsOfAll (call : Caller ν) (env : Env) : List (Expr ν) → Eval ν (List Value)
  | [] => pure []
  | [e] => spread e.isMulti (e.results call env)
  | e :: next :: es => do
    let v ← single (e.results call env)
    let vs ← resultsOfAll call env (next :: es)
    pure (v :: vs)

/-- The entries of a table constructor added to a table, with the next free position. -/
def addFields (call : Caller ν) (env : Env) (t : Table) (n : Nat) : List (Field ν) → Eval ν Table
  | [] => pure t
  | .named name value :: fields => do
    let v ← single (value.results call env)
    addFields call env (t.set (.text name) v) n fields
  | .keyed key value :: fields => do
    let k ← single (key.results call env)
    let k ← keyOf k
    let v ← single (value.results call env)
    addFields call env (t.set k v) n fields
  | .item value :: fields => do
    let vs ← spread (fields.isEmpty && value.isMulti) (value.results call env)
    let (t, n) := addItems t n vs
    addFields call env t n fields

/-- The places that the targets of an assignment stand for. -/
def places (call : Caller ν) (env : Env) : List (Expr ν) → Eval ν (List (Place ν))
  | [] => pure []
  | .name x :: targets => do
    let ps ← places call env targets
    pure (.var x :: ps)
  | .index object key :: targets => do
    let o ← single (object.results call env)
    let k ← single (key.results call env)
    let p ← entryPlace o k
    let ps ← places call env targets
    pure (p :: ps)
  | _ :: _ => fault .notAssignable

/-- Run a statement. -/
def Stmt.exec (call : Caller ν) (env : Env) : Stmt ν → Eval ν Flow
  | .mk line action => do
    atLine line
    takeStep
    action.exec call env line

/-- Run statements until one of them leaves. -/
def execAll (call : Caller ν) (env : Env) : List (Stmt ν) → Eval ν Flow
  | [] => pure .normal
  | s :: rest => do
    match ← s.exec call env with
    | .normal => execAll call env rest
    | flow => pure flow

/-- Run the block of the first condition that holds. -/
def execArms (call : Caller ν) (env : Env) (otherwise : Eval ν Flow) : List (Arm ν) → Eval ν Flow
  | [] => otherwise
  | .mk condition body :: arms => do
    if (← single (condition.results call env)).truthy then
      inScope env fun inner => execAll call inner body
    else execArms call env otherwise arms

/-- Do what a statement on a line does. -/
def Action.exec (call : Caller ν) (env : Env) (line : Nat) : Action ν → Eval ν Flow
  | .declare names values => do
    let vs ← resultsOfAll call env values
    declare env names vs
    pure .normal
  | .assign targets values => do
    let ps ← places call env targets
    let vs ← resultsOfAll call env values
    storeAll env ps (adjusted ps.length vs)
    pure .normal
  | .call expr => do
    let _ ← spread expr.isMulti (expr.results call env)
    pure .normal
  | .block body => inScope env fun inner => execAll call inner body
  | .branch arms none => execArms call env (pure .normal) arms
  | .branch arms (some otherwise) =>
    execArms call env (inScope env fun inner => execAll call inner otherwise) arms
  | .whileLoop condition body =>
    whileRounds line (single (condition.results call env))
      (inScope env fun inner => execAll call inner body)
  | .repeatLoop body condition =>
    repeatRounds line
      (inOpenScope env fun inner => execAll call inner body)
      fun inner => single (condition.results call inner)
  | .countLoop counter start limit step body => do
    let start ← loopNumber .initial (← single (start.results call env))
    let limit ← loopNumber .limit (← single (limit.results call env))
    let step ← match step with
      | some e => do loopNumber .step (← single (e.results call env))
      | none => pure 1
    if step == 0 then fault .loopStepZero
    else
      countRounds line start limit step fun i => do
        let outer ← newScope [(counter, .number i)]
        inScope (outer :: env) fun inner => execAll call inner body
  | .eachLoop names exprs body => do
    let init := adjusted 3 (← resultsOfAll call env exprs)
    let f := init.headD .nil
    let state := (init.drop 1).headD .nil
    let control := (init.drop 2).headD .nil
    eachRounds line (fun control => callValue call .none f [state, control]) control fun vs => do
      let outer ← newScope (Scope.declareAll names vs [])
      inScope (outer :: env) fun inner => execAll call inner body
  | .define root path _ definition => do
    let f ← newClosure definition env
    defineAt env root path f
    pure .normal
  | .declareFunction name definition => do
    declare env [name] [.nil]
    let f ← newClosure definition env
    setLatest env f
    pure .normal
  | .returnValues values => do pure (.returned (← resultsOfAll call env values))
  | .breakLoop => pure .broken

end

/-- Run a block in a scope of its own. -/
def block (call : Caller ν) (env : Env) (body : List (Stmt ν)) : Eval ν Flow :=
  inScope env fun inner => execAll call inner body

/-- Call a script function, at most `fuel` calls deep. -/
def callClosure : Nat → Caller ν
  | 0, _, _ => fault .outOfFuel
  | fuel + 1, c, args => do
    let flow ← framed c.definition.chunk c.definition.line do
      let frame ← newScope (Scope.declareAll c.definition.params args [])
      block (callClosure fuel) (frame :: c.env) c.definition.body
    match flow with
    | .returned vs => pure vs
    | .normal => pure []
    | .broken => fault .breakOutside

/-- Call a script function within the call depth. -/
def callWithin : Caller ν := fun c args s m =>
  callClosure (s.limits.maxCallDepth + 1) c args s m

end Script

end PixelEffects
