import PixelEffects.Proofs.Script.Syntax.Ensures

/-!
# Least Levels

No parsed source is nested more deeply than the parser has levels.

The levels of the parser are entered by statements and operands. Which operands a tree was read from
can not be told from it, but some levels must have been entered in any case. A block, the body of a
function or a loop is part of a statement or an operand and takes up its level. A call that stands
among arguments or in a table constructor is an operand. The least levels of a tree count these, one
inside of the other, and at least one for each expression.

So the parser never gives a tree with more of them than it has levels. The proof goes through the
grammar rule by rule: with parsers for statements and operands that keep within `n`, a block keeps
within `n` as well, and whatever is part of a statement or an operand within `n + 1`.

## Main definitions

* `Expr.leastLevels`, `Action.leastLevels` and the others: How deeply a tree is nested at least.
* `Level.Within`: The parsers of a level give nothing that is nested more deeply than some number.

## Theorems

* `Level.Within.suffixed`, `Level.Within.action` and others: One for each rule of the grammar.
* `level_within`: A level keeps within the number of levels there are.
* `parseTokens_leastLevels`: And so does a source.
-/

namespace PixelEffects

namespace Script

open PixelEffects.Script.Parser

mutual

/-- The least levels of an expression. -/
@[simp]
def Expr.leastLevels : Expr → Nat
  | .nil | .bool _ | .number _ | .text _ | .name _ => 1
  | .function definition => definition.leastLevels + 1
  | .index object key => max object.leastLevels key.leastLevels
  | .call callee args => max callee.leastLevels (leastLevelsOfArgs args)
  | .method object _ args => max object.leastLevels (leastLevelsOfArgs args)
  | .table fields => max 1 (leastLevelsOfFields fields)
  | .unary _ operand => operand.leastLevels
  | .binary _ left right => max left.leastLevels right.leastLevels
  | .paren inner => inner.leastLevels

/-- The least levels of arguments. One that is a call takes up a level. -/
@[simp]
def leastLevelsOfArgs : List Expr → Nat
  | [] => 0
  | e :: es => max (e.leastLevels + e.isMulti.toNat) (leastLevelsOfArgs es)

/-- The least levels of the entries of a table constructor. -/
@[simp]
def leastLevelsOfFields : List Field → Nat
  | [] => 0
  | f :: fs => max f.leastLevels (leastLevelsOfFields fs)

/-- The least levels of an entry. -/
@[simp]
def Field.leastLevels : Field → Nat
  | .named _ value => value.leastLevels
  | .keyed key value => max key.leastLevels value.leastLevels
  | .item value => value.leastLevels + value.isMulti.toNat

/-- The least levels of a function are those of its body. -/
@[simp]
def Function.leastLevels : Function → Nat
  | .mk _ _ body _ _ => leastLevelsOfBlock body

/-- The least levels of a block. -/
@[simp]
def leastLevelsOfBlock : List Stmt → Nat
  | [] => 0
  | s :: rest => max s.leastLevels (leastLevelsOfBlock rest)

/-- The least levels of conditions and their blocks. -/
@[simp]
def leastLevelsOfArms : List Arm → Nat
  | [] => 0
  | a :: arms => max a.leastLevels (leastLevelsOfArms arms)

/-- The least levels of a condition and its block. -/
@[simp]
def Arm.leastLevels : Arm → Nat
  | .mk condition body => max condition.leastLevels (leastLevelsOfBlock body + 1)

/-- The least levels of a statement. -/
@[simp]
def Stmt.leastLevels : Stmt → Nat
  | .mk _ action => action.leastLevels

/-- The least levels of expressions in a statement. -/
@[simp]
def leastLevelsOfList : List Expr → Nat
  | [] => 0
  | e :: es => max e.leastLevels (leastLevelsOfList es)

/-- The least levels of what a statement does. Each block in it takes up a level. -/
@[simp]
def Action.leastLevels : Action → Nat
  | .declare _ values => leastLevelsOfList values
  | .assign targets values => max (leastLevelsOfList targets) (leastLevelsOfList values)
  | .call expr => expr.leastLevels
  | .block body => leastLevelsOfBlock body + 1
  | .branch arms none => leastLevelsOfArms arms
  | .branch arms (some otherwise) =>
    max (leastLevelsOfArms arms) (leastLevelsOfBlock otherwise + 1)
  | .whileLoop condition body => max condition.leastLevels (leastLevelsOfBlock body + 1)
  | .repeatLoop body condition => max (leastLevelsOfBlock body + 1) condition.leastLevels
  | .countLoop _ start limit none body =>
    max (max start.leastLevels limit.leastLevels) (leastLevelsOfBlock body + 1)
  | .countLoop _ start limit (some step) body =>
    max (max start.leastLevels limit.leastLevels)
      (max step.leastLevels (leastLevelsOfBlock body + 1))
  | .eachLoop _ exprs body => max (leastLevelsOfList exprs) (leastLevelsOfBlock body + 1)
  | .define _ _ _ definition => definition.leastLevels + 1
  | .declareFunction _ definition => definition.leastLevels + 1
  | .returnValues values => leastLevelsOfList values
  | .breakLoop => 0

end

/-! ## Lists -/

section Lists

variable {n : Nat}

theorem leastLevelsOfArgs_le {es : List Expr}
    (h : ∀ e ∈ es, e.leastLevels + e.isMulti.toNat ≤ n) : leastLevelsOfArgs es ≤ n := by
  induction es with
  | nil => exact Nat.zero_le n
  | cons e es ih =>
      simp only [List.forall_mem_cons] at h
      simpa only [leastLevelsOfArgs, Nat.max_le] using And.intro h.1 (ih h.2)

theorem leastLevelsOfList_le {es : List Expr} (h : ∀ e ∈ es, e.leastLevels ≤ n) :
    leastLevelsOfList es ≤ n := by
  induction es with
  | nil => exact Nat.zero_le n
  | cons e es ih =>
      simp only [List.forall_mem_cons] at h
      simpa only [leastLevelsOfList, Nat.max_le] using And.intro h.1 (ih h.2)

theorem leastLevelsOfFields_le {fs : List Field} (h : ∀ f ∈ fs, f.leastLevels ≤ n) :
    leastLevelsOfFields fs ≤ n := by
  induction fs with
  | nil => exact Nat.zero_le n
  | cons f fs ih =>
      simp only [List.forall_mem_cons] at h
      simpa only [leastLevelsOfFields, Nat.max_le] using And.intro h.1 (ih h.2)

theorem leastLevelsOfBlock_le {stmts : List Stmt} (h : ∀ s ∈ stmts, s.leastLevels ≤ n) :
    leastLevelsOfBlock stmts ≤ n := by
  induction stmts with
  | nil => exact Nat.zero_le n
  | cons s stmts ih =>
      simp only [List.forall_mem_cons] at h
      simpa only [leastLevelsOfBlock, Nat.max_le] using And.intro h.1 (ih h.2)

theorem leastLevelsOfArms_le {arms : List Arm} (h : ∀ a ∈ arms, a.leastLevels ≤ n) :
    leastLevelsOfArms arms ≤ n := by
  induction arms with
  | nil => exact Nat.zero_le n
  | cons a arms ih =>
      simp only [List.forall_mem_cons] at h
      simpa only [leastLevelsOfArms, Nat.max_le] using And.intro h.1 (ih h.2)

end Lists

/-! ## Rules -/

namespace Level

/-- The parsers of a level give no statement and no operand with more least levels than `n`. -/
structure Within (n : Nat) (l : Level) : Prop where
  statement : Ensures (fun s => s.leastLevels ≤ n) l.statement
  operand : ∀ k, Ensures (fun e => e.expr.leastLevels ≤ n) (l.operand k)

namespace Within

variable {n : Nat} {l : Level} (h : l.Within n)

include h

theorem expr : Ensures (fun e => e.expr.leastLevels ≤ n) l.expr :=
  h.operand 0

theorem exprs : Ensures (fun es => ∀ e ∈ es, e.expr.leastLevels ≤ n) l.exprs :=
  Ensures.separated h.expr

theorem values : Ensures (fun es => leastLevelsOfList (es.map (·.expr)) ≤ n) l.exprs := by
  intro ts es rest hrun
  have hes := h.exprs ts es rest hrun
  exact leastLevelsOfList_le (by simpa using hes)

theorem returnValues : Ensures (fun es => leastLevelsOfList es ≤ n) l.returnValues := by
  refine Ensures.andThen fun ends => ?_
  split
  · exact Ensures.pure (Nat.zero_le n)
  · refine Ensures.andThen fun semi => ?_
    split
    · exact Ensures.pure (Nat.zero_le n)
    · exact Ensures.bind h.values fun es hes => Ensures.pure hes

theorem returnStatement : Ensures (fun s => s.leastLevels ≤ n) l.returnStatement := by
  refine Ensures.andThen fun t => Ensures.andThen fun _ => ?_
  refine Ensures.bind h.returnValues fun values hvalues => ?_
  refine Ensures.andThen fun _ => Ensures.andThen fun ends => ?_
  split
  · refine Ensures.pure ?_
    simpa only [Stmt.leastLevels, Action.leastLevels] using hvalues
  · exact Ensures.failAt _

theorem block : Ensures (fun body => leastLevelsOfBlock body ≤ n) l.block := by
  have hstep : ∀ stmts : List Stmt, (∀ s ∈ stmts, s.leastLevels ≤ n) →
      Ensures (fun r => ∀ s ∈ r.1, s.leastLevels ≤ n) (l.blockStep stmts) := by
    intro stmts hstmts
    refine Ensures.andThen fun ends => ?_
    split
    · exact Ensures.pure hstmts
    · refine Ensures.andThen fun semi => ?_
      split
      · exact Ensures.pure hstmts
      · refine Ensures.andThen fun isReturn => ?_
        -- A block is read statement by statement, the latest in front.
        split
        · exact Ensures.bind h.returnStatement fun s hs =>
            Ensures.pure (List.forall_mem_cons.mpr ⟨hs, hstmts⟩)
        · exact Ensures.bind h.statement fun s hs =>
            Ensures.pure (List.forall_mem_cons.mpr ⟨hs, hstmts⟩)
  refine Ensures.bind (Ensures.repeated hstep _ [] (by simp)) fun stmts hstmts => ?_
  exact Ensures.pure (leastLevelsOfBlock_le (by simpa using hstmts))

theorem closedBlock : Ensures (fun body => leastLevelsOfBlock body ≤ n) l.closedBlock :=
  Ensures.bind h.block fun _ hbody => Ensures.andThen fun _ => Ensures.pure hbody

theorem functionBody (chunk name : String) (isMethod : Bool) (line : Nat) :
    Ensures (fun f => f.leastLevels ≤ n) (l.functionBody chunk name isMethod line) := by
  refine Ensures.andThen fun _ => Ensures.andThen fun params => ?_
  refine Ensures.bind h.closedBlock fun body hbody => Ensures.pure ?_
  simpa only [Function.leastLevels] using hbody

/-! ### Tables -/

theorem field : Ensures (fun f => f.field.leastLevels ≤ n + 1) l.field := by
  let Q (f : MeasuredField) : Prop := f.field.leastLevels ≤ n + 1
  -- The kind of entry decides which parser runs, so the run is looked at first.
  intro ts f rest hrun
  unfold Level.field at hrun
  split at hrun
  · refine Ensures.bind (Q := Q) h.expr (fun value hvalue => ?_) _ f rest hrun
    refine Ensures.pure ?_
    simp only [Q, Field.leastLevels]
    omega
  · refine Ensures.bind (Q := Q) h.expr (fun key hkey => ?_) _ f rest hrun
    refine Ensures.andThen fun _ => Ensures.andThen fun _ => ?_
    refine Ensures.bind h.expr fun value hvalue => Ensures.pure ?_
    simp only [Q, Field.leastLevels]
    omega
  · refine Ensures.bind (Q := Q) h.expr (fun value hvalue => ?_) _ f rest hrun
    refine Ensures.pure ?_
    have hmulti := Bool.toNat_le value.expr.isMulti
    simp only [Q, Field.leastLevels]
    omega

/-- A table constructor takes up the level it is on, and it is not a call. -/
theorem table : Ensures (fun e => e.expr.leastLevels ≤ n + 1 ∧ e.expr.isMulti = false) l.table := by
  have hstep : ∀ fields : List MeasuredField, (∀ f ∈ fields, f.field.leastLevels ≤ n + 1) →
      Ensures (fun r => ∀ f ∈ r.1, f.field.leastLevels ≤ n + 1) (l.fieldStep fields) := by
    intro fields hfields
    refine Ensures.andThen fun closed => ?_
    split
    · exact Ensures.pure hfields
    · refine Ensures.bind h.field fun f hf => Ensures.andThen fun goOn => ?_
      exact Ensures.pure (List.forall_mem_cons.mpr ⟨hf, hfields⟩)
  refine Ensures.andThen fun _ => ?_
  refine Ensures.bind (Ensures.repeated hstep _ [] (by simp)) fun fields hfields => ?_
  have hall : leastLevelsOfFields (fields.reverse.map (·.field)) ≤ n + 1 :=
    leastLevelsOfFields_le (by simpa using hfields)
  refine Ensures.pure ⟨?_, rfl⟩
  simp only [Expr.leastLevels]
  omega

/-! ### Calls and operands -/

theorem arguments :
    Ensures (fun es => leastLevelsOfArgs (es.map (·.expr)) ≤ n + 1) l.arguments := by
  refine Ensures.andThen fun t => ?_
  split
  · refine Ensures.andThen fun _ => Ensures.pure (leastLevelsOfArgs_le ?_)
    simp [Measured.leaf, Expr.leastLevels, Expr.isMulti]
  · -- A table constructor can be an argument without being an operand.
    refine Ensures.bind h.table fun e he => Ensures.pure (leastLevelsOfArgs_le ?_)
    simp [he.1, he.2]
  · refine Ensures.andThen fun _ => Ensures.andThen fun closed => ?_
    split
    · exact Ensures.pure (Nat.zero_le _)
    · refine Ensures.bind h.exprs fun es hes => Ensures.andThen fun _ => ?_
      refine Ensures.pure (leastLevelsOfArgs_le fun e he => ?_)
      rcases List.mem_map.mp he with ⟨e', he', rfl⟩
      exact Nat.add_le_add (hes e' he') (Bool.toNat_le _)
  · exact Ensures.throw _

theorem primary : Ensures (fun e => e.expr.leastLevels ≤ n + 1) l.primary := by
  refine Ensures.andThen fun t => ?_
  split
  · refine Ensures.andThen fun _ => Ensures.pure ?_
    simp [Measured.leaf, Expr.leastLevels]
  · refine Ensures.andThen fun _ => Ensures.bind h.expr fun inner hinner => ?_
    refine Ensures.andThen fun _ => Ensures.pure ?_
    simp only [Expr.leastLevels]
    omega
  · exact Ensures.throw _

theorem callSuffix {e : Measured} (he : e.expr.leastLevels ≤ n + 1) :
    Ensures (fun e => e.expr.leastLevels ≤ n + 1) (l.callSuffix e) := by
  refine Ensures.bind h.arguments fun args hargs => Ensures.pure ?_
  simp only [Expr.leastLevels]
  omega

/-- What has suffixes stays on its level. -/
theorem suffixStep {e : Measured} (he : e.expr.leastLevels ≤ n + 1) :
    Ensures (fun r => r.1.expr.leastLevels ≤ n + 1) (l.suffixStep e) := by
  refine Ensures.andThen fun _ => Ensures.andThen fun t => ?_
  -- Names and keys are below the level of the suffix, arguments may be on it.
  split
  · refine Ensures.andThen fun _ => Ensures.andThen fun key => Ensures.pure ?_
    simp only [Expr.leastLevels]
    omega
  · refine Ensures.andThen fun _ => Ensures.bind h.expr fun key hkey => ?_
    refine Ensures.andThen fun _ => Ensures.pure ?_
    simp only [Expr.leastLevels]
    omega
  · refine Ensures.andThen fun _ => Ensures.andThen fun name => ?_
    refine Ensures.bind h.arguments fun args hargs => Ensures.pure ?_
    simp only [Expr.leastLevels]
    omega
  · exact Ensures.bind (h.callSuffix he) fun call hcall => Ensures.pure hcall
  · exact Ensures.bind (h.callSuffix he) fun call hcall => Ensures.pure hcall
  · exact Ensures.bind (h.callSuffix he) fun call hcall => Ensures.pure hcall
  · exact Ensures.pure he

theorem suffixed : Ensures (fun e => e.expr.leastLevels ≤ n + 1) l.suffixed :=
  Ensures.bind h.primary fun e he => Ensures.repeated (fun _ he => h.suffixStep he) _ e he

theorem simple (chunk : String) : Ensures (fun e => e.expr.leastLevels ≤ n + 1) (l.simple chunk) := by
  -- A single token is one level, and there is always that of the operand itself.
  have hleaf : ∀ e : Expr, e.leastLevels = 1 →
      Ensures (fun m : Measured => m.expr.leastLevels ≤ n + 1) (pure (Measured.leaf e)) := by
    intro e he
    refine Ensures.pure ?_
    simp only [Measured.leaf]
    omega
  refine Ensures.andThen fun t => ?_
  split
  · exact Ensures.andThen fun _ => hleaf _ (by simp only [Expr.leastLevels])
  · exact Ensures.andThen fun _ => hleaf _ (by simp only [Expr.leastLevels])
  · exact Ensures.andThen fun _ => hleaf _ (by simp only [Expr.leastLevels])
  · exact Ensures.andThen fun _ => hleaf _ (by simp only [Expr.leastLevels])
  · exact Ensures.andThen fun _ => hleaf _ (by simp only [Expr.leastLevels])
  · exact fun ts e rest hrun => (h.table ts e rest hrun).1
  · refine Ensures.andThen fun _ => ?_
    refine Ensures.bind (h.functionBody chunk "anonymous" false t.line) fun f hf => ?_
    refine Ensures.pure ?_
    simp only [Measured.leaf, Expr.leastLevels]
    omega
  · exact h.suffixed

theorem prefixed (chunk : String) :
    Ensures (fun e => e.expr.leastLevels ≤ n + 1) (l.prefixed chunk) := by
  refine Ensures.andThen fun t => ?_
  split
  · refine Ensures.andThen fun _ => Ensures.bind (h.operand _) fun operand hoperand => ?_
    refine Ensures.pure ?_
    simp only [Expr.leastLevels]
    omega
  · exact h.simple chunk

theorem operandBelow (chunk : String) (limit : Nat) :
    Ensures (fun e => e.expr.leastLevels ≤ n + 1) (l.operandBelow chunk limit) := by
  have hstep : ∀ e : Measured, e.expr.leastLevels ≤ n + 1 →
      Ensures (fun r => r.1.expr.leastLevels ≤ n + 1) (l.binaryStep limit e) := by
    intro e he
    refine Ensures.andThen fun t => ?_
    split
    · exact Ensures.pure he
    · split
      · exact Ensures.pure he
      · refine Ensures.andThen fun _ => Ensures.bind (h.operand _) fun right hright => ?_
        refine Ensures.andThen fun _ => Ensures.pure ?_
        simp only [Expr.leastLevels]
        omega
  exact Ensures.bind (h.prefixed chunk) fun e he => Ensures.andThen fun _ =>
    Ensures.repeated hstep _ e he

/-! ### Statements -/

theorem arm : Ensures (fun a => a.leastLevels ≤ n + 1) l.arm := by
  refine Ensures.bind h.expr fun condition hcondition => Ensures.andThen fun _ => ?_
  refine Ensures.bind h.block fun body hbody => Ensures.pure ?_
  simp only [Arm.leastLevels]
  omega

theorem branch : Ensures (fun a => a.leastLevels ≤ n + 1) l.branch := by
  -- What has been read of a branch at any moment: some arms, and the last block if it was there.
  let Kept (arms : List Arm × Option (List Stmt)) : Prop :=
    (∀ a ∈ arms.1, a.leastLevels ≤ n + 1) ∧ ∀ body ∈ arms.2, leastLevelsOfBlock body ≤ n
  have hstep : ∀ arms, Kept arms → Ensures (fun r => Kept r.1) (l.armStep arms) := by
    intro arms harms
    refine Ensures.andThen fun more => ?_
    split
    · refine Ensures.bind h.arm fun a ha => Ensures.pure ⟨?_, harms.2⟩
      exact List.forall_mem_cons.mpr ⟨ha, harms.1⟩
    · refine Ensures.andThen fun last => ?_
      split
      · refine Ensures.bind h.closedBlock fun body hbody => Ensures.pure ⟨harms.1, ?_⟩
        simpa using hbody
      · exact Ensures.andThen fun _ => Ensures.pure harms
  refine Ensures.bind h.arm fun first hfirst => ?_
  have hone : Kept ([first], none) := ⟨by simpa using hfirst, by simp⟩
  refine Ensures.bind (Ensures.repeated hstep _ _ hone) ?_
  rintro ⟨arms, otherwise⟩ ⟨harms, hotherwise⟩
  have hall : leastLevelsOfArms arms.reverse ≤ n + 1 :=
    leastLevelsOfArms_le (by simpa using harms)
  refine Ensures.pure ?_
  cases otherwise with
  | none => simpa only [Action.leastLevels] using hall
  | some body =>
      have hbody := hotherwise body rfl
      simp only [Action.leastLevels]
      omega

theorem loopStep? : Ensures (fun step => ∀ e ∈ step, e.leastLevels ≤ n) l.loopStep? := by
  refine Ensures.andThen fun given => ?_
  split
  · refine Ensures.bind h.expr fun step hstep => Ensures.pure ?_
    simpa using hstep
  · exact Ensures.pure (by simp)

theorem countLoop (counter : String) :
    Ensures (fun a => a.leastLevels ≤ n + 1) (l.countLoop counter) := by
  refine Ensures.bind h.expr fun start hstart => Ensures.andThen fun _ => ?_
  refine Ensures.bind h.expr fun limit hlimit => ?_
  refine Ensures.bind h.loopStep? fun step hstep => Ensures.andThen fun _ => ?_
  refine Ensures.bind h.closedBlock fun body hbody => Ensures.pure ?_
  cases step with
  | none =>
      simp only [Action.leastLevels]
      omega
  | some e =>
      have he := hstep e rfl
      simp only [Action.leastLevels]
      omega

theorem eachLoop (first : String) : Ensures (fun a => a.leastLevels ≤ n + 1) (l.eachLoop first) := by
  refine Ensures.andThen fun names => Ensures.andThen fun _ => ?_
  refine Ensures.bind h.values fun exprs hexprs => Ensures.andThen fun _ => ?_
  refine Ensures.bind h.closedBlock fun body hbody => Ensures.pure ?_
  simp only [Action.leastLevels]
  omega

theorem forLoop : Ensures (fun a => a.leastLevels ≤ n + 1) l.forLoop := by
  refine Ensures.andThen fun first => Ensures.andThen fun numeric => ?_
  split
  · exact h.countLoop first
  · exact h.eachLoop first

theorem definition (chunk : String) (line : Nat) :
    Ensures (fun a => a.leastLevels ≤ n + 1) (l.definition chunk line) := by
  refine Ensures.andThen fun path => Ensures.andThen fun method => ?_
  refine Ensures.bind (h.functionBody chunk _ method.isSome line) fun f hf => Ensures.pure ?_
  simp only [Action.leastLevels]
  omega

theorem initialValues : Ensures (fun es => leastLevelsOfList es ≤ n) l.initialValues := by
  refine Ensures.andThen fun given => ?_
  split
  · exact Ensures.bind h.values fun values hvalues => Ensures.pure hvalues
  · exact Ensures.pure (Nat.zero_le n)

theorem declaration (chunk : String) (line : Nat) :
    Ensures (fun a => a.leastLevels ≤ n + 1) (l.declaration chunk line) := by
  refine Ensures.andThen fun isFunction => ?_
  split
  · refine Ensures.andThen fun name => ?_
    refine Ensures.bind (h.functionBody chunk name false line) fun f hf => Ensures.pure ?_
    simp only [Action.leastLevels]
    omega
  · refine Ensures.andThen fun names => ?_
    refine Ensures.bind h.initialValues fun values hvalues => Ensures.pure ?_
    simp only [Action.leastLevels]
    omega

theorem assignment {first : Measured} (hfirst : first.expr.leastLevels ≤ n + 1) :
    Ensures (fun a => a.leastLevels ≤ n + 1) (l.assignment first) := by
  -- The first target was read before it was known that there is an assignment.
  have htargets : Ensures (fun es => ∀ e ∈ es, e.expr.leastLevels ≤ n + 1)
      (l.moreTargets first) := by
    refine Ensures.andThen fun more => ?_
    split
    · refine Ensures.bind (Ensures.separated h.suffixed) fun es hes => Ensures.pure ?_
      exact List.forall_mem_cons.mpr ⟨hfirst, hes⟩
    · exact Ensures.pure (by simpa using hfirst)
  refine Ensures.bind htargets fun targets hall => ?_
  split
  · refine Ensures.andThen fun _ => Ensures.bind h.values fun values hvalues => Ensures.pure ?_
    have hlist : leastLevelsOfList (targets.map (·.expr)) ≤ n + 1 :=
      leastLevelsOfList_le (by simpa using hall)
    simp only [Action.leastLevels]
    omega
  · exact Ensures.fail _

theorem exprStatement : Ensures (fun a => a.leastLevels ≤ n + 1) l.exprStatement := by
  refine Ensures.bind h.suffixed fun first hfirst => Ensures.andThen fun t => ?_
  split
  · exact h.assignment hfirst
  · exact h.assignment hfirst
  · split
    · refine Ensures.pure ?_
      simpa only [Action.leastLevels] using hfirst
    · exact Ensures.throw _

theorem whileLoop : Ensures (fun a => a.leastLevels ≤ n + 1) l.whileLoop := by
  refine Ensures.bind h.expr fun condition hcondition => Ensures.andThen fun _ => ?_
  refine Ensures.bind h.closedBlock fun body hbody => Ensures.pure ?_
  simp only [Action.leastLevels]
  omega

theorem repeatLoop : Ensures (fun a => a.leastLevels ≤ n + 1) l.repeatLoop := by
  refine Ensures.bind h.block fun body hbody => Ensures.andThen fun _ => ?_
  refine Ensures.bind h.expr fun condition hcondition => Ensures.pure ?_
  simp only [Action.leastLevels]
  omega

theorem action (chunk : String) (t : Lexeme) :
    Ensures (fun a => a.leastLevels ≤ n + 1) (l.action chunk t) := by
  unfold Level.action
  split
  · exact Ensures.andThen fun _ => h.branch
  · exact Ensures.andThen fun _ => h.whileLoop
  · refine Ensures.andThen fun _ => Ensures.bind h.closedBlock fun body hbody => Ensures.pure ?_
    simp only [Action.leastLevels]
    omega
  · exact Ensures.andThen fun _ => h.repeatLoop
  · exact Ensures.andThen fun _ => h.forLoop
  · exact Ensures.andThen fun _ => h.definition chunk t.line
  · exact Ensures.andThen fun _ => h.declaration chunk t.line
  · refine Ensures.andThen fun _ => Ensures.pure ?_
    simp only [Action.leastLevels]
    omega
  · exact h.exprStatement

theorem statementBelow (chunk : String) :
    Ensures (fun s => s.leastLevels ≤ n + 1) (l.statementBelow chunk) := by
  refine Ensures.andThen fun t => Ensures.bind (h.action chunk t) fun a ha => Ensures.pure ?_
  simpa only [Stmt.leastLevels] using ha

end Within

end Level

/-- A level keeps within the number of levels that are left. -/
theorem level_within (chunk : String) (rounds n : Nat) : (level chunk rounds n).Within n := by
  induction n with
  | zero => exact ⟨Ensures.fail _, fun _ => Ensures.fail _⟩
  | succ n ih => exact ⟨ih.statementBelow chunk, ih.operandBelow chunk⟩

/-- A source that is accepted is not nested more deeply than there are levels. -/
theorem parseTokens_leastLevels {name : String} {ts : List Lexeme} {body : List Stmt}
    (h : parseTokens name ts = .ok body) : leastLevelsOfBlock body ≤ maxSyntaxLevels := by
  have hwhole : Ensures (fun body => leastLevelsOfBlock body ≤ maxSyntaxLevels)
      (wholeBlock (level name ts.length maxSyntaxLevels)) := by
    refine Ensures.bind (level_within name ts.length maxSyntaxLevels).block fun body hbody => ?_
    refine Ensures.andThen fun t => ?_
    split
    · exact Ensures.pure hbody
    · exact Ensures.throw _
  unfold parseTokens at h
  cases hrun : wholeBlock (level name ts.length maxSyntaxLevels) ts with
  | error e =>
      rw [hrun] at h
      cases h
  | ok r =>
      rw [hrun] at h
      cases h
      exact hwhole ts r.1 r.2 hrun

end Script

end PixelEffects
