import PixelEffects.Script.Syntax.Parser

/-!
# Precedence

Which expressions need no more parentheses than they have.

An operator stands between two operands, and each of them is a whole expression on its own. Written
one after the other they are read as they are meant only if nothing on the rim of an operand, where
it meets the operator, binds less strongly than the operator does. On the right rim of the left
operand there can be several operators, one inside the other, and each of them has to end there. The
left rim of the right operand needs a look at its first operator only: with what binds to the left
at least as strongly as to the right, the operators further down the rim bind more strongly still.
Parentheses shut off what is inside.

The conditions are those of one node on its parts. That all nodes of a tree meet a condition is said
once, for conditions of any kind.

## Main definitions

* `Expr.closes`, `Expr.opens`: What the right and the left rim of an expression have to be.
* `Expr.ranks`: The condition on a node.
* `Expr.isSimple`: Expressions that have no rims.
* `Stops`: An expression ends before a token.
* `Checks`, `Expr.every`, `everyStmt`: Conditions on the nodes of a tree, and that all meet them.
* `rankChecks`: The operators of a tree are read as they are meant.

## Theorems

* `BinaryOp.strength_snd_le`: No operator binds more strongly to its right than to its left.
-/

namespace PixelEffects

namespace Script

/-- No operator of the table binds more strongly to its right than to its left. -/
theorem BinaryOp.strength_snd_le (op : BinaryOp) : op.strength.2 ≤ op.strength.1 := by
  cases op <;> decide

namespace Expr

/-- Everything on the right rim ends before an operator that binds that strongly to its left. -/
def closes (strength : Nat) : Expr → Bool
  | binary op _ right => decide (strength ≤ op.strength.2) && right.closes strength
  | unary _ operand => decide (strength ≤ unaryStrength) && operand.closes strength
  | _ => true

/-- The expression stays together behind an operator that binds that strongly to its right. -/
def opens (strength : Nat) : Expr → Bool
  | binary op _ _ => decide (strength < op.strength.1)
  | _ => true

/-- An operator and its operands are read as they are meant. -/
def ranks : Expr → Bool
  | binary op left right => left.closes op.strength.1 && right.opens op.strength.2
  | unary _ operand => operand.opens unaryStrength
  | _ => true

/-- Whether an expression is one without operators of its own. -/
def isSimple : Expr → Bool
  | unary .. => false
  | binary .. => false
  | _ => true

/-- What is closed to an operator goes on to its left, if anything that binds like it does. -/
theorem opens_of_closes {e : Expr} {limit strength : Nat} (h : e.closes strength = true)
    (hlimit : limit < strength) : e.opens limit = true := by
  cases e with
  | binary op left right =>
      rw [closes, Bool.and_eq_true, decide_eq_true_eq] at h
      have hle := op.strength_snd_le
      rw [opens, decide_eq_true_eq]
      omega
  | _ => rfl

/-- With no operator in front, every expression stays together. -/
theorem opens_zero (e : Expr) : e.opens 0 = true := by
  cases e with
  | binary op left right => cases op <;> rfl
  | _ => rfl

theorem closes_of_isSimple {e : Expr} (h : e.isSimple = true) (strength : Nat) :
    e.closes strength = true := by
  cases e with
  | unary op operand => cases h
  | binary op left right => cases h
  | _ => rfl

theorem opens_of_isSimple {e : Expr} (h : e.isSimple = true) (strength : Nat) :
    e.opens strength = true := by
  cases e with
  | unary op operand => cases h
  | binary op left right => cases h
  | _ => rfl

end Expr

/-- An expression that is read up to a limit ends before a token: no operator comes next that binds
    more strongly to its left than the limit, or than something on the right rim. -/
def Stops (limit : Nat) (e : Expr) (t : Token) : Prop :=
  ∀ op, Level.binaryOp? t = some op → op.strength.1 ≤ limit ∧ e.closes op.strength.1 = true

/-- Conditions on the nodes of a tree: on expressions, on what statements do, and on a statement with
    those that come after it. -/
structure Checks where
  expr : Expr → Bool
  action : Action → Bool
  follows : Stmt → List Stmt → Bool

mutual

/-- All nodes of an expression meet their conditions. -/
def Expr.every (c : Checks) : Expr → Bool
  | .nil => c.expr .nil
  | .bool b => c.expr (.bool b)
  | .number x => c.expr (.number x)
  | .text s => c.expr (.text s)
  | .function f => c.expr (.function f) && f.every c
  | .name x => c.expr (.name x)
  | .index object key => c.expr (.index object key) && (object.every c && key.every c)
  | .call callee args => c.expr (.call callee args) && (callee.every c && everyExpr c args)
  | .method object name args =>
    c.expr (.method object name args) && (object.every c && everyExpr c args)
  | .table fields => c.expr (.table fields) && everyField c fields
  | .unary op operand => c.expr (.unary op operand) && operand.every c
  | .binary op left right => c.expr (.binary op left right) && (left.every c && right.every c)
  | .paren inner => c.expr (.paren inner) && inner.every c

/-- All nodes of several expressions do. -/
def everyExpr (c : Checks) : List Expr → Bool
  | [] => true
  | e :: es => e.every c && everyExpr c es

/-- All nodes of an entry do. -/
def Field.every (c : Checks) : Field → Bool
  | .named _ value => value.every c
  | .keyed key value => key.every c && value.every c
  | .item value => value.every c

/-- All nodes of a table constructor do. -/
def everyField (c : Checks) : List Field → Bool
  | [] => true
  | f :: fs => f.every c && everyField c fs

/-- All nodes of a function do. -/
def Function.every (c : Checks) : Function → Bool
  | .mk _ _ body _ _ => everyStmt c body

/-- All nodes of a condition and its block do. -/
def Arm.every (c : Checks) : Arm → Bool
  | .mk condition body => condition.every c && everyStmt c body

/-- All nodes of several conditions and their blocks do. -/
def everyArm (c : Checks) : List Arm → Bool
  | [] => true
  | a :: arms => a.every c && everyArm c arms

/-- All nodes of what a statement does do. -/
def Action.every (c : Checks) : Action → Bool
  | .declare names values => c.action (.declare names values) && everyExpr c values
  | .assign targets values =>
    c.action (.assign targets values) && (everyExpr c targets && everyExpr c values)
  | .call e => c.action (.call e) && e.every c
  | .block body => c.action (.block body) && everyStmt c body
  | .branch arms none => c.action (.branch arms none) && everyArm c arms
  | .branch arms (some otherwise) =>
    c.action (.branch arms (some otherwise)) && (everyArm c arms && everyStmt c otherwise)
  | .whileLoop condition body =>
    c.action (.whileLoop condition body) && (condition.every c && everyStmt c body)
  | .repeatLoop body condition =>
    c.action (.repeatLoop body condition) && (everyStmt c body && condition.every c)
  | .countLoop counter start limit none body =>
    c.action (.countLoop counter start limit none body) &&
      (start.every c && (limit.every c && everyStmt c body))
  | .countLoop counter start limit (some step) body =>
    c.action (.countLoop counter start limit (some step) body) &&
      (start.every c && (limit.every c && (step.every c && everyStmt c body)))
  | .eachLoop names exprs body =>
    c.action (.eachLoop names exprs body) && (everyExpr c exprs && everyStmt c body)
  | .define root path isMethod f => c.action (.define root path isMethod f) && f.every c
  | .declareFunction name f => c.action (.declareFunction name f) && f.every c
  | .returnValues values => c.action (.returnValues values) && everyExpr c values
  | .breakLoop => c.action .breakLoop

/-- All nodes of a statement do. -/
def Stmt.every (c : Checks) : Stmt → Bool
  | .mk _ action => action.every c

/-- All nodes of a block do. -/
def everyStmt (c : Checks) : List Stmt → Bool
  | [] => true
  | s :: rest => c.follows s rest && (s.every c && everyStmt c rest)

end

section Nodes

variable {c : Checks}

theorem Expr.expr_of_every {e : Expr} (h : e.every c = true) : c.expr e = true := by
  cases e with
  | nil => exact h
  | bool b => exact h
  | number x => exact h
  | text s => exact h
  | name x => exact h
  | _ =>
      rw [Expr.every, Bool.and_eq_true] at h
      exact h.1

theorem Action.action_of_every {a : Action} (h : a.every c = true) : c.action a = true := by
  cases a with
  | breakLoop => exact h
  | branch arms otherwise =>
      cases otherwise <;> rw [Action.every, Bool.and_eq_true] at h <;> exact h.1
  | countLoop counter start limit step body =>
      cases step <;> rw [Action.every, Bool.and_eq_true] at h <;> exact h.1
  | _ =>
      rw [Action.every, Bool.and_eq_true] at h
      exact h.1

theorem everyExpr_iff {es : List Expr} :
    everyExpr c es = true ↔ ∀ e ∈ es, e.every c = true := by
  induction es with
  | nil => exact ⟨fun _ _ h => (List.not_mem_nil h).elim, fun _ => rfl⟩
  | cons e es ih => rw [everyExpr, Bool.and_eq_true, ih, List.forall_mem_cons]

theorem everyField_iff {fs : List Field} :
    everyField c fs = true ↔ ∀ f ∈ fs, f.every c = true := by
  induction fs with
  | nil => exact ⟨fun _ _ h => (List.not_mem_nil h).elim, fun _ => rfl⟩
  | cons f fs ih => rw [everyField, Bool.and_eq_true, ih, List.forall_mem_cons]

theorem everyArm_iff {arms : List Arm} :
    everyArm c arms = true ↔ ∀ a ∈ arms, a.every c = true := by
  induction arms with
  | nil => exact ⟨fun _ _ h => (List.not_mem_nil h).elim, fun _ => rfl⟩
  | cons a arms ih => rw [everyArm, Bool.and_eq_true, ih, List.forall_mem_cons]

end Nodes

/-- Where a statement stands does not matter to conditions that do not look at it. -/
theorem everyStmt_iff {c : Checks} (hfollows : ∀ s rest, c.follows s rest = true)
    {stmts : List Stmt} : everyStmt c stmts = true ↔ ∀ s ∈ stmts, s.every c = true := by
  induction stmts with
  | nil => exact ⟨fun _ _ h => (List.not_mem_nil h).elim, fun _ => rfl⟩
  | cons s stmts ih =>
      rw [everyStmt, hfollows, Bool.true_and, Bool.and_eq_true, ih, List.forall_mem_cons]

/-- The operators of a tree stand with operands that are read as they are meant. -/
def rankChecks : Checks :=
  ⟨Expr.ranks, fun _ => true, fun _ _ => true⟩

theorem everyStmt_rankChecks {stmts : List Stmt} :
    everyStmt rankChecks stmts = true ↔ ∀ s ∈ stmts, s.every rankChecks = true :=
  everyStmt_iff fun _ _ => rfl

end Script

end PixelEffects
