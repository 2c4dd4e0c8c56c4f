import PixelEffects.Script.Syntax

/-!
# Reach

How many blocks and expressions evaluation has under way at once, told from the text.

Evaluation goes down the syntax tree, and each block and each expression of which one value is wanted
counts while it is evaluated. So the counter never goes further up than the tree goes down. For
expressions that is their height. The reach of a statement adds the blocks in it to the heights, one
for each block around what is evaluated. The body of a `repeat` is not counted, so it adds nothing.

A function that is made is not entered, and its body is a leaf here. When it is called, the counter
starts from wherever the call is. What the bodies of functions need is therefore measured apart: it
is the largest reach of a body anywhere in the text, functions in functions included.

## Main definitions

* `Action.reach`, `Stmt.reach` and the others: How far a statement goes down by itself.
* `Function.reach`: The same for a function that is called.
* `Expr.bodies`, `Action.bodies` and the others: The largest reach of a function in the text.

## Theorems

* `Expr.height_pos`: Every expression counts.
-/

namespace PixelEffects

namespace Script

variable {ν : Type}

theorem Expr.height_pos (e : Expr ν) : 0 < e.height := by
  cases e <;> simp only [Expr.height] <;> omega

mutual

/-- How many counted regions may be open at once inside of what a statement does. -/
def Action.reach : Action ν → Nat
  | .declare _ values => heightOfList values
  | .assign targets values => max (heightOfList targets) (heightOfList values)
  | .call expr => expr.height
  | .block body => reachOfBlock body + 1
  | .branch arms none => reachOfArms arms
  | .branch arms (some otherwise) => max (reachOfArms arms) (reachOfBlock otherwise + 1)
  | .whileLoop condition body => max condition.height (reachOfBlock body + 1)
  | .repeatLoop body condition => max (reachOfBlock body) condition.height
  | .countLoop _ start limit none body =>
    max (max start.height limit.height) (reachOfBlock body + 1)
  | .countLoop _ start limit (some step) body =>
    max (max start.height limit.height) (max step.height (reachOfBlock body + 1))
  | .eachLoop _ exprs body => max (heightOfList exprs) (reachOfBlock body + 1)
  | .define .. => 0
  | .declareFunction .. => 0
  | .returnValues values => heightOfList values
  | .breakLoop => 0

/-- The reach of a statement. -/
def Stmt.reach : Stmt ν → Nat
  | .mk _ action => action.reach

/-- The reach of the statements of a block, without the block itself. -/
def reachOfBlock : List (Stmt ν) → Nat
  | [] => 0
  | s :: rest => max s.reach (reachOfBlock rest)

/-- The reach of conditions and their blocks. -/
def reachOfArms : List (Arm ν) → Nat
  | [] => 0
  | .mk condition body :: arms => max (max condition.height (reachOfBlock body + 1)) (reachOfArms arms)

end

/-- The reach of a function that is called: its body is a block. -/
def Function.reach : Function ν → Nat
  | .mk _ _ body _ _ => reachOfBlock body + 1

mutual

/-- The largest reach of a function in an expression. -/
def Expr.bodies : Expr ν → Nat
  | .nil | .bool _ | .number _ | .text _ | .name _ => 0
  | .function definition => definition.bodies
  | .index object key => max object.bodies key.bodies
  | .call callee args => max callee.bodies (bodiesOfList args)
  | .method object _ args => max object.bodies (bodiesOfList args)
  | .table fields => bodiesOfFields fields
  | .unary _ operand => operand.bodies
  | .binary _ left right => max left.bodies right.bodies
  | .paren inner => inner.bodies

/-- The largest reach of a function in several expressions. -/
def bodiesOfList : List (Expr ν) → Nat
  | [] => 0
  | e :: es => max e.bodies (bodiesOfList es)

/-- The largest reach of a function in the entries of a table constructor. -/
def bodiesOfFields : List (Field ν) → Nat
  | [] => 0
  | f :: fs => max f.bodies (bodiesOfFields fs)

/-- The largest reach of a function in an entry. -/
def Field.bodies : Field ν → Nat
  | .named _ value => value.bodies
  | .keyed key value => max key.bodies value.bodies
  | .item value => value.bodies

/-- The larger of the reach of a function and that of the functions in it. -/
def Function.bodies : Function ν → Nat
  | .mk _ _ body _ _ => max (reachOfBlock body + 1) (bodiesOfBlock body)

/-- The largest reach of a function in a block. -/
def bodiesOfBlock : List (Stmt ν) → Nat
  | [] => 0
  | s :: rest => max s.bodies (bodiesOfBlock rest)

/-- The largest reach of a function in conditions and their blocks. -/
def bodiesOfArms : List (Arm ν) → Nat
  | [] => 0
  | .mk condition body :: arms =>
    max (max condition.bodies (bodiesOfBlock body)) (bodiesOfArms arms)

/-- The largest reach of a function in a statement. -/
def Stmt.bodies : Stmt ν → Nat
  | .mk _ action => action.bodies

/-- The largest reach of a function in what a statement does. -/
def Action.bodies : Action ν → Nat
  | .declare _ values => bodiesOfList values
  | .assign targets values => max (bodiesOfList targets) (bodiesOfList values)
  | .call expr => expr.bodies
  | .block body => bodiesOfBlock body
  | .branch arms none => bodiesOfArms arms
  | .branch arms (some otherwise) => max (bodiesOfArms arms) (bodiesOfBlock otherwise)
  | .whileLoop condition body => max condition.bodies (bodiesOfBlock body)
  | .repeatLoop body condition => max (bodiesOfBlock body) condition.bodies
  | .countLoop _ start limit none body =>
    max (max start.bodies limit.bodies) (bodiesOfBlock body)
  | .countLoop _ start limit (some step) body =>
    max (max start.bodies limit.bodies) (max step.bodies (bodiesOfBlock body))
  | .eachLoop _ exprs body => max (bodiesOfList exprs) (bodiesOfBlock body)
  | .define _ _ _ definition => definition.bodies
  | .declareFunction _ definition => definition.bodies
  | .returnValues values => bodiesOfList values
  | .breakLoop => 0

end

end Script

end PixelEffects
