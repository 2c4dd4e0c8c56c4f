import PixelEffects.Script.Syntax

/-!
# Slack

How far evaluation can go down a syntax tree without being counted.

The machine counts blocks and expressions that are being evaluated, with two exceptions: the body of
a `repeat`, and a call of which all results are wanted. The slack of a piece of syntax is how many
of these can be open at once while it is evaluated, one inside the other. The bodies of functions
that it makes are included, since they are nested in the text like everything else.

## Main definitions

* `Expr.slack`, `Action.slack`, `Function.slack` and the others: The slack of each kind of syntax.
-/

namespace PixelEffects

namespace Script

variable {ν : Type}

mutual

/-- The slack of an expression of which one value is wanted. -/
def Expr.slack : Expr ν → Nat
  | .nil | .bool _ | .number _ | .text _ | .name _ => 0
  | .function definition => definition.slack
  | .index object key => max object.slack key.slack
  | .call callee args => max callee.slack (slackOfList args)
  | .method object _ args => max object.slack (slackOfList args)
  | .table fields => slackOfFields fields
  | .unary _ operand => operand.slack
  | .binary _ left right => max left.slack right.slack
  | .paren inner => inner.slack

/-- The slack of expressions of which all results may be wanted. -/
def slackOfList : List (Expr ν) → Nat
  | [] => 0
  | e :: es => max (e.slack + e.isMulti.toNat) (slackOfList es)

/-- The slack of the entries of a table constructor. -/
def slackOfFields : List (Field ν) → Nat
  | [] => 0
  | f :: fs => max f.slack (slackOfFields fs)

/-- The slack of an entry. -/
def Field.slack : Field ν → Nat
  | .named _ value => value.slack
  | .keyed key value => max key.slack value.slack
  | .item value => value.slack + value.isMulti.toNat

/-- The slack of a function is that of its body. -/
def Function.slack : Function ν → Nat
  | .mk _ _ body _ _ => slackOfBlock body

/-- The slack of a block. -/
def slackOfBlock : List (Stmt ν) → Nat
  | [] => 0
  | s :: rest => max s.slack (slackOfBlock rest)

/-- The slack of conditions and their blocks. -/
def slackOfArms : List (Arm ν) → Nat
  | [] => 0
  | .mk condition body :: arms => max (max condition.slack (slackOfBlock body)) (slackOfArms arms)

/-- The slack of a statement. -/
def Stmt.slack : Stmt ν → Nat
  | .mk _ action => action.slack

/-- The slack of what a statement does. The body of a `repeat` adds one. -/
def Action.slack : Action ν → Nat
  | .declare _ values => slackOfList values
  | .assign targets values => max (slackOfList targets) (slackOfList values)
  | .call expr => expr.slack + expr.isMulti.toNat
  | .block body => slackOfBlock body
  | .branch arms none => slackOfArms arms
  | .branch arms (some otherwise) => max (slackOfArms arms) (slackOfBlock otherwise)
  | .whileLoop condition body => max condition.slack (slackOfBlock body)
  | .repeatLoop body condition => max (slackOfBlock body + 1) condition.slack
  | .countLoop _ start limit none body =>
    max (max start.slack limit.slack) (slackOfBlock body)
  | .countLoop _ start limit (some step) body =>
    max (max start.slack limit.slack) (max step.slack (slackOfBlock body))
  | .eachLoop _ exprs body => max (slackOfList exprs) (slackOfBlock body)
  | .define _ _ _ definition => definition.slack
  | .declareFunction _ definition => definition.slack
  | .returnValues values => slackOfList values
  | .breakLoop => 0

end

end Script

end PixelEffects
