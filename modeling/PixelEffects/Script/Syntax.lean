import PixelEffects.Script.Token

/-!
# Syntax Trees

What a script says, once it is parsed.

Expressions, statements and function bodies contain one another, so they are one mutual family. A
statement keeps the line that it starts on, and a function the chunk and the line that it was
defined in: faults are reported there. Parentheses are kept as a node of their own, because they cut
a call down to its first result.

The family has a parameter: what stands where a variable is meant. In a parsed source that is a
name, and the parameter need not be given. Names that are declared are always names, and so are the
fields of tables and the methods; they are not looked up among the variables.

Every operator has two binding strengths, one toward each side. An operand belongs to the side that
binds it more strongly, and an operator with a weaker right side than left side groups to the right.

## Main definitions

* `Expr`, `Field`, `Stmt`, `Action`, `Arm`, `Function`: The mutual family.
* `UnaryOp`, `BinaryOp`: Operators, with `BinaryOp.strength` and `unaryStrength`.
* `Expr.isMulti`: Expressions that can have several results.
* `Expr.height`, `Expr.heightWithin`: The height of an expression, with function bodies as leaves.
* `Chunk`: A parsed source.
-/

namespace PixelEffects

namespace Script

/-- Operators in front of an operand. -/
inductive UnaryOp
  | neg | not | len
deriving Repr, DecidableEq

/-- Operators between two operands. -/
inductive BinaryOp
  | add | sub | mul | div | floorDiv | mod | pow | concat
  | eq | ne | lt | le | gt | ge
  | and | or
deriving Repr, DecidableEq

mutual

/-- An expression. -/
inductive Expr (ν : Type := String)
  | nil
  | bool (value : Bool)
  | number (value : Float)
  | text (value : String)
  | function (definition : Function ν)
  | name (name : ν)
  | index (object key : Expr ν)
  | call (callee : Expr ν) (args : List (Expr ν))
  | method (object : Expr ν) (name : String) (args : List (Expr ν))
  | table (fields : List (Field ν))
  | unary (op : UnaryOp) (operand : Expr ν)
  | binary (op : BinaryOp) (left right : Expr ν)
  | paren (inner : Expr ν)

/-- An entry of a table constructor. -/
inductive Field (ν : Type := String)
  | named (name : String) (value : Expr ν)
  | keyed (key value : Expr ν)
  | item (value : Expr ν)

/-- A function with its name, its parameters, its body, and the chunk and line that define it. -/
inductive Function (ν : Type := String)
  | mk (name : String) (params : List String) (body : List (Stmt ν)) (chunk : String) (line : Nat)

/-- A condition and the block that it guards. -/
inductive Arm (ν : Type := String)
  | mk (condition : Expr ν) (body : List (Stmt ν))

/-- What a statement does. A function is defined under a path of names, of which the first is that
    of a variable. -/
inductive Action (ν : Type := String)
  | declare (names : List String) (values : List (Expr ν))
  | assign (targets values : List (Expr ν))
  | call (expr : Expr ν)
  | block (body : List (Stmt ν))
  | branch (arms : List (Arm ν)) (otherwise : Option (List (Stmt ν)))
  | whileLoop (condition : Expr ν) (body : List (Stmt ν))
  | repeatLoop (body : List (Stmt ν)) (condition : Expr ν)
  | countLoop (counter : String) (start limit : Expr ν) (step : Option (Expr ν))
      (body : List (Stmt ν))
  | eachLoop (names : List String) (exprs : List (Expr ν)) (body : List (Stmt ν))
  | define (root : ν) (path : List String) (isMethod : Bool) (definition : Function ν)
  | declareFunction (name : String) (definition : Function ν)
  | returnValues (values : List (Expr ν))
  | breakLoop

/-- A statement and the line that it starts on. -/
inductive Stmt (ν : Type := String)
  | mk (line : Nat) (action : Action ν)

end

variable {ν : Type}

namespace Function

/-- The name that a function was defined under. -/
def name : Function ν → String
  | mk name _ _ _ _ => name

/-- The parameters of a function. -/
def params : Function ν → List String
  | mk _ params _ _ _ => params

/-- The statements of a function. -/
def body : Function ν → List (Stmt ν)
  | mk _ _ body _ _ => body

/-- The chunk that defines a function. -/
def chunk : Function ν → String
  | mk _ _ _ chunk _ => chunk

/-- The line that a function is defined on. -/
def line : Function ν → Nat
  | mk _ _ _ _ line => line

end Function

/-- How strongly a unary operator binds its operand. -/
def unaryStrength : Nat := 12

namespace BinaryOp

/-- How strongly an operator binds to its left and to its right. -/
def strength : BinaryOp → Nat × Nat
  | or => (1, 1)
  | and => (2, 2)
  | lt | le | gt | ge | eq | ne => (3, 3)
  | concat => (9, 8)
  | add | sub => (10, 10)
  | mul | div | floorDiv | mod => (11, 11)
  | pow => (14, 13)

/-- The mark that an operator is written with. -/
def mark : BinaryOp → Mark
  | add => .plus
  | sub => .minus
  | mul => .star
  | div => .slash
  | floorDiv => .slashSlash
  | mod => .percent
  | pow => .caret
  | concat => .dotDot
  | eq => .eqEq
  | ne => .ne
  | lt => .lt
  | le => .le
  | gt => .gt
  | ge => .ge
  | and => .andWord
  | or => .orWord

/-- The operator that a mark stands for between two operands. -/
def ofMark? : Mark → Option BinaryOp
  | .plus => some add
  | .minus => some sub
  | .star => some mul
  | .slash => some div
  | .slashSlash => some floorDiv
  | .percent => some mod
  | .caret => some pow
  | .dotDot => some concat
  | .eqEq => some eq
  | .ne => some ne
  | .lt => some lt
  | .le => some le
  | .gt => some gt
  | .ge => some ge
  | .andWord => some and
  | .orWord => some or
  | _ => none

theorem ofMark?_mark (op : BinaryOp) : ofMark? op.mark = some op := by
  cases op <;> rfl

end BinaryOp

namespace UnaryOp

/-- The mark that an operator is written with. -/
def mark : UnaryOp → Mark
  | neg => .minus
  | not => .notWord
  | len => .hash

/-- The operator that a mark stands for in front of an operand. -/
def ofMark? : Mark → Option UnaryOp
  | .minus => some neg
  | .notWord => some not
  | .hash => some len
  | _ => none

theorem ofMark?_mark (op : UnaryOp) : ofMark? op.mark = some op := by
  cases op <;> rfl

end UnaryOp

namespace Expr

/-- Whether an expression can have several results: only calls can. -/
def isMulti : Expr ν → Bool
  | call .. => true
  | method .. => true
  | _ => false

/-- Whether a value can be stored in an expression: names and entries of tables. -/
def isAssignable : Expr ν → Bool
  | name _ => true
  | index .. => true
  | _ => false

end Expr

mutual

/-- The height of an expression. A function is a leaf, whatever its body holds. -/
def Expr.height : Expr ν → Nat
  | .nil | .bool _ | .number _ | .text _ | .function _ | .name _ => 1
  | .index object key => max object.height key.height + 1
  | .call callee args => max callee.height (heightOfList args) + 1
  | .method object _ args => max object.height (heightOfList args) + 1
  | .table fields => heightOfFields fields + 1
  | .unary _ operand => operand.height + 1
  | .binary _ left right => max left.height right.height + 1
  | .paren inner => inner.height + 1

/-- The height of the tallest expression of a list. -/
def heightOfList : List (Expr ν) → Nat
  | [] => 0
  | e :: es => max e.height (heightOfList es)

/-- The height of the tallest expression in a table constructor. -/
def heightOfFields : List (Field ν) → Nat
  | [] => 0
  | f :: fs => max f.height (heightOfFields fs)

/-- The height of the tallest expression of an entry. -/
def Field.height : Field ν → Nat
  | .named _ value => value.height
  | .keyed key value => max key.height value.height
  | .item value => value.height

end

mutual

/-- The height of an expression as far as a cap, beyond which nothing is looked at. -/
def Expr.heightWithin (cap : Nat) (e : Expr ν) : Nat :=
  if cap ≤ 1 then cap
  else
    min cap <| match e with
      | .nil | .bool _ | .number _ | .text _ | .function _ | .name _ => 1
      | .index object key => max (object.heightWithin (cap - 1)) (key.heightWithin (cap - 1)) + 1
      | .call callee args =>
        max (callee.heightWithin (cap - 1)) (heightOfListWithin (cap - 1) args) + 1
      | .method object _ args =>
        max (object.heightWithin (cap - 1)) (heightOfListWithin (cap - 1) args) + 1
      | .table fields => heightOfFieldsWithin (cap - 1) fields + 1
      | .unary _ operand => operand.heightWithin (cap - 1) + 1
      | .binary _ left right => max (left.heightWithin (cap - 1)) (right.heightWithin (cap - 1)) + 1
      | .paren inner => inner.heightWithin (cap - 1) + 1
termination_by structural e

/-- The height of the tallest expression of a list, as far as a cap. -/
def heightOfListWithin (cap : Nat) (es : List (Expr ν)) : Nat :=
  match es with
  | [] => 0
  | e :: es => max (e.heightWithin cap) (heightOfListWithin cap es)
termination_by structural es

/-- The height of the tallest expression in a table constructor, as far as a cap. -/
def heightOfFieldsWithin (cap : Nat) (fields : List (Field ν)) : Nat :=
  match fields with
  | [] => 0
  | f :: fs => max (f.heightWithin cap) (heightOfFieldsWithin cap fs)
termination_by structural fields

/-- The height of the tallest expression of an entry, as far as a cap. -/
def Field.heightWithin (cap : Nat) (field : Field ν) : Nat :=
  match field with
  | .named _ value => value.heightWithin cap
  | .keyed key value => max (key.heightWithin cap) (value.heightWithin cap)
  | .item value => value.heightWithin cap
termination_by structural field

end

/-- A parsed source and the name that faults in it carry. -/
structure Chunk (ν : Type := String) where
  name : String
  body : List (Stmt ν)

end Script

end PixelEffects
