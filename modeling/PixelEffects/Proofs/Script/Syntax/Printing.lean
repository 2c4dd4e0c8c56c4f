import PixelEffects.Proofs.Script.Syntax.Precedence

/-!
# Printing

The tokens that a syntax tree is written with.

There is one way for each kind of node. Statements are separated by semicolons, entries of a table
and everything else that is listed by commas, entries are looked up with brackets, and arguments
stand in parentheses. No parentheses are added: those that an expression needs are nodes of it.

Not every tree can be written. A tree that was parsed has properties that the types do not have: there
is at least one target in an assignment, what is called or looked into is not a number, a function
knows the name under which it was defined, nothing stands behind a return, and so on. They are
conditions on single nodes (`printChecks`). Besides, operators have to stand with operands that are
read as they are meant, expressions are not too tall, and nothing is nested too deeply. For the last
of these, the levels of a tree are those that the parser enters: one for each statement, the return
apart, and one for each operand, with the left operands of an operator on the level of the whole.

Lines are not written, and so a tree can only be recovered up to them.

## Main definitions

* `joined`: Lists of tokens with a mark between them.
* `Expr.tokens`, `Action.tokens`, `blockTokens` and others: What is written.
* `Expr.levels`, `Stmt.levels`, `levelsOfBlock` and others: How deeply a tree is nested.
* `Expr.unlined`, `unlinedBlock` and others: Trees without lines.
* `printChecks`: The conditions on trees that can be written.
-/

namespace PixelEffects

namespace Script

/-- Several lists of tokens with a mark between them. -/
def joined (separator : Mark) : List (List Token) → List Token
  | [] => []
  | u :: rest => u ++ rest.flatMap (.mark separator :: ·)

theorem joined_singleton (separator : Mark) (u : List Token) : joined separator [u] = u :=
  List.append_nil u

theorem joined_cons_cons (separator : Mark) (u v : List Token) (rest : List (List Token)) :
    joined separator (u :: v :: rest) = u ++ .mark separator :: joined separator (v :: rest) := by
  rw [joined, joined, List.flatMap_cons, List.cons_append]

/-- The token that a name is. -/
def nameTokens (word : String) : List Token :=
  [.name word]

/-- The path of a function: for a method, with a colon in front of the last name. -/
def pathTokens (path : List String) (isMethod : Bool) : List Token :=
  if isMethod then
    joined .dot (path.dropLast.map nameTokens) ++ [.mark .colon, .name (path.getLastD "")]
  else joined .dot (path.map nameTokens)

mutual

/-- What an expression is written with. -/
def Expr.tokens : Expr → List Token
  | .nil => [.mark .nilWord]
  | .bool true => [.mark .trueWord]
  | .bool false => [.mark .falseWord]
  | .number x => [.number x]
  | .text s => [.text s]
  | .function f => .mark .functionWord :: f.tokens false
  | .name x => [.name x]
  | .index object key =>
    object.tokens ++ .mark .lBracket :: (key.tokens ++ [.mark .rBracket])
  | .call callee args =>
    callee.tokens ++ .mark .lParen :: (joined .comma (tokensOfExprs args) ++ [.mark .rParen])
  | .method object name args =>
    object.tokens ++ .mark .colon :: .name name :: .mark .lParen ::
      (joined .comma (tokensOfExprs args) ++ [.mark .rParen])
  | .table fields => .mark .lBrace :: (joined .comma (tokensOfFields fields) ++ [.mark .rBrace])
  | .unary op operand => .mark op.mark :: operand.tokens
  | .binary op left right => left.tokens ++ .mark op.mark :: right.tokens
  | .paren inner => .mark .lParen :: (inner.tokens ++ [.mark .rParen])

/-- What each of several expressions is written with. -/
def tokensOfExprs : List Expr → List (List Token)
  | [] => []
  | e :: es => e.tokens :: tokensOfExprs es

/-- What an entry of a table constructor is written with. -/
def Field.tokens : Field → List Token
  | .named name value => .name name :: .mark .assign :: value.tokens
  | .keyed key value =>
    .mark .lBracket :: (key.tokens ++ .mark .rBracket :: .mark .assign :: value.tokens)
  | .item value => value.tokens

/-- What each entry of a table constructor is written with. -/
def tokensOfFields : List Field → List (List Token)
  | [] => []
  | f :: fs => f.tokens :: tokensOfFields fs

/-- What a function is written with, from its parameters on. A method does not write its first. -/
def Function.tokens (isMethod : Bool) : Function → List Token
  | .mk _ params body _ _ =>
    .mark .lParen ::
      (joined .comma ((if isMethod then params.drop 1 else params).map nameTokens) ++
        .mark .rParen :: (joined .semi (tokensOfStmts body) ++ [.mark .endWord]))

/-- What a condition and its block are written with. -/
def Arm.tokens : Arm → List Token
  | .mk condition body => condition.tokens ++ .mark .thenWord :: joined .semi (tokensOfStmts body)

/-- What each condition with its block is written with. -/
def tokensOfArms : List Arm → List (List Token)
  | [] => []
  | a :: arms => a.tokens :: tokensOfArms arms

/-- What a statement is written with, by what it does. -/
def Action.tokens : Action → List Token
  | .declare names [] => .mark .localWord :: joined .comma (names.map nameTokens)
  | .declare names (value :: values) =>
    .mark .localWord :: (joined .comma (names.map nameTokens) ++
      .mark .assign :: joined .comma (value.tokens :: tokensOfExprs values))
  | .assign targets values =>
    joined .comma (tokensOfExprs targets) ++ .mark .assign :: joined .comma (tokensOfExprs values)
  | .call e => e.tokens
  | .block body => .mark .doWord :: (joined .semi (tokensOfStmts body) ++ [.mark .endWord])
  | .branch arms none =>
    .mark .ifWord :: (joined .elseIfWord (tokensOfArms arms) ++ [.mark .endWord])
  | .branch arms (some otherwise) =>
    .mark .ifWord :: (joined .elseIfWord (tokensOfArms arms) ++
      .mark .elseWord :: (joined .semi (tokensOfStmts otherwise) ++ [.mark .endWord]))
  | .whileLoop condition body =>
    .mark .whileWord :: (condition.tokens ++
      .mark .doWord :: (joined .semi (tokensOfStmts body) ++ [.mark .endWord]))
  | .repeatLoop body condition =>
    .mark .repeatWord :: (joined .semi (tokensOfStmts body) ++ .mark .untilWord :: condition.tokens)
  | .countLoop counter start limit none body =>
    .mark .forWord :: .name counter :: .mark .assign :: (start.tokens ++
      .mark .comma :: (limit.tokens ++
        .mark .doWord :: (joined .semi (tokensOfStmts body) ++ [.mark .endWord])))
  | .countLoop counter start limit (some step) body =>
    .mark .forWord :: .name counter :: .mark .assign :: (start.tokens ++
      .mark .comma :: (limit.tokens ++ .mark .comma :: (step.tokens ++
        .mark .doWord :: (joined .semi (tokensOfStmts body) ++ [.mark .endWord]))))
  | .eachLoop names exprs body =>
    .mark .forWord :: (joined .comma (names.map nameTokens) ++
      .mark .inWord :: (joined .comma (tokensOfExprs exprs) ++
        .mark .doWord :: (joined .semi (tokensOfStmts body) ++ [.mark .endWord])))
  | .define _ path isMethod f =>
    .mark .functionWord :: (pathTokens path isMethod ++ f.tokens isMethod)
  | .declareFunction name f =>
    .mark .localWord :: .mark .functionWord :: .name name :: f.tokens false
  | .returnValues values => .mark .returnWord :: joined .comma (tokensOfExprs values)
  | .breakLoop => [.mark .breakWord]

/-- What a statement is written with. -/
def Stmt.tokens : Stmt → List Token
  | .mk _ action => action.tokens

/-- What each statement of a block is written with. -/
def tokensOfStmts : List Stmt → List (List Token)
  | [] => []
  | s :: stmts => s.tokens :: tokensOfStmts stmts

end

/-- What a block is written with. -/
def blockTokens (body : List Stmt) : List Token :=
  joined .semi (tokensOfStmts body)

mutual

/-- The levels of an expression. -/
def Expr.levels : Expr → Nat
  | .nil | .bool _ | .number _ | .text _ | .name _ => 1
  | .function f => f.levels + 1
  | .index object key => max object.levels (key.levels + 1)
  | .call callee args => max callee.levels (levelsOfExprs args + 1)
  | .method object _ args => max object.levels (levelsOfExprs args + 1)
  | .table fields => levelsOfFields fields + 1
  | .unary _ operand => operand.levels + 1
  | .binary _ left right => max left.levels (right.levels + 1)
  | .paren inner => inner.levels + 1

/-- The levels of the deepest of several expressions. -/
def levelsOfExprs : List Expr → Nat
  | [] => 0
  | e :: es => max e.levels (levelsOfExprs es)

/-- The levels of an entry. -/
def Field.levels : Field → Nat
  | .named _ value => value.levels
  | .keyed key value => max key.levels value.levels
  | .item value => value.levels

/-- The levels of the deepest of several entries. -/
def levelsOfFields : List Field → Nat
  | [] => 0
  | f :: fs => max f.levels (levelsOfFields fs)

/-- The levels of the body of a function. -/
def Function.levels : Function → Nat
  | .mk _ _ body _ _ => levelsOfBlock body

/-- The levels of a condition and its block. -/
def Arm.levels : Arm → Nat
  | .mk condition body => max condition.levels (levelsOfBlock body)

/-- The levels of the deepest of several conditions and their blocks. -/
def levelsOfArms : List Arm → Nat
  | [] => 0
  | a :: arms => max a.levels (levelsOfArms arms)

/-- The levels of a statement, by what it does. A target or a call is on the level of its statement,
    and a return has no level of its own. -/
def Action.levels : Action → Nat
  | .declare _ values => levelsOfExprs values + 1
  | .assign targets values => max (levelsOfExprs targets) (levelsOfExprs values + 1)
  | .call e => e.levels
  | .block body => levelsOfBlock body + 1
  | .branch arms none => levelsOfArms arms + 1
  | .branch arms (some otherwise) => max (levelsOfArms arms) (levelsOfBlock otherwise) + 1
  | .whileLoop condition body => max condition.levels (levelsOfBlock body) + 1
  | .repeatLoop body condition => max (levelsOfBlock body) condition.levels + 1
  | .countLoop _ start limit none body =>
    max start.levels (max limit.levels (levelsOfBlock body)) + 1
  | .countLoop _ start limit (some step) body =>
    max start.levels (max limit.levels (max step.levels (levelsOfBlock body))) + 1
  | .eachLoop _ exprs body => max (levelsOfExprs exprs) (levelsOfBlock body) + 1
  | .define _ _ _ f => f.levels + 1
  | .declareFunction _ f => f.levels + 1
  | .returnValues values => levelsOfExprs values
  | .breakLoop => 1

/-- The levels of a statement. -/
def Stmt.levels : Stmt → Nat
  | .mk _ action => action.levels

/-- The levels of the deepest statement of a block. -/
def levelsOfBlock : List Stmt → Nat
  | [] => 0
  | s :: stmts => max s.levels (levelsOfBlock stmts)

end

mutual

/-- An expression without lines. -/
def Expr.unlined : Expr → Expr
  | .nil => .nil
  | .bool b => .bool b
  | .number x => .number x
  | .text s => .text s
  | .function f => .function f.unlined
  | .name x => .name x
  | .index object key => .index object.unlined key.unlined
  | .call callee args => .call callee.unlined (unlinedExprs args)
  | .method object name args => .method object.unlined name (unlinedExprs args)
  | .table fields => .table (unlinedFields fields)
  | .unary op operand => .unary op operand.unlined
  | .binary op left right => .binary op left.unlined right.unlined
  | .paren inner => .paren inner.unlined

/-- Several expressions without lines. -/
def unlinedExprs : List Expr → List Expr
  | [] => []
  | e :: es => e.unlined :: unlinedExprs es

/-- An entry without lines. -/
def Field.unlined : Field → Field
  | .named name value => .named name value.unlined
  | .keyed key value => .keyed key.unlined value.unlined
  | .item value => .item value.unlined

/-- Several entries without lines. -/
def unlinedFields : List Field → List Field
  | [] => []
  | f :: fs => f.unlined :: unlinedFields fs

/-- A function without lines. -/
def Function.unlined : Function → Function
  | .mk name params body chunk _ => .mk name params (unlinedBlock body) chunk 0

/-- A condition and its block without lines. -/
def Arm.unlined : Arm → Arm
  | .mk condition body => .mk condition.unlined (unlinedBlock body)

/-- Several conditions and their blocks without lines. -/
def unlinedArms : List Arm → List Arm
  | [] => []
  | a :: arms => a.unlined :: unlinedArms arms

/-- What a statement does, without lines. -/
def Action.unlined : Action → Action
  | .declare names values => .declare names (unlinedExprs values)
  | .assign targets values => .assign (unlinedExprs targets) (unlinedExprs values)
  | .call e => .call e.unlined
  | .block body => .block (unlinedBlock body)
  | .branch arms none => .branch (unlinedArms arms) none
  | .branch arms (some otherwise) => .branch (unlinedArms arms) (some (unlinedBlock otherwise))
  | .whileLoop condition body => .whileLoop condition.unlined (unlinedBlock body)
  | .repeatLoop body condition => .repeatLoop (unlinedBlock body) condition.unlined
  | .countLoop counter start limit none body =>
    .countLoop counter start.unlined limit.unlined none (unlinedBlock body)
  | .countLoop counter start limit (some step) body =>
    .countLoop counter start.unlined limit.unlined (some step.unlined) (unlinedBlock body)
  | .eachLoop names exprs body => .eachLoop names (unlinedExprs exprs) (unlinedBlock body)
  | .define root path isMethod f => .define root path isMethod f.unlined
  | .declareFunction name f => .declareFunction name f.unlined
  | .returnValues values => .returnValues (unlinedExprs values)
  | .breakLoop => .breakLoop

/-- A statement without its line, and without those in it. -/
def Stmt.unlined : Stmt → Stmt
  | .mk _ action => .mk 0 action.unlined

/-- A block without lines. -/
def unlinedBlock : List Stmt → List Stmt
  | [] => []
  | s :: stmts => s.unlined :: unlinedBlock stmts

end

/-! ## Trees that can be written -/

namespace Expr

/-- What can be called or looked into: names, entries, calls, and whatever is in parentheses. -/
def isHead : Expr → Bool
  | name _ | paren _ | index .. | call .. | method .. => true
  | _ => false

/-- What is called or looked into can be. -/
def headed : Expr → Bool
  | index object _ => object.isHead
  | call callee _ => callee.isHead
  | method object _ _ => object.isHead
  | _ => true

/-- A function in an expression has no name of its own. -/
def named (chunk : String) : Expr → Bool
  | function f => f.name == "anonymous" && f.chunk == chunk
  | _ => true

/-- What can stand as a statement or a target has a head, all the way down. -/
theorem isHead_of_isAssignable {e : Expr} (h : e.isAssignable = true) : e.isHead = true := by
  cases e with
  | name x => rfl
  | index object key => rfl
  | _ => cases h

theorem isHead_of_isMulti {e : Expr} (h : e.isMulti = true) : e.isHead = true := by
  cases e with
  | call callee args => rfl
  | method object name args => rfl
  | _ => cases h

end Expr

/-- Whether a statement is a return. -/
def Stmt.isReturn : Stmt → Bool
  | .mk _ (.returnValues _) => true
  | _ => false

/-- A function is defined under a path that begins with its root, and carries its name. A method has
    `self` as its first parameter and a name besides the root. -/
def definedUnder (chunk root : String) (path : List String) (isMethod : Bool) (f : Function) : Bool :=
  path.head? == some root && (f.name == String.intercalate "." path && f.chunk == chunk) &&
    (!isMethod || (decide (2 ≤ path.length) && f.params.head? == some "self"))

/-- What a statement does has the parts that it needs. -/
def Action.shaped (chunk : String) : Action → Bool
  | .declare names _ => !names.isEmpty
  | .assign targets values =>
    !targets.isEmpty && targets.all Expr.isAssignable && !values.isEmpty
  | .call e => e.isMulti
  | .branch arms _ => !arms.isEmpty
  | .eachLoop names exprs _ => !names.isEmpty && !exprs.isEmpty
  | .define root path isMethod f => definedUnder chunk root path isMethod f
  | .declareFunction name f => f.name == name && f.chunk == chunk
  | _ => true

/-- The conditions on a tree of a chunk that can be written: heads, names and ranks of expressions,
    and that they are not too tall; the parts of statements; and nothing stands behind a return. -/
def printChecks (chunk : String) : Checks where
  expr e := e.headed && e.named chunk && e.ranks && decide (e.height ≤ maxSyntaxLevels)
  action a := a.shaped chunk
  follows s rest := !s.isReturn || rest.isEmpty

end Script

end PixelEffects
