import PixelEffects.Script.Syntax
import PixelEffects.Script.Token.Lexer

/-!
# Parsing

From the tokens of a source to its syntax tree.

Two things bound the parser. How far statements and operands may nest is bounded by
`maxSyntaxLevels`: every statement and every operand enters one level, and there is a fixed number
of them. That is also what the recursion runs on. A `Level` holds the two parsers that lead one
level further in, the grammar is written once against an arbitrary `Level`, and `level` stacks it up
from a bottom where both refuse. So no rule of the grammar is recursive, and a property of the
parser is shown for one level, given the level below.

The other bound is on the height of an expression, because a chain of operators or suffixes grows a
tall tree without nesting. An expression is carried together with its height while it is built, and
the height is checked before anything is added to it.

The loops of the grammar are bounded by the number of tokens. Each round takes at least one, so the
bound is never what ends them. The end of the source is never taken, and stays what comes next.

## Main definitions

* `Parser`: A step over the tokens that remain.
* `Level`: The statement and operand parsers of one level.
* `Level.statementBelow`, `Level.operandBelow`: The grammar of a level over the one below it.
* `level`: The parsers with a number of levels left.
* `parseTokens`, `parseChunk`: A whole source.
-/

namespace PixelEffects

namespace Script

/-- The number of levels that statements and operands may nest, and the height that an expression
    may have. -/
def maxSyntaxLevels : Nat := 200

/-- A step over the tokens that remain. -/
abbrev Parser (α : Type) := StateT (List Lexeme) (Except SyntaxError) α

namespace Parser

/-- The next token. Behind the last one there is only the end of the source. -/
def next : Parser Lexeme := fun ts =>
  match ts with
  | [] => .ok (⟨.endOfSource, 0⟩, [])
  | t :: rest => .ok (t, t :: rest)

/-- Stop at the next token. -/
def fail {α : Type} (cause : SyntaxCause) : Parser α := do
  let t ← next
  throw ⟨t.line, cause⟩

/-- Stop at the next token, with a cause that says what it is. -/
def failAt {α : Type} (cause : Token → SyntaxCause) : Parser α := do
  let t ← next
  throw ⟨t.line, cause t.token⟩

/-- Take the next token, unless it is the end of the source. -/
def advance : Parser Unit := fun ts =>
  match ts with
  | [] => .ok ((), [])
  | ⟨.endOfSource, line⟩ :: rest => .ok ((), ⟨.endOfSource, line⟩ :: rest)
  | _ :: rest => .ok ((), rest)

/-- Whether the next token is a mark. -/
def sees (m : Mark) : Parser Bool := do
  let t ← next
  pure (t.token.isMark m)

/-- Take the next token if it is a mark, and say whether it was. -/
def accept (m : Mark) : Parser Bool := do
  if ← sees m then
    advance
    pure true
  else pure false

/-- Take a mark that has to be there. -/
def expect (m : Mark) : Parser Unit := do
  if ← accept m then pure () else failAt (.expected m)

/-- Take a name. -/
def name : Parser String := do
  let t ← next
  match t.token with
  | .name word =>
    advance
    pure word
  | found => throw ⟨t.line, .nameExpected found⟩

/-- Repeat a step that says whether to go on, for at most `n` rounds. -/
def repeated {σ : Type} (step : σ → Parser (σ × Bool)) : Nat → σ → Parser σ
  | 0, s => pure s
  | n + 1, s => do
    let (s, goOn) ← step s
    if goOn then repeated step n s else pure s

/-- One or more items with a mark between them. -/
def separated {α : Type} (rounds : Nat) (separator : Mark) (item : Parser α) : Parser (List α) := do
  let first ← item
  let items ← repeated
    (fun items => do
      if ← accept separator then
        let i ← item
        pure (i :: items, true)
      else pure (items, false))
    rounds [first]
  pure items.reverse

/-- Whether the next token ends a block. -/
def blockEnds : Parser Bool := do
  let t ← next
  pure (match t.token with
    | .mark .endWord | .mark .elseWord | .mark .elseIfWord | .mark .untilWord => true
    | .endOfSource => true
    | _ => false)

end Parser

open PixelEffects.Script.Parser

/-- An expression and its height. -/
structure Measured where
  expr : Expr
  height : Nat

namespace Measured

/-- An expression of height one. -/
def leaf (e : Expr) : Measured :=
  ⟨e, 1⟩

/-- The height of the tallest of several expressions. -/
def tallest (es : List Measured) : Nat :=
  es.foldl (fun h e => max h e.height) 0

/-- Refuse an expression that is too tall. -/
def check (e : Measured) : Parser Unit :=
  if e.height > maxSyntaxLevels then fail .tooManyLevels else pure ()

end Measured

/-- An entry of a table constructor and the height of what it holds. -/
structure MeasuredField where
  field : Field
  height : Nat

/-- What the grammar may call one level further in. `operand` takes how strongly the operator in
    front binds; `rounds` bounds the loops. -/
structure Level where
  rounds : Nat
  statement : Parser Stmt
  operand : Nat → Parser Measured

namespace Level

/-- A whole expression. -/
def expr (l : Level) : Parser Measured :=
  l.operand 0

/-- One or more expressions. -/
def exprs (l : Level) : Parser (List Measured) :=
  separated l.rounds .comma l.expr

/-- The values of a return: none when the block ends or a semicolon follows. -/
def returnValues (l : Level) : Parser (List Expr) := do
  if ← blockEnds then pure []
  else if ← sees .semi then pure []
  else do
    let values ← l.exprs
    pure (values.map (·.expr))

/-- A return, which must be the last statement of its block. -/
def returnStatement (l : Level) : Parser Stmt := do
  let t ← next
  advance
  let values ← l.returnValues
  let _ ← accept .semi
  if ← blockEnds then pure (.mk t.line (.returnValues values)) else failAt (.expected .endWord)

/-- One more statement of a block, if there is one. -/
def blockStep (l : Level) (stmts : List Stmt) : Parser (List Stmt × Bool) := do
  if ← blockEnds then pure (stmts, false)
  else if ← accept .semi then pure (stmts, true)
  else if ← sees .returnWord then do
    let s ← l.returnStatement
    pure (s :: stmts, false)
  else do
    let s ← l.statement
    pure (s :: stmts, true)

/-- The statements of a block, up to the token that ends it. -/
def block (l : Level) : Parser (List Stmt) := do
  let stmts ← repeated l.blockStep l.rounds []
  pure stmts.reverse

/-- A block and the `end` behind it. -/
def closedBlock (l : Level) : Parser (List Stmt) := do
  let body ← l.block
  expect .endWord
  pure body

/-- The parameters of a function, after the opening parenthesis. -/
def parameters (l : Level) : Parser (List String) := do
  if ← accept .rParen then pure []
  else do
    let names ← separated l.rounds .comma Parser.name
    expect .rParen
    pure names

/-- A function from its parameters on. A method has `self` as its first parameter. -/
def functionBody (l : Level) (chunk name : String) (isMethod : Bool) (line : Nat) :
    Parser Function := do
  expect .lParen
  let params ← l.parameters
  let body ← l.closedBlock
  pure (.mk name (if isMethod then "self" :: params else params) body chunk line)

/-- An entry of a table constructor. -/
def field (l : Level) : Parser MeasuredField := fun ts =>
  match ts with
  | ⟨.name name, _⟩ :: ⟨.mark .assign, _⟩ :: rest =>
    (do
      let value ← l.expr
      pure ⟨.named name value.expr, value.height⟩ : Parser MeasuredField) rest
  | ⟨.mark .lBracket, _⟩ :: rest =>
    (do
      let key ← l.expr
      expect .rBracket
      expect .assign
      let value ← l.expr
      pure ⟨.keyed key.expr value.expr, max key.height value.height⟩ : Parser MeasuredField) rest
  | _ =>
    (do
      let value ← l.expr
      pure ⟨.item value.expr, value.height⟩ : Parser MeasuredField) ts

/-- Whether a table constructor goes on behind an entry: with a separator it may, without one it
    must be closed. -/
def fieldEnd : Parser Bool := do
  if ← accept .comma then pure true
  else if ← accept .semi then pure true
  else do
    expect .rBrace
    pure false

/-- One more entry of a table constructor, or its closing brace. -/
def fieldStep (l : Level) (fields : List MeasuredField) : Parser (List MeasuredField × Bool) := do
  if ← accept .rBrace then pure (fields, false)
  else do
    let f ← l.field
    let goOn ← fieldEnd
    pure (f :: fields, goOn)

/-- A table constructor. -/
def table (l : Level) : Parser Measured := do
  expect .lBrace
  let fields ← repeated l.fieldStep l.rounds []
  pure ⟨.table (fields.reverse.map (·.field)), fields.foldl (fun h f => max h f.height) 0 + 1⟩

/-- The arguments of a call: a text, a table constructor, or a list in parentheses. -/
def arguments (l : Level) : Parser (List Measured) := do
  let t ← next
  match t.token with
  | .text value =>
    advance
    pure [.leaf (.text value)]
  | .mark .lBrace =>
    let table ← l.table
    pure [table]
  | .mark .lParen =>
    advance
    if ← accept .rParen then pure []
    else do
      let args ← l.exprs
      expect .rParen
      pure args
  | found => throw ⟨t.line, .argumentsExpected found⟩

/-- A name or an expression in parentheses. -/
def primary (l : Level) : Parser Measured := do
  let t ← next
  match t.token with
  | .name word =>
    advance
    pure (.leaf (.name word))
  | .mark .lParen =>
    advance
    let inner ← l.expr
    expect .rParen
    pure ⟨.paren inner.expr, inner.height + 1⟩
  | found => throw ⟨t.line, .unexpectedSymbol found⟩

/-- A call of an expression with the arguments that follow. -/
def callSuffix (l : Level) (e : Measured) : Parser Measured := do
  let args ← l.arguments
  pure ⟨.call e.expr (args.map (·.expr)), max e.height (Measured.tallest args) + 1⟩

/-- One more suffix of an expression, if there is one. -/
def suffixStep (l : Level) (e : Measured) : Parser (Measured × Bool) := do
  e.check
  let t ← next
  match t.token with
  | .mark .dot =>
    advance
    let key ← Parser.name
    pure (⟨.index e.expr (.text key), e.height + 1⟩, true)
  | .mark .lBracket =>
    advance
    let key ← l.expr
    expect .rBracket
    pure (⟨.index e.expr key.expr, max e.height key.height + 1⟩, true)
  | .mark .colon =>
    advance
    let name ← Parser.name
    let args ← l.arguments
    pure (⟨.method e.expr name (args.map (·.expr)),
      max e.height (Measured.tallest args) + 1⟩, true)
  | .mark .lParen | .mark .lBrace | .text _ =>
    let call ← l.callSuffix e
    pure (call, true)
  | _ => pure (e, false)

/-- A name or parenthesis with all its suffixes: indices and calls. -/
def suffixed (l : Level) : Parser Measured := do
  let e ← l.primary
  repeated l.suffixStep l.rounds e

/-- An operand without operators. -/
def simple (l : Level) (chunk : String) : Parser Measured := do
  let t ← next
  match t.token with
  | .number value =>
    advance
    pure (.leaf (.number value))
  | .text value =>
    advance
    pure (.leaf (.text value))
  | .mark .nilWord =>
    advance
    pure (.leaf .nil)
  | .mark .trueWord =>
    advance
    pure (.leaf (.bool true))
  | .mark .falseWord =>
    advance
    pure (.leaf (.bool false))
  | .mark .lBrace => l.table
  | .mark .functionWord =>
    advance
    let definition ← l.functionBody chunk "anonymous" false t.line
    pure (.leaf (.function definition))
  | _ => l.suffixed

/-- The unary operator that a token is. -/
def unaryOp? : Token → Option UnaryOp
  | .mark m => UnaryOp.ofMark? m
  | _ => none

/-- The binary operator that a token is. -/
def binaryOp? : Token → Option BinaryOp
  | .mark m => BinaryOp.ofMark? m
  | _ => none

/-- The first operand of an expression, with the unary operators in front of it. -/
def prefixed (l : Level) (chunk : String) : Parser Measured := do
  let t ← next
  match unaryOp? t.token with
  | some op =>
    advance
    let operand ← l.operand unaryStrength
    pure ⟨.unary op operand.expr, operand.height + 1⟩
  | none => l.simple chunk

/-- One more operator with its right operand, if it binds more strongly than `limit`. -/
def binaryStep (l : Level) (limit : Nat) (e : Measured) : Parser (Measured × Bool) := do
  let t ← next
  match binaryOp? t.token with
  | none => pure (e, false)
  | some op =>
    if op.strength.1 ≤ limit then pure (e, false)
    else do
      advance
      let right ← l.operand op.strength.2
      let folded : Measured := ⟨.binary op e.expr right.expr, max e.height right.height + 1⟩
      folded.check
      pure (folded, true)

/-- An operand, with the operators behind it that bind more strongly than `limit`. -/
def operandBelow (l : Level) (chunk : String) (limit : Nat) : Parser Measured := do
  let e ← l.prefixed chunk
  e.check
  repeated (l.binaryStep limit) l.rounds e

/-- The condition and block of one arm of a branch. -/
def arm (l : Level) : Parser Arm := do
  let condition ← l.expr
  expect .thenWord
  let body ← l.block
  pure (.mk condition.expr body)

/-- What follows an arm: another one, a last block, or the end. -/
def armStep (l : Level) (arms : List Arm × Option (List Stmt)) :
    Parser ((List Arm × Option (List Stmt)) × Bool) := do
  if ← accept .elseIfWord then do
    let a ← l.arm
    pure ((a :: arms.1, arms.2), true)
  else if ← accept .elseWord then do
    let body ← l.closedBlock
    pure ((arms.1, some body), false)
  else do
    expect .endWord
    pure (arms, false)

/-- A branch, after its `if`. -/
def branch (l : Level) : Parser Action := do
  let first ← l.arm
  let (arms, otherwise) ← repeated l.armStep l.rounds ([first], none)
  pure (.branch arms.reverse otherwise)

/-- The step of a numeric loop, if one is given. -/
def loopStep? (l : Level) : Parser (Option Expr) := do
  if ← accept .comma then do
    let step ← l.expr
    pure (some step.expr)
  else pure none

/-- A loop over numbers, after its first name and the assignment mark. -/
def countLoop (l : Level) (counter : String) : Parser Action := do
  let start ← l.expr
  expect .comma
  let limit ← l.expr
  let step ← l.loopStep?
  expect .doWord
  let body ← l.closedBlock
  pure (.countLoop counter start.expr limit.expr step body)

/-- The names of a loop over an iterator, after the first. -/
def moreNames (l : Level) (first : String) : Parser (List String) := do
  if ← accept .comma then do
    let names ← separated l.rounds .comma Parser.name
    pure (first :: names)
  else pure [first]

/-- A loop over an iterator, after its first name. -/
def eachLoop (l : Level) (first : String) : Parser Action := do
  let names ← l.moreNames first
  expect .inWord
  let exprs ← l.exprs
  expect .doWord
  let body ← l.closedBlock
  pure (.eachLoop names (exprs.map (·.expr)) body)

/-- A loop over numbers or an iterator, after its `for`. -/
def forLoop (l : Level) : Parser Action := do
  let first ← Parser.name
  if ← accept .assign then l.countLoop first else l.eachLoop first

/-- The name of a method behind the path of a function, if there is one. -/
def methodName? : Parser (Option String) := do
  if ← accept .colon then do
    let name ← Parser.name
    pure (some name)
  else pure none

/-- A function definition, after its `function`. -/
def definition (l : Level) (chunk : String) (line : Nat) : Parser Action := do
  let path ← separated l.rounds .dot Parser.name
  let method ← methodName?
  let root := path.headD ""
  let path := path ++ method.toList
  let f ← l.functionBody chunk (String.intercalate "." path) method.isSome line
  pure (.define root path method.isSome f)

/-- The values of a declaration, if it has any. -/
def initialValues (l : Level) : Parser (List Expr) := do
  if ← accept .assign then do
    let values ← l.exprs
    pure (values.map (·.expr))
  else pure []

/-- A declaration, after its `local`. -/
def declaration (l : Level) (chunk : String) (line : Nat) : Parser Action := do
  if ← accept .functionWord then do
    let name ← Parser.name
    let f ← l.functionBody chunk name false line
    pure (.declareFunction name f)
  else do
    let names ← separated l.rounds .comma Parser.name
    let values ← l.initialValues
    pure (.declare names values)

/-- The targets of an assignment, after the first. -/
def moreTargets (l : Level) (first : Measured) : Parser (List Measured) := do
  if ← accept .comma then do
    let targets ← separated l.rounds .comma l.suffixed
    pure (first :: targets)
  else pure [first]

/-- An assignment, after its first target. -/
def assignment (l : Level) (first : Measured) : Parser Action := do
  let targets ← l.moreTargets first
  if targets.all (·.expr.isAssignable) then do
    expect .assign
    let values ← l.exprs
    pure (.assign (targets.map (·.expr)) (values.map (·.expr)))
  else fail .notAssignable

/-- A statement that begins with an expression: an assignment or a call. -/
def exprStatement (l : Level) : Parser Action := do
  let first ← l.suffixed
  let t ← next
  match t.token with
  | .mark .assign | .mark .comma => l.assignment first
  | found =>
    if first.expr.isMulti then pure (.call first.expr)
    else throw ⟨t.line, .notAStatement found⟩

/-- A loop with its condition in front, after its `while`. -/
def whileLoop (l : Level) : Parser Action := do
  let condition ← l.expr
  expect .doWord
  let body ← l.closedBlock
  pure (.whileLoop condition.expr body)

/-- A loop with its condition behind, after its `repeat`. -/
def repeatLoop (l : Level) : Parser Action := do
  let body ← l.block
  expect .untilWord
  let condition ← l.expr
  pure (.repeatLoop body condition.expr)

/-- What a statement does. -/
def action (l : Level) (chunk : String) (t : Lexeme) : Parser Action := do
  match t.token with
  | .mark .ifWord =>
    advance
    l.branch
  | .mark .whileWord =>
    advance
    l.whileLoop
  | .mark .doWord =>
    advance
    let body ← l.closedBlock
    pure (.block body)
  | .mark .repeatWord =>
    advance
    l.repeatLoop
  | .mark .forWord =>
    advance
    l.forLoop
  | .mark .functionWord =>
    advance
    l.definition chunk t.line
  | .mark .localWord =>
    advance
    l.declaration chunk t.line
  | .mark .breakWord =>
    advance
    pure .breakLoop
  | _ => l.exprStatement

/-- A statement. -/
def statementBelow (l : Level) (chunk : String) : Parser Stmt := do
  let t ← next
  let action ← l.action chunk t
  pure (.mk t.line action)

end Level

/-- The parsers with `n` levels left. Without any, nothing further in is accepted. -/
def level (chunk : String) (rounds : Nat) : Nat → Level
  | 0 => ⟨rounds, fail .tooManyLevels, fun _ => fail .tooManyLevels⟩
  | n + 1 =>
    let below := level chunk rounds n
    ⟨rounds, below.statementBelow chunk, below.operandBelow chunk⟩

theorem level_rounds (chunk : String) (rounds n : Nat) :
    (level chunk rounds n).rounds = rounds := by
  cases n <;> rfl

/-- A block that the whole source consists of. -/
def wholeBlock (l : Level) : Parser (List Stmt) := do
  let body ← l.block
  let t ← next
  match t.token with
  | .endOfSource => pure body
  | found => throw ⟨t.line, .endExpected found⟩

/-- The block that all tokens of a source form. -/
def parseTokens (chunk : String) (ts : List Lexeme) : Except SyntaxError (List Stmt) :=
  match wholeBlock (level chunk ts.length maxSyntaxLevels) ts with
  | .ok (body, _) => .ok body
  | .error e => .error e

/-- The chunk that a source is, or the fault that keeps it from being one. -/
def parseChunk (name source : String) : Except Fault Chunk :=
  let fault (e : SyntaxError) : Fault := ⟨name, e.line, .syntaxError e.cause⟩
  match lex source with
  | .error e => .error (fault e)
  | .ok ts =>
    match parseTokens name ts with
    | .error e => .error (fault e)
    | .ok body => .ok ⟨name, body⟩

end Script

end PixelEffects
