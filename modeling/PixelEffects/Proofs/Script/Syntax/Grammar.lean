import PixelEffects.Script.Syntax

/-!
# The Grammar

What the tokens of a source say, told without a parser.

A piece of syntax is spelled by a list of tokens, and the list of a compound is made of the lists of
its parts, one behind the other, with the marks of the compound between them. So nothing that is
spelled can be missing from the tree, stand in it twice or in another order, and of the tokens only
marks go without a trace. Some things have several spellings: a field can be looked up with a dot,
a text or a table constructor can be the only argument of a call without parentheses, entries of a
table are separated by commas or semicolons and may have one more behind the last, and semicolons
may stand between statements and behind a return. The rules say so where it is the case.

Expressions are not told apart by levels of precedence: there is one rule for each kind of node, and
how operators group is said elsewhere. The rules leave line numbers open.

## Main definitions

* `Separated`, `Listed`, `Entries`, `Sequence`: Lists of several kinds.
* `ExprForm`, `ActionForm` and others: The spellings of expressions, statements and their parts.
* `BlockForm`: The spellings of a block.

## Theorems

* `Separated.snoc`: A list with a mark between its items can grow at its end, as loops make it.
-/

namespace PixelEffects

namespace Script

/-- One or more items with a mark between them. -/
inductive Separated {α : Type} (separator : Mark) (P : List Token → α → Prop) :
    List Token → List α → Prop
  | one {u : List Token} {a : α} (h : P u a) : Separated separator P u [a]
  | more {u v : List Token} {a : α} {items : List α} (h : P u a)
      (hrest : Separated separator P v items) :
      Separated separator P (u ++ .mark separator :: v) (a :: items)

/-- Any number of items with a mark between them. -/
inductive Listed {α : Type} (separator : Mark) (P : List Token → α → Prop) :
    List Token → List α → Prop
  | none : Listed separator P [] []
  | some {u : List Token} {items : List α} (h : Separated separator P u items) :
      Listed separator P u items

/-- Any number of items with commas or semicolons between them, and possibly behind the last. -/
inductive Entries {α : Type} (P : List Token → α → Prop) : List Token → List α → Prop
  | none : Entries P [] []
  | last {u : List Token} {a : α} (h : P u a) : Entries P u [a]
  | more {u v : List Token} {a : α} {items : List α} {separator : Mark} (h : P u a)
      (hseparator : separator = .comma ∨ separator = .semi) (hrest : Entries P v items) :
      Entries P (u ++ .mark separator :: v) (a :: items)

/-- Any number of items with any semicolons between them, in front and behind, and possibly one of
    another kind at the end. -/
inductive Sequence {α : Type} (P Last : List Token → α → Prop) : List Token → List α → Prop
  | none : Sequence P Last [] []
  | last {u : List Token} {a : α} (h : Last u a) : Sequence P Last u [a]
  | semi {v : List Token} {items : List α} (hrest : Sequence P Last v items) :
      Sequence P Last (.mark .semi :: v) items
  | more {u v : List Token} {a : α} {items : List α} (h : P u a)
      (hrest : Sequence P Last v items) : Sequence P Last (u ++ v) (a :: items)

namespace Separated

variable {α β : Type} {separator : Mark} {P : List Token → α → Prop} {u v : List Token}
  {items : List α}

/-- One more item behind the last. -/
theorem snoc {a : α} (h : Separated separator P u items) (ha : P v a) :
    Separated separator P (u ++ .mark separator :: v) (items ++ [a]) := by
  induction h with
  | one hb => exact .more hb (.one ha)
  | more hb _ ih =>
      rw [List.append_assoc, List.cons_append, List.cons_append]
      exact .more hb ih

theorem map {Q : List Token → β → Prop} {f : α → β} (h : Separated separator P u items)
    (himp : ∀ u a, P u a → Q u (f a)) : Separated separator Q u (items.map f) := by
  induction h with
  | one ha => exact .one (himp _ _ ha)
  | more ha _ ih => exact .more (himp _ _ ha) ih

theorem all {Q : α → Prop} (h : Separated separator P u items) (himp : ∀ u a, P u a → Q a) :
    ∀ a ∈ items, Q a := by
  induction h with
  | one ha =>
      intro b hb
      rw [List.mem_singleton.mp hb]
      exact himp _ _ ha
  | more ha _ ih =>
      intro b hb
      rcases List.mem_cons.mp hb with rfl | hb
      · exact himp _ _ ha
      · exact ih b hb

end Separated

/-- A name is spelled by itself. -/
def NameForm (u : List Token) (word : String) : Prop :=
  u = [.name word]

section Forms

variable (chunk : String)

mutual

/-- The spellings of an expression. -/
inductive ExprForm : List Token → Expr → Prop
  | nil : ExprForm [.mark .nilWord] .nil
  | true : ExprForm [.mark .trueWord] (.bool true)
  | false : ExprForm [.mark .falseWord] (.bool false)
  | number (x : Float) : ExprForm [.number x] (.number x)
  | text (s : String) : ExprForm [.text s] (.text s)
  | function {u : List Token} {f : Function} (h : FunctionForm "anonymous" false u f) :
      ExprForm (.mark .functionWord :: u) (.function f)
  | name (word : String) : ExprForm [.name word] (.name word)
  | field {u : List Token} {object : Expr} (key : String) (h : ExprForm u object) :
      ExprForm (u ++ [.mark .dot, .name key]) (.index object (.text key))
  | index {u v : List Token} {object key : Expr} (h : ExprForm u object) (hkey : ExprForm v key) :
      ExprForm (u ++ .mark .lBracket :: (v ++ [.mark .rBracket])) (.index object key)
  | call {u v : List Token} {callee : Expr} {args : List Expr} (h : ExprForm u callee)
      (hargs : ArgsForm v args) : ExprForm (u ++ v) (.call callee args)
  | method {u v : List Token} {object : Expr} {args : List Expr} (name : String)
      (h : ExprForm u object) (hargs : ArgsForm v args) :
      ExprForm (u ++ .mark .colon :: .name name :: v) (.method object name args)
  | table {u : List Token} {fields : List Field} (h : Entries FieldForm u fields) :
      ExprForm (.mark .lBrace :: (u ++ [.mark .rBrace])) (.table fields)
  | unary {u : List Token} {operand : Expr} (op : UnaryOp) (h : ExprForm u operand) :
      ExprForm (.mark op.mark :: u) (.unary op operand)
  | binary {u v : List Token} {left right : Expr} (op : BinaryOp) (hleft : ExprForm u left)
      (hright : ExprForm v right) :
      ExprForm (u ++ .mark op.mark :: v) (.binary op left right)
  | paren {u : List Token} {inner : Expr} (h : ExprForm u inner) :
      ExprForm (.mark .lParen :: (u ++ [.mark .rParen])) (.paren inner)

/-- The spellings of the arguments of a call. -/
inductive ArgsForm : List Token → List Expr → Prop
  | paren {u : List Token} {args : List Expr} (h : Listed .comma ExprForm u args) :
      ArgsForm (.mark .lParen :: (u ++ [.mark .rParen])) args
  | text (s : String) : ArgsForm [.text s] [.text s]
  | table {u : List Token} {fields : List Field} (h : Entries FieldForm u fields) :
      ArgsForm (.mark .lBrace :: (u ++ [.mark .rBrace])) [.table fields]

/-- The spellings of an entry of a table constructor. -/
inductive FieldForm : List Token → Field → Prop
  | named {u : List Token} {value : Expr} (name : String) (h : ExprForm u value) :
      FieldForm (.name name :: .mark .assign :: u) (.named name value)
  | keyed {u v : List Token} {key value : Expr} (hkey : ExprForm u key) (h : ExprForm v value) :
      FieldForm (.mark .lBracket :: (u ++ .mark .rBracket :: .mark .assign :: v)) (.keyed key value)
  | item {u : List Token} {value : Expr} (h : ExprForm u value) : FieldForm u (.item value)

/-- The spellings of a function from its parameters on, given its name and whether it is a method. -/
inductive FunctionForm : String → Bool → List Token → Function → Prop
  | mk {u v : List Token} {params : List String} {body : List Stmt} (name : String)
      (isMethod : Bool) (line : Nat) (hparams : Listed .comma NameForm u params)
      (hbody : Sequence StmtForm ReturnForm v body) :
      FunctionForm name isMethod (.mark .lParen :: (u ++ .mark .rParen :: (v ++ [.mark .endWord])))
        (.mk name (if isMethod then "self" :: params else params) body chunk line)

/-- The spellings of a condition and its block. -/
inductive ArmForm : List Token → Arm → Prop
  | mk {u v : List Token} {condition : Expr} {body : List Stmt} (h : ExprForm u condition)
      (hbody : Sequence StmtForm ReturnForm v body) :
      ArmForm (u ++ .mark .thenWord :: v) (.mk condition body)

/-- The spellings of what a statement does, a return apart. -/
inductive ActionForm : List Token → Action → Prop
  | declare {u : List Token} {names : List String} (h : Separated .comma NameForm u names) :
      ActionForm (.mark .localWord :: u) (.declare names [])
  | declareValues {u v : List Token} {names : List String} {values : List Expr}
      (h : Separated .comma NameForm u names) (hvalues : Separated .comma ExprForm v values) :
      ActionForm (.mark .localWord :: (u ++ .mark .assign :: v)) (.declare names values)
  | assign {u v : List Token} {targets values : List Expr} (h : Separated .comma ExprForm u targets)
      (hassignable : targets.all Expr.isAssignable = Bool.true)
      (hvalues : Separated .comma ExprForm v values) :
      ActionForm (u ++ .mark .assign :: v) (.assign targets values)
  | call {u : List Token} {e : Expr} (h : ExprForm u e) (hmulti : e.isMulti = Bool.true) :
      ActionForm u (.call e)
  | block {u : List Token} {body : List Stmt} (h : Sequence StmtForm ReturnForm u body) :
      ActionForm (.mark .doWord :: (u ++ [.mark .endWord])) (.block body)
  | branch {u : List Token} {arms : List Arm} (h : Separated .elseIfWord ArmForm u arms) :
      ActionForm (.mark .ifWord :: (u ++ [.mark .endWord])) (.branch arms none)
  | branchElse {u v : List Token} {arms : List Arm} {otherwise : List Stmt}
      (h : Separated .elseIfWord ArmForm u arms) (ho : Sequence StmtForm ReturnForm v otherwise) :
      ActionForm (.mark .ifWord :: (u ++ .mark .elseWord :: (v ++ [.mark .endWord])))
        (.branch arms (some otherwise))
  | whileLoop {u v : List Token} {condition : Expr} {body : List Stmt} (h : ExprForm u condition)
      (hbody : Sequence StmtForm ReturnForm v body) :
      ActionForm (.mark .whileWord :: (u ++ .mark .doWord :: (v ++ [.mark .endWord])))
        (.whileLoop condition body)
  | repeatLoop {u v : List Token} {condition : Expr} {body : List Stmt}
      (hbody : Sequence StmtForm ReturnForm u body) (h : ExprForm v condition) :
      ActionForm (.mark .repeatWord :: (u ++ .mark .untilWord :: v)) (.repeatLoop body condition)
  | countLoop {u v w : List Token} {start limit : Expr} {body : List Stmt} (counter : String)
      (hstart : ExprForm u start) (hlimit : ExprForm v limit)
      (hbody : Sequence StmtForm ReturnForm w body) :
      ActionForm (.mark .forWord :: .name counter :: .mark .assign ::
          (u ++ .mark .comma :: (v ++ .mark .doWord :: (w ++ [.mark .endWord]))))
        (.countLoop counter start limit none body)
  | countLoopStep {u v w x : List Token} {start limit step : Expr} {body : List Stmt}
      (counter : String) (hstart : ExprForm u start) (hlimit : ExprForm v limit)
      (hstep : ExprForm w step) (hbody : Sequence StmtForm ReturnForm x body) :
      ActionForm (.mark .forWord :: .name counter :: .mark .assign ::
          (u ++ .mark .comma :: (v ++ .mark .comma ::
            (w ++ .mark .doWord :: (x ++ [.mark .endWord])))))
        (.countLoop counter start limit (some step) body)
  | eachLoop {u v w : List Token} {names : List String} {exprs : List Expr} {body : List Stmt}
      (h : Separated .comma NameForm u names) (hexprs : Separated .comma ExprForm v exprs)
      (hbody : Sequence StmtForm ReturnForm w body) :
      ActionForm (.mark .forWord :: (u ++ .mark .inWord ::
          (v ++ .mark .doWord :: (w ++ [.mark .endWord]))))
        (.eachLoop names exprs body)
  | define {u v : List Token} {path : List String} {f : Function}
      (h : Separated .dot NameForm u path)
      (hf : FunctionForm (String.intercalate "." path) false v f) :
      ActionForm (.mark .functionWord :: (u ++ v)) (.define (path.headD "") path false f)
  | defineMethod {u v : List Token} {path : List String} {f : Function} (name : String)
      (h : Separated .dot NameForm u path)
      (hf : FunctionForm (String.intercalate "." (path ++ [name])) true v f) :
      ActionForm (.mark .functionWord :: (u ++ .mark .colon :: .name name :: v))
        (.define (path.headD "") (path ++ [name]) true f)
  | declareFunction {u : List Token} {f : Function} (name : String)
      (h : FunctionForm name false u f) :
      ActionForm (.mark .localWord :: .mark .functionWord :: .name name :: u)
        (.declareFunction name f)
  | breakLoop : ActionForm [.mark .breakWord] .breakLoop

/-- The spellings of a statement, a return apart. -/
inductive StmtForm : List Token → Stmt → Prop
  | mk {u : List Token} {action : Action} (line : Nat) (h : ActionForm u action) :
      StmtForm u (.mk line action)

/-- The spellings of a return. -/
inductive ReturnForm : List Token → Stmt → Prop
  | bare {u : List Token} {values : List Expr} (line : Nat) (h : Listed .comma ExprForm u values) :
      ReturnForm (.mark .returnWord :: u) (.mk line (.returnValues values))
  | semi {u : List Token} {values : List Expr} (line : Nat) (h : Listed .comma ExprForm u values) :
      ReturnForm (.mark .returnWord :: (u ++ [.mark .semi])) (.mk line (.returnValues values))

end

/-- The spellings of a block. -/
abbrev BlockForm : List Token → List Stmt → Prop :=
  Sequence (StmtForm chunk) (ReturnForm chunk)

end Forms

end Script

end PixelEffects
