import PixelEffects.Proofs.Script.Syntax.Printing
import PixelEffects.Proofs.Script.Syntax.Takes

/-!
# Written Trees

What can be told of the tokens that a tree is written with, and what a parsed tree has in common with
the one that was written.

The parser decides by the next token. So what matters is the first token that something is written
with, and which tokens may come behind it: a suffix goes on with an expression and an operator may, a
semicolon ends a statement, and `end` and the like a block. An entry of a table needs a second look,
because a name with an assignment mark behind it is the name of the entry. Expressions are not
written that way.

A parsed tree may differ from the written one in its lines, and that does not change its height. Every
tree that the parser enters a level for has at least one level.

## Main definitions

* `Token.isSuffix`, `Token.endsBlock`, `Token.endsStmt`: What may come behind.
* `Token.startsExpr`, `Token.startsStmt`, `Begins`: What comes first.
* `NotNamed`: Tokens that are not those of an entry with a name.
* `Expr.Fits`: The conditions on an expression that can be written, one by one.
* `Expr.seen`, `Measured.seen`: A tree without lines, together with its height.

## Theorems

* `Expr.begins_head`, `Expr.begins`, `Action.begins`: What each kind of tree begins with.
* `Expr.notNamed`: No expression looks like an entry with a name.
* `table_seen`, `tallest_of_seen`: What was collected is as high as what was written.
-/

namespace PixelEffects

namespace Script

/-! ## What comes behind -/

namespace Token

/-- Whether a token goes on with the expression in front of it. -/
def isSuffix : Token → Bool
  | .mark .dot | .mark .lBracket | .mark .colon | .mark .lParen | .mark .lBrace | .text _ => true
  | _ => false

/-- Whether an expression ends before a token, whatever the expression is. -/
def endsExpr (t : Token) : Bool :=
  !t.isSuffix && (Level.binaryOp? t).isNone

/-- Whether a block ends before a token. -/
def endsBlock : Token → Bool
  | .mark .endWord | .mark .elseWord | .mark .elseIfWord | .mark .untilWord => true
  | .endOfSource => true
  | _ => false

/-- Whether a statement ends before a token. -/
def endsStmt (t : Token) : Bool :=
  t.isMark .semi || t.endsBlock

theorem stops_of_endsExpr {t : Token} (h : t.endsExpr = true) (limit : Nat) (e : Expr) :
    Stops limit e t := by
  intro op hop
  rw [endsExpr, hop, Bool.and_eq_true] at h
  cases h.2

theorem isSuffix_of_endsExpr {t : Token} (h : t.endsExpr = true) : t.isSuffix = false := by
  rw [endsExpr, Bool.and_eq_true, Bool.not_eq_true'] at h
  exact h.1

theorem endsStmt_of_endsBlock {t : Token} (h : t.endsBlock = true) : t.endsStmt = true := by
  rw [endsStmt, h, Bool.or_true]

theorem endsExpr_of_endsStmt {t : Token} (h : t.endsStmt = true) : t.endsExpr = true := by
  cases t with
  | mark m => cases m <;> first | rfl | cases h
  | endOfSource => rfl
  | _ => cases h

/-- A mark that does not have a property is not a token that has it. -/
theorem ne_mark {t : Token} (p : Token → Bool) {m : Mark} (h : p t = true)
    (hm : p (.mark m) = false) : t ≠ .mark m := by
  intro heq
  rw [heq, hm] at h
  cases h

end Token

theorem unaryOp?_mark (op : UnaryOp) : Level.unaryOp? (.mark op.mark) = some op :=
  UnaryOp.ofMark?_mark op

theorem binaryOp?_mark (op : BinaryOp) : Level.binaryOp? (.mark op.mark) = some op :=
  BinaryOp.ofMark?_mark op

/-- Behind an operand an operator is no suffix. -/
theorem isSuffix_mark (op : BinaryOp) : (Token.mark op.mark).isSuffix = false := by
  cases op <;> rfl

/-! ## What can be written -/

section Conditions

variable {chunk : String}

/-- An expression that can be written, as far as its topmost node is concerned. -/
structure Expr.Fits (chunk : String) (e : Expr) : Prop where
  headed : e.headed = true
  named : e.named chunk = true
  ranks : e.ranks = true
  height : e.height ≤ maxSyntaxLevels

theorem Expr.fits {e : Expr} (h : e.every (printChecks chunk) = true) : e.Fits chunk := by
  have hexpr := Expr.expr_of_every h
  simp only [printChecks, Bool.and_eq_true, decide_eq_true_eq] at hexpr
  exact ⟨hexpr.1.1.1, hexpr.1.1.2, hexpr.1.2, hexpr.2⟩

theorem Action.shaped_of_every {a : Action} (h : a.every (printChecks chunk) = true) :
    a.shaped chunk = true :=
  Action.action_of_every h

end Conditions

/-! ## What comes first -/

namespace Token

/-- Whether a token begins an operand to which suffixes can be added. -/
def startsHead : Token → Bool
  | .name _ | .mark .lParen => true
  | _ => false

/-- Whether a token begins an operand without operators. -/
def startsSimple : Token → Bool
  | .number _ | .text _ | .mark .nilWord | .mark .trueWord | .mark .falseWord => true
  | .mark .lBrace | .mark .functionWord => true
  | t => t.startsHead

/-- Whether a token begins an expression. -/
def startsExpr (t : Token) : Bool :=
  (Level.unaryOp? t).isSome || t.startsSimple

/-- Whether a token begins an entry of a table constructor. -/
def startsField (t : Token) : Bool :=
  t.isMark .lBracket || t.startsExpr

/-- Whether a token begins a statement other than a return. -/
def startsStmt : Token → Bool
  | .mark .ifWord | .mark .whileWord | .mark .doWord | .mark .repeatWord | .mark .forWord => true
  | .mark .functionWord | .mark .localWord | .mark .breakWord => true
  | t => t.startsHead

theorem startsSimple_of_startsHead {t : Token} (h : t.startsHead = true) :
    t.startsSimple = true := by
  cases t with
  | mark m => cases m <;> first | rfl | cases h
  | name x => rfl
  | _ => cases h

theorem startsExpr_of_startsSimple {t : Token} (h : t.startsSimple = true) :
    t.startsExpr = true := by
  rw [startsExpr, h, Bool.or_true]

theorem startsStmt_of_startsHead {t : Token} (h : t.startsHead = true) : t.startsStmt = true := by
  cases t with
  | mark m => cases m <;> first | rfl | cases h
  | name x => rfl
  | _ => cases h

theorem unaryOp?_of_startsSimple {t : Token} (h : t.startsSimple = true) :
    Level.unaryOp? t = none := by
  cases t with
  | mark m => cases m <;> first | rfl | cases h
  | _ => rfl

/-- No block ends where an expression begins. -/
theorem endsBlock_of_startsExpr {t : Token} (h : t.startsExpr = true) : t.endsBlock = false := by
  cases t with
  | mark m => cases m <;> first | rfl | cases h
  | endOfSource => cases h
  | _ => rfl

/-- No block ends where a statement begins. -/
theorem endsBlock_of_startsStmt {t : Token} (h : t.startsStmt = true) : t.endsBlock = false := by
  cases t with
  | mark m => cases m <;> first | rfl | cases h
  | endOfSource => cases h
  | _ => rfl

end Token

/-- The first token is of some kind. -/
def Begins (p : Token → Bool) (u : List Token) : Prop :=
  ∃ t rest, u = t :: rest ∧ p t = true

namespace Begins

variable {p q : Token → Bool} {u : List Token}

theorem append (h : Begins p u) (v : List Token) : Begins p (u ++ v) := by
  rcases h with ⟨t, rest, rfl, ht⟩
  exact ⟨t, rest ++ v, rfl, ht⟩

theorem headD (h : Begins p u) (t : Token) : p (u.headD t) = true := by
  rcases h with ⟨t', rest, rfl, ht'⟩
  exact ht'

theorem imp (h : Begins p u) (himp : ∀ t, p t = true → q t = true) : Begins q u := by
  rcases h with ⟨t, rest, rfl, ht⟩
  exact ⟨t, rest, rfl, himp t ht⟩

theorem ne_nil (h : Begins p u) : u ≠ [] := by
  rcases h with ⟨t, rest, rfl, _⟩
  exact List.cons_ne_nil t rest

end Begins

namespace Expr

variable {chunk : String}

/-- What can be called or looked into begins with a name or a parenthesis: so does what is furthest
    down on its left. -/
theorem begins_head : ∀ {e : Expr}, e.isHead = true → e.every (printChecks chunk) = true →
    Begins Token.startsHead e.tokens
  | .name x, _, _ => ⟨.name x, [], rfl, rfl⟩
  | .paren inner, _, _ => by
      rw [tokens]
      exact ⟨_, _, rfl, rfl⟩
  | .index object key, _, he => by
      have hobject := (fits he).headed
      rw [every, Bool.and_eq_true, Bool.and_eq_true] at he
      rw [tokens]
      exact (begins_head hobject he.2.1).append _
  | .call callee args, _, he => by
      have hcallee := (fits he).headed
      rw [every, Bool.and_eq_true, Bool.and_eq_true] at he
      rw [tokens]
      exact (begins_head hcallee he.2.1).append _
  | .method object word args, _, he => by
      have hobject := (fits he).headed
      rw [every, Bool.and_eq_true, Bool.and_eq_true] at he
      rw [tokens]
      exact (begins_head hobject he.2.1).append _

theorem begins_simple {e : Expr} (hsimple : e.isSimple = true)
    (he : e.every (printChecks chunk) = true) : Begins Token.startsSimple e.tokens := by
  cases e with
  | nil => exact ⟨_, _, rfl, rfl⟩
  | bool b => cases b <;> exact ⟨_, _, rfl, rfl⟩
  | number x => exact ⟨_, _, rfl, rfl⟩
  | text s => exact ⟨_, _, rfl, rfl⟩
  | function f =>
      rw [tokens]
      exact ⟨_, _, rfl, rfl⟩
  | table fields =>
      rw [tokens]
      exact ⟨_, _, rfl, rfl⟩
  | unary op operand => cases hsimple
  | binary op left right => cases hsimple
  | _ => exact (begins_head rfl he).imp fun t => Token.startsSimple_of_startsHead

theorem begins : ∀ {e : Expr}, e.every (printChecks chunk) = true →
    Begins Token.startsExpr e.tokens := by
  intro e he
  cases hsimple : e.isSimple with
  | true => exact (begins_simple hsimple he).imp fun t => Token.startsExpr_of_startsSimple
  | false =>
      cases e with
      | unary op operand =>
          rw [tokens]
          refine ⟨_, _, rfl, ?_⟩
          rw [Token.startsExpr, unaryOp?_mark]
          rfl
      | binary op left right =>
          rw [every, Bool.and_eq_true, Bool.and_eq_true] at he
          rw [tokens]
          exact (begins he.2.1).append _
      | _ => cases hsimple
termination_by e => sizeOf e

end Expr

theorem begins_exprs {chunk : String} {e : Expr} {es : List Expr}
    (h : everyExpr (printChecks chunk) (e :: es) = true) (separator : Mark) :
    Begins Token.startsExpr (joined separator (tokensOfExprs (e :: es))) := by
  rw [everyExpr, Bool.and_eq_true] at h
  rw [tokensOfExprs, joined]
  exact (Expr.begins h.1).append _

/-- A function is written with its parameters first. -/
theorem Function.begins (f : Function) (isMethod : Bool) (t : Token) :
    (f.tokens isMethod).headD t = .mark .lParen := by
  rcases f with ⟨name, params, body, chunk, line⟩
  rw [tokens, List.headD_cons]

theorem Field.begins {chunk : String} {f : Field} (h : f.every (printChecks chunk) = true) :
    Begins Token.startsField f.tokens := by
  cases f with
  | named name value =>
      rw [tokens]
      exact ⟨_, _, rfl, rfl⟩
  | keyed key value =>
      rw [tokens]
      exact ⟨_, _, rfl, rfl⟩
  | item value =>
      rw [tokens]
      refine (Expr.begins h).imp fun t ht => ?_
      rw [Token.startsField, ht, Bool.or_true]

/-- A statement that is no return begins with a keyword of its own, or with the head of a target or a
    call. -/
theorem Action.begins {chunk : String} {a : Action} (hreturn : (Stmt.mk 0 a).isReturn = false)
    (ha : a.every (printChecks chunk) = true) : Begins Token.startsStmt a.tokens := by
  have hshaped := Action.shaped_of_every ha
  cases a with
  | declare names values =>
      cases values <;> rw [tokens] <;> exact ⟨_, _, rfl, rfl⟩
  | assign targets values =>
      rw [every, Bool.and_eq_true, Bool.and_eq_true] at ha
      cases targets with
      | nil => cases hshaped
      | cons target targets =>
          rw [shaped, Bool.and_eq_true, Bool.and_eq_true, List.all_cons, Bool.and_eq_true]
            at hshaped
          rw [everyExpr, Bool.and_eq_true] at ha
          rw [tokens, tokensOfExprs, joined, List.append_assoc]
          have hhead := Expr.isHead_of_isAssignable hshaped.1.2.1
          exact ((Expr.begins_head hhead ha.2.1.1).imp fun t =>
            Token.startsStmt_of_startsHead).append _
  | call e =>
      rw [every, Bool.and_eq_true] at ha
      rw [tokens]
      exact (Expr.begins_head (Expr.isHead_of_isMulti hshaped) ha.2).imp fun t =>
        Token.startsStmt_of_startsHead
  | branch arms otherwise =>
      cases otherwise <;> rw [tokens] <;> exact ⟨_, _, rfl, rfl⟩
  | countLoop counter start limit step body =>
      cases step <;> rw [tokens] <;> exact ⟨_, _, rfl, rfl⟩
  | returnValues values => cases hreturn
  | _ =>
      rw [tokens]
      exact ⟨_, _, rfl, rfl⟩

theorem Stmt.begins {chunk : String} {s : Stmt} (hreturn : s.isReturn = false)
    (hs : s.every (printChecks chunk) = true) : Begins Token.startsStmt s.tokens := by
  rcases s with ⟨line, action⟩
  refine Action.begins ?_ hs
  cases action <;> first | rfl | exact hreturn

theorem Stmt.tokens_ne_nil_of_isReturn {s : Stmt} (h : s.isReturn = true) : s.tokens ≠ [] := by
  rcases s with ⟨line, action⟩
  cases action with
  | returnValues values =>
      rw [tokens, Action.tokens]
      exact List.cons_ne_nil _ _
  | _ => cases h

/-- Where some tokens begin with a name, there is no assignment mark behind it, unless one comes
    behind all the tokens. -/
def NotNamed (u : List Token) : Prop :=
  ∀ x rest, u = .name x :: rest → ∀ t, t ≠ .mark .assign → rest.headD t ≠ .mark .assign

/-- Only what comes first and second matters. -/
theorem NotNamed.append {u v : List Token} {t : Token} (h : NotNamed u) (hsome : u ≠ [])
    (ht : t ≠ .mark .assign) : NotNamed (u ++ t :: v) := by
  intro x rest hrest t' _
  cases u with
  | nil => exact (hsome rfl).elim
  | cons t₀ u =>
      cases hrest
      cases u with
      | nil => exact ht
      | cons t₁ u => exact h x (t₁ :: u) rfl t ht

theorem NotNamed.of_head {t : Token} {u : List Token} (ht : ∀ x, t ≠ .name x) :
    NotNamed (t :: u) := by
  intro x rest hrest
  cases hrest
  exact (ht x rfl).elim

/-- No expression looks like an entry with a name. -/
theorem Expr.notNamed {chunk : String} : ∀ {e : Expr}, e.every (printChecks chunk) = true →
    NotNamed e.tokens
  | .name x, _ => by
      intro x' rest hrest t ht
      cases hrest
      exact ht
  | .index object key, he => by
      rw [every, Bool.and_eq_true, Bool.and_eq_true] at he
      rw [tokens]
      exact (notNamed he.2.1).append (begins he.2.1).ne_nil fun h => by cases h
  | .call callee args, he => by
      rw [every, Bool.and_eq_true, Bool.and_eq_true] at he
      rw [tokens]
      exact (notNamed he.2.1).append (begins he.2.1).ne_nil fun h => by cases h
  | .method object word args, he => by
      rw [every, Bool.and_eq_true, Bool.and_eq_true] at he
      rw [tokens]
      exact (notNamed he.2.1).append (begins he.2.1).ne_nil fun h => by cases h
  | .binary op left right, he => by
      rw [every, Bool.and_eq_true, Bool.and_eq_true] at he
      rw [tokens]
      exact (notNamed he.2.1).append (begins he.2.1).ne_nil (by cases op <;> intro h <;> cases h)
  | .nil, _ => NotNamed.of_head fun x h => by cases h
  | .bool true, _ => NotNamed.of_head fun x h => by cases h
  | .bool false, _ => NotNamed.of_head fun x h => by cases h
  | .number y, _ => NotNamed.of_head fun x h => by cases h
  | .text s, _ => NotNamed.of_head fun x h => by cases h
  | .function f, _ => by
      rw [tokens]
      exact NotNamed.of_head fun x h => by cases h
  | .table fields, _ => by
      rw [tokens]
      exact NotNamed.of_head fun x h => by cases h
  | .unary op operand, _ => by
      rw [tokens]
      exact NotNamed.of_head fun x h => by cases h
  | .paren inner, _ => by
      rw [tokens]
      exact NotNamed.of_head fun x h => by cases h

/-! ## Paths -/

/-- What stands behind the path of a function for the name of a method, if there is one. -/
def methodTokens : Option String → List Token
  | none => []
  | some name => [.mark .colon, .name name]

theorem pathTokens_eq (names : List String) (method : Option String) :
    pathTokens (names ++ method.toList) method.isSome =
      joined .dot (names.map nameTokens) ++ methodTokens method := by
  cases method with
  | none => simp [pathTokens, methodTokens]
  | some name => simp [pathTokens, methodTokens]

/-- Where a method is defined, its name is the last of the path, and the root another one. -/
theorem path_cases {root : String} {path : List String} {isMethod : Bool}
    (hroot : path.head? = some root) (hlength : isMethod = true → 2 ≤ path.length) :
    ∃ (names : List String) (method : Option String),
      path = names ++ method.toList ∧ isMethod = method.isSome ∧ names.head? = some root := by
  cases isMethod with
  | false => exact ⟨path, none, (List.append_nil path).symm, rfl, hroot⟩
  | true =>
      have htwo := hlength rfl
      rcases List.eq_nil_or_concat path with rfl | ⟨names, last, rfl⟩
      · cases hroot
      · rw [List.concat_eq_append] at hroot htwo
        refine ⟨names, some last, List.concat_eq_append, rfl, ?_⟩
        cases names with
        | nil =>
            rw [List.nil_append, List.length_singleton] at htwo
            omega
        | cons name names => exact hroot

/-! ## Parts that may be missing -/

/-- What stands behind the arms of a branch. -/
def elseTokens : Option (List Stmt) → List Token
  | none => [.mark .endWord]
  | some body => .mark .elseWord :: (blockTokens body ++ [.mark .endWord])

/-- Whatever stands behind an arm, its block ends there. -/
theorem elseTokens_ends (arms : List Arm) (otherwise : Option (List Stmt)) (t : Token) :
    (((tokensOfArms arms).flatMap (.mark .elseIfWord :: ·) ++
      elseTokens otherwise).headD t).endsBlock = true := by
  cases arms with
  | nil => cases otherwise <;> rfl
  | cons a arms => rfl

/-- What stands behind the limit of a numeric loop. -/
def stepTokens : Option Expr → List Token
  | none => []
  | some step => .mark .comma :: step.tokens

/-- What stands behind the names of a declaration. -/
def valueTokens : List Expr → List Token
  | [] => []
  | value :: values => .mark .assign :: joined .comma (tokensOfExprs (value :: values))

theorem Action.tokens_branch (arms : List Arm) (otherwise : Option (List Stmt)) :
    (Action.branch arms otherwise).tokens =
      .mark .ifWord :: (joined .elseIfWord (tokensOfArms arms) ++ elseTokens otherwise) := by
  cases otherwise <;> rw [tokens] <;> rfl

theorem Action.tokens_countLoop (counter : String) (start limit : Expr) (step : Option Expr)
    (body : List Stmt) :
    (Action.countLoop counter start limit step body).tokens =
      .mark .forWord :: .name counter :: .mark .assign :: (start.tokens ++ .mark .comma ::
        (limit.tokens ++ (stepTokens step ++
          .mark .doWord :: (blockTokens body ++ [.mark .endWord])))) := by
  cases step <;> rw [tokens] <;> rfl

theorem Action.tokens_declare (names : List String) (values : List Expr) :
    (Action.declare names values).tokens =
      .mark .localWord :: (joined .comma (names.map nameTokens) ++ valueTokens values) := by
  cases values with
  | nil => rw [tokens, valueTokens, List.append_nil]
  | cons value values => rw [tokens, valueTokens, tokensOfExprs]

theorem Action.unlined_branch (arms : List Arm) (otherwise : Option (List Stmt)) :
    (Action.branch arms otherwise).unlined =
      .branch (unlinedArms arms) (otherwise.map unlinedBlock) := by
  cases otherwise <;> rw [unlined] <;> rfl

theorem Action.unlined_countLoop (counter : String) (start limit : Expr) (step : Option Expr)
    (body : List Stmt) :
    (Action.countLoop counter start limit step body).unlined =
      .countLoop counter start.unlined limit.unlined (step.map Expr.unlined)
        (unlinedBlock body) := by
  cases step <;> rw [unlined] <;> rfl

theorem Action.branch_parts {c : Checks} {arms : List Arm} {otherwise : Option (List Stmt)}
    {n : Nat} (h : (Action.branch arms otherwise).every c = true)
    (hn : (Action.branch arms otherwise).levels ≤ n + 1) :
    everyArm c arms = true ∧ levelsOfArms arms ≤ n ∧
      ∀ body, otherwise = some body → everyStmt c body = true ∧ levelsOfBlock body ≤ n := by
  cases otherwise with
  | none =>
      rw [every, Bool.and_eq_true] at h
      rw [levels] at hn
      refine ⟨h.2, by omega, fun body hbody => ?_⟩
      cases hbody
  | some body =>
      rw [every, Bool.and_eq_true, Bool.and_eq_true] at h
      rw [levels] at hn
      refine ⟨h.2.1, by omega, fun body' hbody => ?_⟩
      cases hbody
      exact ⟨h.2.2, by omega⟩

theorem Action.countLoop_parts {c : Checks} {counter : String} {start limit : Expr}
    {step : Option Expr} {body : List Stmt} {n : Nat}
    (h : (Action.countLoop counter start limit step body).every c = true)
    (hn : (Action.countLoop counter start limit step body).levels ≤ n + 1) :
    (start.every c = true ∧ start.levels ≤ n) ∧ (limit.every c = true ∧ limit.levels ≤ n) ∧
      (∀ e, step = some e → e.every c = true ∧ e.levels ≤ n) ∧
      everyStmt c body = true ∧ levelsOfBlock body ≤ n := by
  cases step with
  | none =>
      simp only [every, Bool.and_eq_true] at h
      rw [levels] at hn
      refine ⟨⟨h.2.1, by omega⟩, ⟨h.2.2.1, by omega⟩, fun e he => ?_, h.2.2.2, by omega⟩
      cases he
  | some step =>
      simp only [every, Bool.and_eq_true] at h
      rw [levels] at hn
      refine ⟨⟨h.2.1, by omega⟩, ⟨h.2.2.1, by omega⟩, fun e he => ?_, h.2.2.2.2, by omega⟩
      cases he
      exact ⟨h.2.2.2.1, by omega⟩

/-! ## What was parsed -/

/-- What a parsed expression has in common with the one that was written: all but the lines. -/
def Expr.seen (e : Expr) : Expr × Nat :=
  (e.unlined, e.height)

/-- An expression that was parsed, without lines, and the height that was counted. -/
def Measured.seen (e : Measured) : Expr × Nat :=
  (e.expr.unlined, e.height)

/-- An entry of a table constructor without lines, and its height. -/
def Field.seen (f : Field) : Field × Nat :=
  (f.unlined, f.height)

/-- An entry that was parsed, without lines, and the height that was counted. -/
def MeasuredField.seen (f : MeasuredField) : Field × Nat :=
  (f.field.unlined, f.height)

theorem Measured.unlined_of_seen {e : Measured} {e' : Expr} (h : e.seen = e'.seen) :
    e.expr.unlined = e'.unlined :=
  congrArg Prod.fst h

theorem Measured.height_of_seen {e : Measured} {e' : Expr} (h : e.seen = e'.seen) :
    e.height = e'.height :=
  congrArg Prod.snd h

section Lists

theorem tokensOfExprs_eq (es : List Expr) : tokensOfExprs es = es.map Expr.tokens := by
  induction es with
  | nil => rfl
  | cons e es ih => rw [tokensOfExprs, ih, List.map_cons]

theorem unlinedExprs_eq (es : List Expr) : unlinedExprs es = es.map Expr.unlined := by
  induction es with
  | nil => rfl
  | cons e es ih => rw [unlinedExprs, ih, List.map_cons]

theorem unlinedFields_eq (fs : List Field) : unlinedFields fs = fs.map Field.unlined := by
  induction fs with
  | nil => rfl
  | cons f fs ih => rw [unlinedFields, ih, List.map_cons]

theorem unlinedArms_eq (arms : List Arm) : unlinedArms arms = arms.map Arm.unlined := by
  induction arms with
  | nil => rfl
  | cons a arms ih => rw [unlinedArms, ih, List.map_cons]

theorem unlinedBlock_eq (stmts : List Stmt) : unlinedBlock stmts = stmts.map Stmt.unlined := by
  induction stmts with
  | nil => rfl
  | cons s stmts ih => rw [unlinedBlock, ih, List.map_cons]

theorem heightOfList_eq (es : List Expr) : heightOfList es = (es.map Expr.height).foldr max 0 := by
  induction es with
  | nil => rfl
  | cons e es ih => rw [heightOfList, ih, List.map_cons, List.foldr_cons]

theorem heightOfFields_eq (fs : List Field) :
    heightOfFields fs = (fs.map Field.height).foldr max 0 := by
  induction fs with
  | nil => rfl
  | cons f fs ih => rw [heightOfFields, ih, List.map_cons, List.foldr_cons]

/-- The largest of several numbers does not depend on the end that one begins at. -/
theorem foldl_max (ns : List Nat) (n : Nat) : ns.foldl max n = max n (ns.foldr max 0) := by
  induction ns generalizing n with
  | nil => exact (Nat.max_zero n).symm
  | cons m ns ih => rw [List.foldl_cons, ih, List.foldr_cons, Nat.max_assoc]

/-- The largest of several numbers is not less than any of them. -/
theorem le_foldl_max {α : Type} (f : α → Nat) {items : List α} {a : α} (ha : a ∈ items) (n : Nat) :
    f a ≤ items.foldl (fun h b => max h (f b)) n := by
  have hmem : f a ≤ (items.map f).foldr max 0 := by
    induction items with
    | nil => exact (List.not_mem_nil ha).elim
    | cons b items ih =>
        rw [List.map_cons, List.foldr_cons]
        rcases List.mem_cons.mp ha with rfl | ha
        · exact Nat.le_max_left _ _
        · exact Nat.le_trans (ih ha) (Nat.le_max_right _ _)
  rw [← List.foldl_map (f := f) (g := max), foldl_max]
  exact Nat.le_trans hmem (Nat.le_max_right _ _)

/-- Counted heights that are those of expressions have their maximum. -/
theorem tallest_eq {ms : List Measured} {es : List Expr}
    (h : ms.map (·.height) = es.map Expr.height) : Measured.tallest ms = heightOfList es := by
  rw [heightOfList_eq, ← h, Measured.tallest, ← Nat.zero_max ((ms.map (·.height)).foldr max 0),
    ← foldl_max, List.foldl_map]

/-- So have those of the entries of a table, which are collected in reverse. -/
theorem tallestField_eq {fs : List MeasuredField} {fields : List Field}
    (h : fs.reverse.map (·.height) = fields.map Field.height) :
    fs.foldl (fun h f => max h f.height) 0 = heightOfFields fields := by
  have hmax : (fs.map (·.height)).foldl max 0 = heightOfFields fields := by
    rw [heightOfFields_eq, ← h, List.map_reverse, List.foldr_reverse]
    have hcomm : (fun a b => max b a) = (fun a b : Nat => max a b) :=
      funext fun a => funext fun b => Nat.max_comm b a
    rw [hcomm]
  rw [List.foldl_map] at hmax
  exact hmax

theorem le_levelsOfExprs {es : List Expr} {e : Expr} (he : e ∈ es) :
    e.levels ≤ levelsOfExprs es := by
  induction es with
  | nil => exact (List.not_mem_nil he).elim
  | cons e' es ih =>
      rw [levelsOfExprs]
      rcases List.mem_cons.mp he with rfl | he
      · exact Nat.le_max_left _ _
      · exact Nat.le_trans (ih he) (Nat.le_max_right _ _)

end Lists

section Seen

variable {ms : List Measured} {es : List Expr}

theorem unlinedExprs_of_seen (h : ms.map Measured.seen = es.map Expr.seen) :
    unlinedExprs (ms.map (·.expr)) = unlinedExprs es := by
  have hfst := congrArg (List.map Prod.fst) h
  rw [List.map_map, List.map_map] at hfst
  rw [unlinedExprs_eq, unlinedExprs_eq, List.map_map]
  exact hfst

theorem tallest_of_seen (h : ms.map Measured.seen = es.map Expr.seen) :
    Measured.tallest ms = heightOfList es := by
  have hsnd := congrArg (List.map Prod.snd) h
  rw [List.map_map, List.map_map] at hsnd
  exact tallest_eq hsnd

/-- The entries of a table are collected in reverse. -/
theorem table_seen {fs : List MeasuredField} {fields : List Field}
    (h : fs.reverse.map MeasuredField.seen = fields.map Field.seen) :
    Measured.seen ⟨.table (fs.reverse.map (·.field)), fs.foldl (fun h f => max h f.height) 0 + 1⟩ =
      Expr.seen (.table fields) := by
  have hfst := congrArg (List.map Prod.fst) h
  have hsnd := congrArg (List.map Prod.snd) h
  rw [List.map_map, List.map_map] at hfst hsnd
  have hunlined : (fs.reverse.map (·.field)).map Field.unlined = fields.map Field.unlined := by
    rw [List.map_map]
    exact hfst
  have hmax := tallestField_eq hsnd
  rw [Measured.seen, Expr.seen, Expr.unlined, Expr.unlined, Expr.height, unlinedFields_eq,
    unlinedFields_eq, hunlined, hmax]

end Seen

theorem Expr.isMulti_unlined (e : Expr) : e.unlined.isMulti = e.isMulti := by
  cases e <;> rfl

theorem Expr.isAssignable_unlined (e : Expr) : e.unlined.isAssignable = e.isAssignable := by
  cases e <;> rfl

/-- No expression is written without entering a level. -/
theorem Expr.levels_pos (e : Expr) : 0 < e.levels := by
  cases e with
  | index object key => exact Nat.lt_of_lt_of_le (Nat.succ_pos _) (Nat.le_max_right _ _)
  | call callee args => exact Nat.lt_of_lt_of_le (Nat.succ_pos _) (Nat.le_max_right _ _)
  | method object name args => exact Nat.lt_of_lt_of_le (Nat.succ_pos _) (Nat.le_max_right _ _)
  | binary op left right => exact Nat.lt_of_lt_of_le (Nat.succ_pos _) (Nat.le_max_right _ _)
  | _ => simp only [levels, Nat.succ_pos]

/-- Nor any statement, the return apart. -/
theorem Stmt.levels_pos {s : Stmt} (h : s.isReturn = false) : 0 < s.levels := by
  rcases s with ⟨line, action⟩
  rw [Stmt.levels]
  cases action with
  | assign targets values => exact Nat.lt_of_lt_of_le (Nat.succ_pos _) (Nat.le_max_right _ _)
  | call e => exact e.levels_pos
  | branch arms otherwise => cases otherwise <;> exact Nat.succ_pos _
  | countLoop counter start limit step body => cases step <;> exact Nat.succ_pos _
  | returnValues values => cases h
  | _ => simp only [Action.levels, Nat.succ_pos]

end Script

end PixelEffects
