import PixelEffects.Proofs.Script.Slack
import PixelEffects.Proofs.Script.Syntax.Depth
import PixelEffects.Proofs.Script.Syntax.LeastLevels

/-!
# Slack of Parsed Chunks

No parsed source has more slack than the parser has levels.

Every region that evaluation does not count is the body of a `repeat`, which is part of a statement,
or a call, which is an operand or a statement of its own. Each takes up a level of the parser, so the
slack of a tree is within its least levels. An expression of which one value is wanted has one level
more than that, its own.

## Theorems

* `Expr.slack_lt`, `Action.slack_le` and the others: Slack is within the least levels.
* `parseChunk_slack`: A parsed chunk has no more slack than there are levels.
-/

namespace PixelEffects

namespace Script

mutual

/-- An expression has a level that its slack does not need. -/
theorem Expr.slack_lt : (e : Expr) → e.slack < e.leastLevels
  | .nil | .bool _ | .number _ | .text _ | .name _ => Nat.zero_lt_one
  | .function definition => by
      have hdefinition := Function.slack_le definition
      simp only [Expr.slack, Expr.leastLevels]
      omega
  | .index object key => by
      have hobject := Expr.slack_lt object
      have hkey := Expr.slack_lt key
      simp only [Expr.slack, Expr.leastLevels]
      omega
  | .call callee args => by
      have hcallee := Expr.slack_lt callee
      have hargs := slackOfList_lt_args args
      simp only [Expr.slack, Expr.leastLevels]
      omega
  | .method object _ args => by
      have hobject := Expr.slack_lt object
      have hargs := slackOfList_lt_args args
      simp only [Expr.slack, Expr.leastLevels]
      omega
  | .table fields => by
      have hfields := slackOfFields_lt fields
      simp only [Expr.slack, Expr.leastLevels]
      omega
  | .unary _ operand => Expr.slack_lt operand
  | .binary _ left right => by
      have hleft := Expr.slack_lt left
      have hright := Expr.slack_lt right
      simp only [Expr.slack, Expr.leastLevels]
      omega
  | .paren inner => Expr.slack_lt inner

/-- All results of an argument that is a call may be wanted, but it takes up a level. -/
theorem slackOfList_lt_args : (es : List Expr) → slackOfList es < max 1 (leastLevelsOfArgs es)
  | [] => Nat.zero_lt_one
  | e :: es => by
      have he := Expr.slack_lt e
      have hes := slackOfList_lt_args es
      simp only [slackOfList, leastLevelsOfArgs]
      omega

theorem slackOfFields_lt : (fs : List Field) → slackOfFields fs < max 1 (leastLevelsOfFields fs)
  | [] => Nat.zero_lt_one
  | f :: fs => by
      have hf := Field.slack_lt f
      have hfs := slackOfFields_lt fs
      simp only [slackOfFields, leastLevelsOfFields]
      omega

theorem Field.slack_lt : (f : Field) → f.slack < f.leastLevels
  | .named _ value => Expr.slack_lt value
  | .keyed key value => by
      have hkey := Expr.slack_lt key
      have hvalue := Expr.slack_lt value
      simp only [Field.slack, Field.leastLevels]
      omega
  | .item value => Nat.add_lt_add_right (Expr.slack_lt value) _

theorem Function.slack_le : (f : Function) → f.slack ≤ f.leastLevels
  | .mk _ _ body _ _ => slackOfBlock_le body

theorem slackOfBlock_le : (body : List Stmt) → slackOfBlock body ≤ leastLevelsOfBlock body
  | [] => Nat.le_refl 0
  | s :: rest => by
      have hs := Stmt.slack_le s
      have hrest := slackOfBlock_le rest
      simp only [slackOfBlock, leastLevelsOfBlock]
      omega

theorem slackOfArms_le : (arms : List Arm) → slackOfArms arms ≤ leastLevelsOfArms arms
  | [] => Nat.le_refl 0
  | .mk condition body :: arms => by
      have hcondition := Expr.slack_lt condition
      have hbody := slackOfBlock_le body
      have harms := slackOfArms_le arms
      simp only [slackOfArms, leastLevelsOfArms, Arm.leastLevels]
      omega

theorem Stmt.slack_le : (s : Stmt) → s.slack ≤ s.leastLevels
  | .mk _ action => Action.slack_le action

/-- In a statement all results of a call cost no more than the level of the expression. -/
theorem slackOfList_le : (es : List Expr) → slackOfList es ≤ leastLevelsOfList es
  | [] => Nat.le_refl 0
  | e :: es => by
      have he := Expr.slack_lt e
      have hes := slackOfList_le es
      have hmulti := Bool.toNat_le e.isMulti
      simp only [slackOfList, leastLevelsOfList]
      omega

theorem Action.slack_le : (a : Action) → a.slack ≤ a.leastLevels
  | .declare _ values => slackOfList_le values
  | .assign targets values => by
      have htargets := slackOfList_le targets
      have hvalues := slackOfList_le values
      simp only [Action.slack, Action.leastLevels]
      omega
  | .call e => by
      have he := Expr.slack_lt e
      have hmulti := Bool.toNat_le e.isMulti
      simp only [Action.slack, Action.leastLevels]
      omega
  | .block body => Nat.le_succ_of_le (slackOfBlock_le body)
  | .branch arms none => slackOfArms_le arms
  | .branch arms (some otherwise) => by
      have harms := slackOfArms_le arms
      have hotherwise := slackOfBlock_le otherwise
      simp only [Action.slack, Action.leastLevels]
      omega
  | .whileLoop condition body => by
      have hcondition := Expr.slack_lt condition
      have hbody := slackOfBlock_le body
      simp only [Action.slack, Action.leastLevels]
      omega
  | .repeatLoop body condition => by
      have hbody := slackOfBlock_le body
      have hcondition := Expr.slack_lt condition
      simp only [Action.slack, Action.leastLevels]
      omega
  | .countLoop _ start limit none body => by
      have hstart := Expr.slack_lt start
      have hlimit := Expr.slack_lt limit
      have hbody := slackOfBlock_le body
      simp only [Action.slack, Action.leastLevels]
      omega
  | .countLoop _ start limit (some step) body => by
      have hstart := Expr.slack_lt start
      have hlimit := Expr.slack_lt limit
      have hstep := Expr.slack_lt step
      have hbody := slackOfBlock_le body
      simp only [Action.slack, Action.leastLevels]
      omega
  | .eachLoop _ exprs body => by
      have hexprs := slackOfList_le exprs
      have hbody := slackOfBlock_le body
      simp only [Action.slack, Action.leastLevels]
      omega
  | .define _ _ _ definition => Nat.le_succ_of_le (Function.slack_le definition)
  | .declareFunction _ definition => Nat.le_succ_of_le (Function.slack_le definition)
  | .returnValues values => slackOfList_le values
  | .breakLoop => Nat.le_refl 0

end

/-- A source that is accepted has no more slack than there are levels. -/
theorem parseChunk_slack {name source : String} {chunk : Chunk}
    (h : parseChunk name source = .ok chunk) : slackOfBlock chunk.body ≤ maxSyntaxLevels := by
  rcases parseTokens_of_parseChunk h with ⟨ts, -, hparse⟩
  exact Nat.le_trans (slackOfBlock_le chunk.body) (parseTokens_leastLevels hparse)

end Script

end PixelEffects
