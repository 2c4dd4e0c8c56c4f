import PixelEffects.Proofs.Script.Reach
import PixelEffects.Proofs.Script.Syntax.ParsedSlack
import PixelEffects.Script.Machine

/-!
# Reach of Parsed Chunks

A parsed source, and every function in it, reaches no further down than evaluation may go.

The parser has two bounds, and they are counted differently. The levels bound how statements and
functions are nested, and the heights bound each expression by itself. Evaluation has one counter for
both. On the way down to some expression it counts the blocks on the way first, of which each is part
of a statement or a function on a level of its own, and then it counts along the expression. The level
that the expression itself is on is counted in both. So the reach of a statement is less than its
levels and the largest height together, and with the block of the whole source that makes as much as
evaluation may have under way.

The bound is met by blocks inside of blocks, one for each level but the last, and on that one an
expression that is as tall as possible.

## Theorems

* `Action.reach_lt`, `Expr.bodies_lt` and the others: The bound for each kind of syntax.
* `parseChunk_reach`: A parsed chunk and the functions in it are within the limit of evaluation.
-/

namespace PixelEffects

namespace Script

theorem Expr.leastLevels_pos (e : Expr) : 0 < e.leastLevels :=
  Nat.zero_lt_of_lt e.slack_lt

/-! ## Heights -/

theorem Expr.height_le {e : Expr} (h : e.every heightChecks = true) : e.height ≤ maxSyntaxLevels := by
  cases e <;> simp only [Expr.every, heightChecks, Bool.and_eq_true, decide_eq_true_eq] at h <;> omega

theorem heightOfList_lt {es : List Expr} (h : everyExpr heightChecks es = true) :
    heightOfList es < leastLevelsOfList es + maxSyntaxLevels := by
  induction es with
  | nil => decide
  | cons e es ih =>
      simp only [everyExpr, Bool.and_eq_true] at h
      have he := Expr.height_le h.1
      have hes := ih h.2
      have hpos := e.leastLevels_pos
      simp only [heightOfList, leastLevelsOfList]
      omega

/-! ## Reach -/

mutual

theorem Stmt.reach_lt : (s : Stmt) → s.every heightChecks = true →
    s.reach < s.leastLevels + maxSyntaxLevels
  | .mk _ action, h => Action.reach_lt action h

theorem reachOfBlock_lt : (body : List Stmt) → everyStmt heightChecks body = true →
    reachOfBlock body < leastLevelsOfBlock body + maxSyntaxLevels
  | [], _ => by decide
  | s :: rest, h => by
      simp only [everyStmt, Bool.and_eq_true] at h
      have hs := Stmt.reach_lt s h.2.1
      have hrest := reachOfBlock_lt rest h.2.2
      simp only [reachOfBlock, leastLevelsOfBlock]
      omega

theorem reachOfArms_lt : (arms : List Arm) → everyArm heightChecks arms = true →
    reachOfArms arms < leastLevelsOfArms arms + maxSyntaxLevels
  | [], _ => by decide
  | .mk condition body :: arms, h => by
      simp only [everyArm, Arm.every, Bool.and_eq_true] at h
      have hcondition := Expr.height_le h.1.1
      have hbody := reachOfBlock_lt body h.1.2
      have harms := reachOfArms_lt arms h.2
      simp only [reachOfArms, leastLevelsOfArms, Arm.leastLevels]
      omega

/-- A statement reaches less far than its levels and the tallest expression together. -/
theorem Action.reach_lt : (a : Action) → a.every heightChecks = true →
    a.reach < a.leastLevels + maxSyntaxLevels
  | .declare _ values, h => by
      simp only [Action.every, Bool.and_eq_true] at h
      exact heightOfList_lt h.2
  | .assign targets values, h => by
      simp only [Action.every, Bool.and_eq_true] at h
      have htargets := heightOfList_lt h.2.1
      have hvalues := heightOfList_lt h.2.2
      simp only [Action.reach, Action.leastLevels]
      omega
  | .call e, h => by
      simp only [Action.every, Bool.and_eq_true] at h
      have he := Expr.height_le h.2
      have hpos := e.leastLevels_pos
      simp only [Action.reach, Action.leastLevels]
      omega
  | .block body, h => by
      simp only [Action.every, Bool.and_eq_true] at h
      have hbody := reachOfBlock_lt body h.2
      -- The block is one more on both sides: a counted region, and a level of the parser.
      simp only [Action.reach, Action.leastLevels]
      omega
  | .branch arms none, h => by
      simp only [Action.every, Bool.and_eq_true] at h
      exact reachOfArms_lt arms h.2
  | .branch arms (some otherwise), h => by
      simp only [Action.every, Bool.and_eq_true] at h
      have harms := reachOfArms_lt arms h.2.1
      have hotherwise := reachOfBlock_lt otherwise h.2.2
      simp only [Action.reach, Action.leastLevels]
      omega
  | .whileLoop condition body, h => by
      simp only [Action.every, Bool.and_eq_true] at h
      have hcondition := Expr.height_le h.2.1
      have hbody := reachOfBlock_lt body h.2.2
      simp only [Action.reach, Action.leastLevels]
      omega
  | .repeatLoop body condition, h => by
      simp only [Action.every, Bool.and_eq_true] at h
      have hbody := reachOfBlock_lt body h.2.1
      have hcondition := Expr.height_le h.2.2
      simp only [Action.reach, Action.leastLevels]
      omega
  | .countLoop _ start limit none body, h => by
      simp only [Action.every, Bool.and_eq_true] at h
      have hstart := Expr.height_le h.2.1
      have hlimit := Expr.height_le h.2.2.1
      have hbody := reachOfBlock_lt body h.2.2.2
      simp only [Action.reach, Action.leastLevels]
      omega
  | .countLoop _ start limit (some step) body, h => by
      simp only [Action.every, Bool.and_eq_true] at h
      have hstart := Expr.height_le h.2.1
      have hlimit := Expr.height_le h.2.2.1
      have hstep := Expr.height_le h.2.2.2.1
      have hbody := reachOfBlock_lt body h.2.2.2.2
      simp only [Action.reach, Action.leastLevels]
      omega
  | .eachLoop _ exprs body, h => by
      simp only [Action.every, Bool.and_eq_true] at h
      have hexprs := heightOfList_lt h.2.1
      have hbody := reachOfBlock_lt body h.2.2
      simp only [Action.reach, Action.leastLevels]
      omega
  | .define .., _ | .declareFunction .., _ | .breakLoop, _ => by
      simp only [Action.reach, maxSyntaxLevels]
      omega
  | .returnValues values, h => by
      simp only [Action.every, Bool.and_eq_true] at h
      exact heightOfList_lt h.2

end

/-! ## Functions -/

mutual

/-- A function in an expression is called with as many levels left as the expression leaves, and the
    expression is one level by itself. So its body, which is a block, has the same bound. -/
theorem Expr.bodies_lt : (e : Expr) → e.every heightChecks = true →
    e.bodies < e.leastLevels + maxSyntaxLevels
  | .nil, _ | .bool _, _ | .number _, _ | .text _, _ | .name _, _ => by
      simp only [Expr.bodies, maxSyntaxLevels]
      omega
  | .function definition, h => by
      simp only [Expr.every, Bool.and_eq_true] at h
      have hdefinition := Function.bodies_le definition h.2
      simp only [Expr.bodies, Expr.leastLevels]
      omega
  | .index object key, h => by
      simp only [Expr.every, Bool.and_eq_true] at h
      have hobject := Expr.bodies_lt object h.2.1
      have hkey := Expr.bodies_lt key h.2.2
      simp only [Expr.bodies, Expr.leastLevels]
      omega
  | .call callee args, h => by
      simp only [Expr.every, Bool.and_eq_true] at h
      have hcallee := Expr.bodies_lt callee h.2.1
      have hargs := bodiesOfList_lt_args args h.2.2
      simp only [Expr.bodies, Expr.leastLevels]
      omega
  | .method object _ args, h => by
      simp only [Expr.every, Bool.and_eq_true] at h
      have hobject := Expr.bodies_lt object h.2.1
      have hargs := bodiesOfList_lt_args args h.2.2
      simp only [Expr.bodies, Expr.leastLevels]
      omega
  | .table fields, h => by
      simp only [Expr.every, Bool.and_eq_true] at h
      have hfields := bodiesOfFields_lt fields h.2
      simp only [Expr.bodies, Expr.leastLevels]
      omega
  | .unary _ operand, h => by
      simp only [Expr.every, Bool.and_eq_true] at h
      exact Expr.bodies_lt operand h.2
  | .binary _ left right, h => by
      simp only [Expr.every, Bool.and_eq_true] at h
      have hleft := Expr.bodies_lt left h.2.1
      have hright := Expr.bodies_lt right h.2.2
      simp only [Expr.bodies, Expr.leastLevels]
      omega
  | .paren inner, h => by
      simp only [Expr.every, Bool.and_eq_true] at h
      exact Expr.bodies_lt inner h.2

theorem bodiesOfList_lt_args : (es : List Expr) → everyExpr heightChecks es = true →
    bodiesOfList es < leastLevelsOfArgs es + maxSyntaxLevels
  | [], _ => by decide
  | e :: es, h => by
      simp only [everyExpr, Bool.and_eq_true] at h
      have he := Expr.bodies_lt e h.1
      have hes := bodiesOfList_lt_args es h.2
      simp only [bodiesOfList, leastLevelsOfArgs]
      omega

theorem bodiesOfFields_lt : (fs : List Field) → everyField heightChecks fs = true →
    bodiesOfFields fs < leastLevelsOfFields fs + maxSyntaxLevels
  | [], _ => by decide
  | f :: fs, h => by
      simp only [everyField, Bool.and_eq_true] at h
      have hf := Field.bodies_lt f h.1
      have hfs := bodiesOfFields_lt fs h.2
      simp only [bodiesOfFields, leastLevelsOfFields]
      omega

theorem Field.bodies_lt : (f : Field) → f.every heightChecks = true →
    f.bodies < f.leastLevels + maxSyntaxLevels
  | .named _ value, h => Expr.bodies_lt value h
  | .keyed key value, h => by
      simp only [Field.every, Bool.and_eq_true] at h
      have hkey := Expr.bodies_lt key h.1
      have hvalue := Expr.bodies_lt value h.2
      simp only [Field.bodies, Field.leastLevels]
      omega
  | .item value, h => by
      have hvalue := Expr.bodies_lt value h
      simp only [Field.bodies, Field.leastLevels]
      omega

theorem Function.bodies_le : (f : Function) → f.every heightChecks = true →
    f.bodies ≤ f.leastLevels + maxSyntaxLevels
  | .mk _ _ body _ _, h => by
      have hreach := reachOfBlock_lt body h
      have hbody := bodiesOfBlock_lt body h
      simp only [Function.bodies, Function.leastLevels]
      omega

theorem bodiesOfBlock_lt : (body : List Stmt) → everyStmt heightChecks body = true →
    bodiesOfBlock body < leastLevelsOfBlock body + maxSyntaxLevels
  | [], _ => by decide
  | s :: rest, h => by
      simp only [everyStmt, Bool.and_eq_true] at h
      have hs := Stmt.bodies_lt s h.2.1
      have hrest := bodiesOfBlock_lt rest h.2.2
      simp only [bodiesOfBlock, leastLevelsOfBlock]
      omega

theorem bodiesOfArms_lt : (arms : List Arm) → everyArm heightChecks arms = true →
    bodiesOfArms arms < leastLevelsOfArms arms + maxSyntaxLevels
  | [], _ => by decide
  | .mk condition body :: arms, h => by
      simp only [everyArm, Arm.every, Bool.and_eq_true] at h
      have hcondition := Expr.bodies_lt condition h.1.1
      have hbody := bodiesOfBlock_lt body h.1.2
      have harms := bodiesOfArms_lt arms h.2
      simp only [bodiesOfArms, leastLevelsOfArms, Arm.leastLevels]
      omega

theorem Stmt.bodies_lt : (s : Stmt) → s.every heightChecks = true →
    s.bodies < s.leastLevels + maxSyntaxLevels
  | .mk _ action, h => Action.bodies_lt action h

theorem bodiesOfList_lt : (es : List Expr) → everyExpr heightChecks es = true →
    bodiesOfList es < leastLevelsOfList es + maxSyntaxLevels
  | [], _ => by decide
  | e :: es, h => by
      simp only [everyExpr, Bool.and_eq_true] at h
      have he := Expr.bodies_lt e h.1
      have hes := bodiesOfList_lt es h.2
      simp only [bodiesOfList, leastLevelsOfList]
      omega

theorem Action.bodies_lt : (a : Action) → a.every heightChecks = true →
    a.bodies < a.leastLevels + maxSyntaxLevels
  | .declare _ values, h | .returnValues values, h => by
      simp only [Action.every, Bool.and_eq_true] at h
      exact bodiesOfList_lt values h.2
  | .assign targets values, h => by
      simp only [Action.every, Bool.and_eq_true] at h
      have htargets := bodiesOfList_lt targets h.2.1
      have hvalues := bodiesOfList_lt values h.2.2
      simp only [Action.bodies, Action.leastLevels]
      omega
  | .call e, h => by
      simp only [Action.every, Bool.and_eq_true] at h
      exact Expr.bodies_lt e h.2
  | .block body, h => by
      simp only [Action.every, Bool.and_eq_true] at h
      have hbody := bodiesOfBlock_lt body h.2
      simp only [Action.bodies, Action.leastLevels]
      omega
  | .branch arms none, h => by
      simp only [Action.every, Bool.and_eq_true] at h
      exact bodiesOfArms_lt arms h.2
  | .branch arms (some otherwise), h => by
      simp only [Action.every, Bool.and_eq_true] at h
      have harms := bodiesOfArms_lt arms h.2.1
      have hotherwise := bodiesOfBlock_lt otherwise h.2.2
      simp only [Action.bodies, Action.leastLevels]
      omega
  | .whileLoop condition body, h => by
      simp only [Action.every, Bool.and_eq_true] at h
      have hcondition := Expr.bodies_lt condition h.2.1
      have hbody := bodiesOfBlock_lt body h.2.2
      simp only [Action.bodies, Action.leastLevels]
      omega
  | .repeatLoop body condition, h => by
      simp only [Action.every, Bool.and_eq_true] at h
      have hbody := bodiesOfBlock_lt body h.2.1
      have hcondition := Expr.bodies_lt condition h.2.2
      simp only [Action.bodies, Action.leastLevels]
      omega
  | .countLoop _ start limit none body, h => by
      simp only [Action.every, Bool.and_eq_true] at h
      have hstart := Expr.bodies_lt start h.2.1
      have hlimit := Expr.bodies_lt limit h.2.2.1
      have hbody := bodiesOfBlock_lt body h.2.2.2
      simp only [Action.bodies, Action.leastLevels]
      omega
  | .countLoop _ start limit (some step) body, h => by
      simp only [Action.every, Bool.and_eq_true] at h
      have hstart := Expr.bodies_lt start h.2.1
      have hlimit := Expr.bodies_lt limit h.2.2.1
      have hstep := Expr.bodies_lt step h.2.2.2.1
      have hbody := bodiesOfBlock_lt body h.2.2.2.2
      simp only [Action.bodies, Action.leastLevels]
      omega
  | .eachLoop _ exprs body, h => by
      simp only [Action.every, Bool.and_eq_true] at h
      have hexprs := bodiesOfList_lt exprs h.2.1
      have hbody := bodiesOfBlock_lt body h.2.2
      simp only [Action.bodies, Action.leastLevels]
      omega
  | .define _ _ _ definition, h | .declareFunction _ definition, h => by
      simp only [Action.every, Bool.and_eq_true] at h
      have hdefinition := Function.bodies_le definition h.2
      simp only [Action.bodies, Action.leastLevels]
      omega
  | .breakLoop, _ => by decide

end

/-- With the block that it is, a parsed chunk reaches no further than evaluation may go, and neither
    does any function in it. -/
theorem parseChunk_reach {name source : String} {chunk : Chunk}
    (h : parseChunk name source = .ok chunk) :
    reachOfBlock chunk.body + 1 ≤ maxNesting ∧ bodiesOfBlock chunk.body ≤ maxNesting := by
  rcases parseTokens_of_parseChunk h with ⟨ts, -, hparse⟩
  have hlevels := parseTokens_leastLevels hparse
  have hreach := reachOfBlock_lt chunk.body (parseChunk_heights h)
  have hbodies := bodiesOfBlock_lt chunk.body (parseChunk_heights h)
  have hlimit : maxSyntaxLevels + maxSyntaxLevels = maxNesting := rfl
  omega

end Script

end PixelEffects
