import PixelEffects.Proofs.Script.Syntax.Reads
import PixelEffects.Proofs.Script.Syntax.Written

/-!
# Completeness: Blocks

The blocks and functions that can be written are read, by parsers for statements and operands that
read what they should up to some number of levels.

What is read depends on what comes behind. A block ends before one of the keywords that end blocks,
or at the end of the source. The rounds of its loop are the statements and the semicolons between
them, and a return is the last.

## Main definitions

* `Level.Complete`: The parsers of a level read what they should.

## Theorems

* `Level.Complete.block`, `Level.Complete.closedBlock`: The statements of a block.
* `Level.Complete.functionBody`: A function from its parameters on.
-/

namespace PixelEffects

namespace Script

open PixelEffects.Script.Parser

namespace Reads

variable {β : Type} {n : Nat} {u : List Token} {t : Token} {Q : β → Prop}

/-- An expression that is not too tall is not refused. -/
theorem check {e : Measured} {f : Unit → Parser β} (hheight : e.height ≤ maxSyntaxLevels)
    (hf : Reads n (f ()) u t Q) : Reads n (e.check >>= f) u t Q := by
  unfold Measured.check
  rw [if_neg (by omega), pure_bind]
  exact hf

theorem blockEnds {f : Bool → Parser β} (hf : Reads n (f (u.headD t).endsBlock) u t Q) :
    Reads n (Parser.blockEnds >>= f) u t Q := by
  unfold Parser.blockEnds
  rw [bind_assoc]
  refine next fun line => ?_
  rw [pure_bind]
  exact hf

/-- Names with a mark between them. -/
theorem names {separator : Mark} {names : List String} (hnames : names ≠ [])
    (ht : t ≠ .mark separator) :
    Reads n (Parser.separated n separator Parser.name) (joined separator (names.map nameTokens)) t
      fun names' => names' = names := by
  have hread : Reads n (Parser.separated n separator Parser.name)
      (joined separator (names.map nameTokens)) t fun names' => names'.map id = names.map id :=
    separated hnames (fun word _ t' _ => Reads.word) ht
  refine hread.imp fun names' h => ?_
  rw [List.map_id, List.map_id] at h
  exact h

end Reads

variable {chunk : String}

namespace Level

/-- The parsers of a level read the statements and operands that can be written with up to `n`
    levels. -/
structure Complete (chunk : String) (n : Nat) (l : Level) : Prop where
  statement : ∀ {s : Stmt}, s.every (printChecks chunk) = true → s.isReturn = false →
    s.levels ≤ n → ∀ {t : Token}, t.endsStmt = true →
    Reads l.rounds l.statement s.tokens t fun s' => s'.unlined = s.unlined
  operand : ∀ {limit : Nat} {e : Expr}, e.every (printChecks chunk) = true →
    e.opens limit = true → e.levels ≤ n → ∀ {t : Token}, Stops limit e t → t.isSuffix = false →
    Reads l.rounds (l.operand limit) e.tokens t fun e' => e'.seen = e.seen

/-- The names of parameters, up to the closing parenthesis. -/
theorem reads_parameters (l : Level) (names : List String) {t : Token} :
    Reads l.rounds l.parameters (joined .comma (names.map nameTokens) ++ [.mark .rParen]) t
      fun names' => names' = names := by
  unfold Level.parameters
  cases names with
  | nil =>
      refine Reads.accept_some ?_
      rw [if_pos rfl]
      exact Reads.pure rfl
  | cons name names =>
      refine Reads.accept_none (fun h => by cases h) ?_
      rw [if_neg Bool.false_ne_true]
      refine Reads.bind (Reads.names (List.cons_ne_nil _ _) fun h => by cases h) fun names' h => ?_
      exact Reads.expect (Reads.pure h)

namespace Complete

variable {l : Level} {n : Nat} {t : Token} (h : l.Complete chunk n)

include h

theorem expr {e : Expr} (he : e.every (printChecks chunk) = true) (hn : e.levels ≤ n)
    (ht : t.endsExpr = true) : Reads l.rounds l.expr e.tokens t fun e' => e'.seen = e.seen :=
  h.operand he e.opens_zero hn (Token.stops_of_endsExpr ht 0 e) (Token.isSuffix_of_endsExpr ht)

theorem exprs {es : List Expr} (hsome : es ≠ []) (hes : everyExpr (printChecks chunk) es = true)
    (hn : levelsOfExprs es ≤ n) (ht : t.endsExpr = true) (hcomma : t ≠ .mark .comma) :
    Reads l.rounds l.exprs (joined .comma (tokensOfExprs es)) t
      fun es' => es'.map Measured.seen = es.map Expr.seen := by
  rw [tokensOfExprs_eq]
  refine Reads.separated hsome (fun e he t' ht' => ?_) hcomma
  refine h.expr (everyExpr_iff.mp hes e he) (Nat.le_trans (le_levelsOfExprs he) hn) ?_
  rcases ht' with rfl | rfl
  · rfl
  · exact ht

/-! ### Blocks -/

theorem returnValues {values : List Expr} (hvalues : everyExpr (printChecks chunk) values = true)
    (hn : levelsOfExprs values ≤ n) (ht : t.endsBlock = true) :
    Reads l.rounds l.returnValues (joined .comma (tokensOfExprs values)) t
      fun values' => unlinedExprs values' = unlinedExprs values := by
  unfold Level.returnValues
  refine Reads.blockEnds ?_
  cases values with
  | nil =>
      rw [tokensOfExprs, joined, List.headD_nil, ht, if_pos rfl]
      exact Reads.pure rfl
  | cons value values =>
      have hfirst := (begins_exprs hvalues .comma).headD t
      have hends := Token.endsExpr_of_endsStmt (Token.endsStmt_of_endsBlock ht)
      rw [Token.endsBlock_of_startsExpr hfirst, if_neg Bool.false_ne_true]
      refine Reads.sees_none (Token.ne_mark Token.startsExpr hfirst rfl) ?_
      rw [if_neg Bool.false_ne_true]
      refine Reads.map ((h.exprs (List.cons_ne_nil _ _) hvalues hn hends
        (Token.ne_mark Token.endsBlock ht rfl)).imp fun es hes => ?_)
      exact unlinedExprs_of_seen hes

theorem returnStatement {values : List Expr}
    (hvalues : everyExpr (printChecks chunk) values = true) (hn : levelsOfExprs values ≤ n)
    (ht : t.endsBlock = true) (line : Nat) :
    Reads l.rounds l.returnStatement (Stmt.mk line (.returnValues values)).tokens t
      fun s' => s'.unlined = (Stmt.mk line (.returnValues values)).unlined := by
  rw [Stmt.tokens, Action.tokens]
  unfold Level.returnStatement
  refine Reads.next fun line' => Reads.advance (fun h => by cases h) ?_
  refine Reads.bind_nil (h.returnValues hvalues hn ht) fun values' hvalues' => ?_
  refine Reads.accept_none (Token.ne_mark Token.endsBlock ht rfl) ?_
  refine Reads.blockEnds ?_
  rw [List.headD_nil, ht, if_pos rfl]
  refine Reads.pure ?_
  rw [Stmt.unlined, Stmt.unlined, Action.unlined, Action.unlined, hvalues']

/-- A statement of a block. -/
theorem blockStep_statement {s : Stmt} (hs : s.every (printChecks chunk) = true)
    (hreturn : s.isReturn = false) (hn : s.levels ≤ n) (ht : t.endsStmt = true)
    (stmts : List Stmt) :
    Reads l.rounds (l.blockStep stmts) s.tokens t
      fun r => r.2 = true ∧ ∃ s', r.1 = s' :: stmts ∧ s'.unlined = s.unlined := by
  have hfirst := (Stmt.begins hreturn hs).headD t
  unfold Level.blockStep
  refine Reads.blockEnds ?_
  rw [Token.endsBlock_of_startsStmt hfirst, if_neg Bool.false_ne_true]
  refine Reads.accept_none (Token.ne_mark Token.startsStmt hfirst rfl) ?_
  rw [if_neg Bool.false_ne_true]
  refine Reads.sees_none (Token.ne_mark Token.startsStmt hfirst rfl) ?_
  rw [if_neg Bool.false_ne_true]
  exact Reads.map ((h.statement hs hreturn hn ht).imp fun s' hs' => ⟨rfl, s', rfl, hs'⟩)

/-- The return of a block. -/
theorem blockStep_return {s : Stmt} (hs : s.every (printChecks chunk) = true)
    (hreturn : s.isReturn = true) (hn : s.levels ≤ n) (ht : t.endsBlock = true)
    (stmts : List Stmt) :
    Reads l.rounds (l.blockStep stmts) s.tokens t
      fun r => r.2 = false ∧ ∃ s', r.1 = s' :: stmts ∧ s'.unlined = s.unlined := by
  rcases s with ⟨line, action⟩
  cases action with
  | returnValues values =>
      rw [Stmt.every, Action.every, Bool.and_eq_true] at hs
      have hread := h.returnStatement hs.2 hn ht line
      have hends : (Token.mark .returnWord).endsBlock = false := rfl
      rw [Stmt.tokens, Action.tokens] at hread ⊢
      unfold Level.blockStep
      refine Reads.blockEnds ?_
      rw [List.headD_cons, hends, if_neg Bool.false_ne_true]
      refine Reads.accept_none (fun h => by cases h) ?_
      rw [if_neg Bool.false_ne_true]
      refine Reads.sees_some ?_
      rw [if_pos rfl]
      exact Reads.map (hread.imp fun s' hs' => ⟨rfl, s', rfl, hs'⟩)
  | _ => cases hreturn

/-- The statements that are still to come are read behind those that were. -/
theorem statements (ht : t.endsBlock = true) {body : List Stmt}
    (hbody : everyStmt (printChecks chunk) body = true) (hn : levelsOfBlock body ≤ n)
    (stmts : List Stmt) :
    Loops l.rounds l.blockStep stmts (blockTokens body) t fun stmts' =>
      stmts'.reverse.map Stmt.unlined =
        stmts.reverse.map Stmt.unlined ++ body.map Stmt.unlined := by
  induction body generalizing stmts with
  | nil =>
      have hsame : stmts.reverse.map Stmt.unlined =
          stmts.reverse.map Stmt.unlined ++ ([] : List Stmt).map Stmt.unlined := by
        rw [List.map_nil, List.append_nil]
      refine Loops.ended (Reads.blockEnds ?_) fun _ => hsame
      rw [blockTokens, tokensOfStmts, joined, List.headD_nil, ht, if_pos rfl]
      exact Reads.pure ⟨rfl, hsame⟩
  | cons s body ih =>
      rw [everyStmt, Bool.and_eq_true, Bool.and_eq_true] at hbody
      rw [levelsOfBlock] at hn
      rw [blockTokens, tokensOfStmts, joined]
      cases hreturn : s.isReturn with
      | true =>
          -- Nothing stands behind a return.
          have hlast := hbody.1
          simp only [printChecks, hreturn, Bool.not_true, Bool.false_or, List.isEmpty_iff] at hlast
          subst hlast
          rw [tokensOfStmts, List.flatMap_nil, List.append_nil]
          have hstep := h.blockStep_return hbody.2.1 hreturn (by omega) ht stmts
          refine Loops.ended (hstep.imp fun r hr => ?_) fun hnil => ?_
          · rcases hr with ⟨hover, s', hr, hs'⟩
            rw [hr, ← map_reverse_cons hs', List.map_nil, List.append_nil]
            exact ⟨hover, rfl⟩
          · exact (s.tokens_ne_nil_of_isReturn hreturn hnil).elim
      | false =>
          have hsome := (Stmt.begins hreturn hbody.2.1).ne_nil
          have hends : (((tokensOfStmts body).flatMap (.mark .semi :: ·)).headD t).endsStmt =
              true := by
            cases body with
            | nil => exact Token.endsStmt_of_endsBlock ht
            | cons s₂ body => rfl
          have hstep := h.blockStep_statement hbody.2.1 hreturn (by omega) hends stmts
          refine Loops.again (P := fun r => ∃ s', r = s' :: stmts ∧ s'.unlined = s.unlined)
            hstep hsome ?_
          rintro _ ⟨s', rfl, hs'⟩
          rw [← map_reverse_cons hs']
          cases body with
          | nil => exact ih rfl (Nat.zero_le _) (s' :: stmts)
          | cons s₂ body =>
              -- The semicolon is a round of its own.
              refine Loops.again (u := [.mark .semi]) (P := fun stmts' => stmts' = s' :: stmts)
                (Reads.blockEnds (Reads.accept_some ?_)) (List.cons_ne_nil _ _) ?_
              · rw [if_pos rfl]
                exact Reads.pure ⟨rfl, rfl⟩
              · rintro _ rfl
                exact ih hbody.2.2 (by omega) (s' :: stmts)

theorem block {body : List Stmt} (hbody : everyStmt (printChecks chunk) body = true)
    (hn : levelsOfBlock body ≤ n) (ht : t.endsBlock = true) :
    Reads l.rounds l.block (blockTokens body) t
      fun body' => unlinedBlock body' = unlinedBlock body := by
  unfold Level.block
  refine Reads.map ((h.statements ht hbody hn [] _ (Nat.le_refl _)).imp fun stmts hstmts => ?_)
  rw [unlinedBlock_eq, unlinedBlock_eq, hstmts]
  rfl

theorem closedBlock {body : List Stmt} (hbody : everyStmt (printChecks chunk) body = true)
    (hn : levelsOfBlock body ≤ n) :
    Reads l.rounds l.closedBlock (blockTokens body ++ [.mark .endWord]) t
      fun body' => unlinedBlock body' = unlinedBlock body := by
  unfold Level.closedBlock
  exact Reads.bind (h.block hbody hn rfl) fun body' hbody' => Reads.expect (Reads.pure hbody')

/-- A function from its parameters on, under the name that it carries. -/
theorem functionBody {f : Function} (hf : f.every (printChecks chunk) = true)
    (hchunk : f.chunk = chunk) (hn : f.levels ≤ n) {isMethod : Bool}
    (hself : isMethod = true → f.params.head? = some "self") (line : Nat) :
    Reads l.rounds (l.functionBody chunk f.name isMethod line) (f.tokens isMethod) t
      fun f' => f'.unlined = f.unlined := by
  rcases f with ⟨name, params, body, chunk', line'⟩
  change chunk' = chunk at hchunk
  subst hchunk
  have hparams : (if isMethod then "self" :: (if isMethod then params.drop 1 else params)
      else (if isMethod then params.drop 1 else params)) = params := by
    cases isMethod with
    | false => rfl
    | true =>
        cases params with
        | nil => cases hself rfl
        | cons param params =>
            cases hself rfl
            rfl
  rw [Function.tokens, List.append_cons]
  unfold Level.functionBody
  refine Reads.expect (Reads.bind (l.reads_parameters _) ?_)
  rintro _ rfl
  refine Reads.map ((h.closedBlock hf hn).imp fun body' hbody' => ?_)
  rw [hparams, Function.unlined, Function.unlined, hbody']
  rfl

end Complete

end Level

end Script

end PixelEffects
