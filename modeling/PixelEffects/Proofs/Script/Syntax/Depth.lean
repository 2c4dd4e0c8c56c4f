import PixelEffects.Proofs.Script.Syntax.Bounds
import PixelEffects.Proofs.Script.Token.Lexer

/-!
# Parsing Within Bounds

What parsing a source comes to, for every source.

The levels of the parser run out after `maxSyntaxLevels`, which bounds how deeply statements and
operands call one another. That is the same as a counter that every statement and every operand
raises, with a fault when it is raised too far: with the counter, the calls may go as deep as they
like and never do. So whatever would be done further down is never done.

The rest is put together from what is known of tokens, rules and heights. The end of the source is the
last token and stays what comes next, so nothing is ever looked at behind it, and no loop depends on
its rounds.

## Main definitions

* `countedLevel`: Levels with a counter.

## Theorems

* `countedLevel_eq`: Counting is the same as having so many levels.
* `parseChunk_bounded`: Every source is parsed within bounds.
-/

namespace PixelEffects

namespace Script

open PixelEffects.Script.Parser

/-- Enter a statement or an operand where so many were entered already, unless these are too many. -/
def entering {α : Type} (entered : Nat) (p : Parser α) : Parser α :=
  if entered + 1 > maxSyntaxLevels then fail .tooManyLevels else p

/-- The parsers where so many statements and operands were entered. Calls go at most `depth` deep, and
    what is called even deeper is `beyond`. -/
def countedLevel (chunk : String) (beyond : Level) : Nat → Nat → Level
  | 0, _ => beyond
  | depth + 1, entered =>
    let inner := countedLevel chunk beyond depth (entered + 1)
    ⟨beyond.rounds, entering entered (inner.statementBelow chunk),
      fun limit => entering entered (inner.operandBelow chunk limit)⟩

/-- With a counter, calls never go deeper than there are levels, so what lies beyond is not called. -/
theorem countedLevel_eq (chunk : String) (beyond : Level) {depth left entered : Nat}
    (hentered : entered + left = maxSyntaxLevels) (hdepth : left < depth) :
    countedLevel chunk beyond depth entered = level chunk beyond.rounds left := by
  induction left generalizing depth entered with
  | zero =>
      cases depth with
      | zero => omega
      | succ depth =>
          have hmany : entered + 1 > maxSyntaxLevels := by omega
          unfold countedLevel entering
          simp only [if_pos hmany]
          rfl
  | succ left ih =>
      cases depth with
      | zero => omega
      | succ depth =>
          have hfew : ¬ entered + 1 > maxSyntaxLevels := by omega
          have hinner : countedLevel chunk beyond depth (entered + 1) = level chunk beyond.rounds left :=
            ih (by omega) (by omega)
          unfold countedLevel entering
          simp only [if_neg hfew, hinner]
          rfl

/-- What an accepted source is made of was accepted token by token. -/
theorem parseTokens_of_parseChunk {name source : String} {chunk : Chunk}
    (h : parseChunk name source = .ok chunk) :
    ∃ ts, lex source = .ok ts ∧ parseTokens name ts = .ok chunk.body := by
  unfold parseChunk at h
  dsimp only at h
  cases hlex : lex source with
  | error e =>
      rw [hlex] at h
      cases h
  | ok ts =>
      rw [hlex] at h
      dsimp only at h
      cases hparse : parseTokens name ts with
      | error e =>
          rw [hparse] at h
          cases h
      | ok body =>
          rw [hparse] at h
          cases h
          exact ⟨ts, rfl, hparse⟩

/-- The tokens of a source have one outcome, with any number of rounds that is large enough and with
    anything behind them. -/
theorem parseTokens_outcome (name : String) {us : List Lexeme} {line : Nat}
    (hend : ∀ u ∈ us, u.token ≠ .endOfSource) :
    (∀ rounds behind, us.length < rounds →
      wholeBlock (level name rounds maxSyntaxLevels) (us ++ ⟨.endOfSource, line⟩ :: behind) =
        (parseTokens name (us ++ [⟨.endOfSource, line⟩])).map
          fun body => (body, ⟨.endOfSource, line⟩ :: behind)) ∧
      ∀ body, parseTokens name (us ++ [⟨.endOfSource, line⟩]) = .ok body →
        everyStmt heightChecks body = true := by
  rcases wholeBlock_outcome name hend line with ⟨outcome, hrun, hevery⟩
  have htokens : parseTokens name (us ++ [⟨.endOfSource, line⟩]) = outcome := by
    have hown := hrun (us ++ [(⟨.endOfSource, line⟩ : Lexeme)]).length [] (by
      rw [List.length_append]
      exact Nat.lt_succ_self _)
    unfold upTo at hown
    unfold parseTokens
    rw [hown]
    cases outcome <;> rfl
  rw [htokens]
  exact ⟨hrun, hevery⟩

/-- In a source that is accepted no expression is too tall, also inside of functions. -/
theorem parseChunk_heights {name source : String} {chunk : Chunk}
    (h : parseChunk name source = .ok chunk) : everyStmt heightChecks chunk.body = true := by
  rcases parseTokens_of_parseChunk h with ⟨ts, hlex, hparse⟩
  rcases lex_ends hlex with ⟨us, line, rfl, hend⟩
  exact (parseTokens_outcome name hend).2 _ hparse

/-- Every source is parsed within bounds.

    Its tokens end with the end of the source, and it is nowhere else. Parsing them has an outcome that
    nothing behind the end and no number of rounds can change, and the end is what is left in front of
    anything behind it. Statements and operands call one another no deeper than there are levels. In
    what is accepted no expression is too tall, also inside of functions. And while suffixes and
    operators are read, at any level, the height that is counted is that of the tree so far. -/
theorem parseChunk_bounded (name source : String) :
    (∀ ts, lex source = .ok ts → ∃ us line, ts = us ++ [⟨.endOfSource, line⟩] ∧
      (∀ u ∈ us, u.token ≠ .endOfSource) ∧
      ∀ rounds behind, us.length < rounds →
        wholeBlock (level name rounds maxSyntaxLevels) (us ++ ⟨.endOfSource, line⟩ :: behind) =
          (parseTokens name ts).map fun body => (body, ⟨.endOfSource, line⟩ :: behind)) ∧
    (∀ (beyond : Level) (depth : Nat), maxSyntaxLevels < depth →
      countedLevel name beyond depth 0 = level name beyond.rounds maxSyntaxLevels) ∧
    (∀ chunk, parseChunk name source = .ok chunk → everyStmt heightChecks chunk.body = true) ∧
    (∀ (rounds n : Nat) (ts ts' ts'' : List Lexeme) (e e' : Measured),
      (level name rounds n).primary ts = .ok (e, ts') →
      Passes (level name rounds n).suffixStep e ts' e' ts'' → e'.height = e'.expr.height) ∧
    (∀ (rounds n limit : Nat) (ts ts' ts'' : List Lexeme) (e e' : Measured),
      (level name rounds n).prefixed name ts = .ok (e, ts') →
      Passes ((level name rounds n).binaryStep limit) e ts' e' ts'' →
      e'.height = e'.expr.height) := by
  refine ⟨fun ts hlex => ?_, fun beyond depth hdepth => ?_, fun chunk hchunk => ?_,
    fun rounds n ts ts' ts'' e e' => suffixed_passes_exact name rounds n,
    fun rounds n limit ts ts' ts'' e e' => operand_passes_exact name rounds n limit⟩
  · rcases lex_ends hlex with ⟨us, line, rfl, hend⟩
    exact ⟨us, line, rfl, hend, (parseTokens_outcome name hend).1⟩
  · exact countedLevel_eq name beyond (Nat.zero_add maxSyntaxLevels) hdepth
  · rcases parseTokens_of_parseChunk hchunk with ⟨ts, hlex, hparse⟩
    rcases lex_ends hlex with ⟨us, line, rfl, hend⟩
    exact (parseTokens_outcome name hend).2 _ hparse

end Script

end PixelEffects
