import PixelEffects.Proofs.Script.Syntax.Completeness.Statement

/-!
# Completeness of the Parser

A block that can be written is what the parser gives for the tokens that it is written with.

The rules of the grammar have been shown for one level, given the one below. Without any levels left
there is nothing to show, as every expression and every statement needs one. So the parsers with `n`
levels left read what can be written with `n` levels.

## Theorems

* `level_complete`: All levels are complete.
* `parseTokens_blockTokens`: Parsing what was written gives the same tree, up to lines.
-/

namespace PixelEffects

namespace Script

open PixelEffects.Script.Parser

variable {chunk : String}

/-- With `n` levels left, the parsers read what can be written with `n` levels. -/
theorem level_complete (chunk : String) (rounds n : Nat) :
    (level chunk rounds n).Complete chunk n := by
  induction n with
  | zero =>
      refine ⟨fun {s} _ hreturn hn => ?_, fun {limit e} _ _ hn => ?_⟩
      · have hpos := Stmt.levels_pos hreturn
        omega
      · have hpos := e.levels_pos
        omega
  | succ n ih =>
      have hrounds := level_rounds chunk rounds n
      refine ⟨fun hs hreturn hn t ht => ?_, fun he hopens hn t hstops ht => ?_⟩
      · have hread := ih.statementBelow hs hreturn hn ht
        rw [hrounds] at hread
        exact hread
      · have hread := ih.operandBelow he hopens hn hstops ht
        rw [hrounds] at hread
        exact hread

theorem reads_wholeBlock {l : Level} {n : Nat} (h : l.Complete chunk n) {body : List Stmt}
    (hbody : everyStmt (printChecks chunk) body = true) (hn : levelsOfBlock body ≤ n) :
    Reads l.rounds (wholeBlock l) (blockTokens body) .endOfSource
      fun body' => unlinedBlock body' = unlinedBlock body := by
  unfold wholeBlock
  refine Reads.bind_nil (h.block hbody hn rfl) fun body' hbody' => ?_
  exact Reads.next fun line => Reads.pure hbody'

/-- Parsing the tokens that a block is written with gives the same block, up to lines. -/
theorem parseTokens_blockTokens {body : List Stmt}
    (hbody : everyStmt (printChecks chunk) body = true)
    (hlevels : levelsOfBlock body ≤ maxSyntaxLevels) {ts : List Lexeme}
    (hts : tokensOf ts = blockTokens body ++ [.endOfSource]) :
    ∃ body', parseTokens chunk ts = .ok body' ∧ unlinedBlock body' = unlinedBlock body := by
  rcases List.map_eq_append_iff.mp hts with ⟨us, vs, rfl, hus, hvs⟩
  have hread := reads_wholeBlock (level_complete chunk (us ++ vs).length maxSyntaxLevels) hbody
    hlevels
  rw [level_rounds] at hread
  have hnext : upcoming vs = .endOfSource := by
    rcases tokensOf_eq_cons hvs with ⟨line, rest, rfl, _⟩
    rfl
  have hlength : us.length + vs.length ≤ (us ++ vs).length := Nat.le_of_eq List.length_append.symm
  rcases hread us vs hus hlength hnext with ⟨body', hrun, hbody'⟩
  refine ⟨body', ?_, hbody'⟩
  unfold parseTokens
  rw [hrun]

/-- `t["k"] = -a ^ b .. c .. d`: the sign is in front of the power, and the second `..` is part of the
    right operand of the first. -/
theorem parseTokens_blockTokens_assignment :
    let value : Expr := .binary .concat (.unary .neg (.binary .pow (.name "a") (.name "b")))
      (.binary .concat (.name "c") (.name "d"))
    let body : List Stmt := [.mk 1 (.assign [.index (.name "t") (.text "k")] [value])]
    let ts : List Lexeme := [⟨.name "t", 1⟩, ⟨.mark .lBracket, 1⟩, ⟨.text "k", 1⟩,
      ⟨.mark .rBracket, 1⟩, ⟨.mark .assign, 1⟩, ⟨.mark .minus, 1⟩, ⟨.name "a", 1⟩, ⟨.mark .caret, 1⟩,
      ⟨.name "b", 1⟩, ⟨.mark .dotDot, 1⟩, ⟨.name "c", 1⟩, ⟨.mark .dotDot, 1⟩, ⟨.name "d", 1⟩,
      ⟨.endOfSource, 2⟩]
    everyStmt (printChecks "main") body = true ∧ levelsOfBlock body ≤ maxSyntaxLevels ∧
      tokensOf ts = blockTokens body ++ [.endOfSource] ∧
      ∃ body', parseTokens "main" ts = .ok body' ∧ unlinedBlock body' = unlinedBlock body := by
  intro value body ts
  have hbody : everyStmt (printChecks "main") body = true := by decide
  have hlevels : levelsOfBlock body ≤ maxSyntaxLevels := by decide
  have hts : tokensOf ts = blockTokens body ++ [.endOfSource] := rfl
  exact ⟨hbody, hlevels, hts, parseTokens_blockTokens hbody hlevels hts⟩

end Script

end PixelEffects
