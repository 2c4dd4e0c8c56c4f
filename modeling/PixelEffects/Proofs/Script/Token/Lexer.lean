import PixelEffects.Script.Token.Lexer

/-!
# Reading Tokens Comes to an End

Every token takes a character, and the last token of a source is its end.

What a scanner leaves is the end of what it was given. Skipping may leave everything, but a token
always takes its first character. So the rounds of the loop over the tokens, of which there is one
more than characters, reach the end of the source. No other token is taken for it.

## Theorems

* `suffix_of_skipTrivia`, `suffix_of_scanNumber` and others: What each scanner leaves.
* `scanToken_progress`: A token takes a character, and is not the end of the source.
* `lex_ends`: The end of the source is the last token, and only the last.
-/

namespace PixelEffects

namespace Script

variable {c : Char} {cs rest : List Char}

theorem suffix_of_skipTrivia {trivia : Trivia} {line line' : Nat}
    (h : skipTrivia trivia line cs = .ok (line', rest)) : rest <:+ cs := by
  fun_induction skipTrivia trivia line cs with
  | case1 => cases h
  | case2 line cs ih => exact (ih h).trans (List.suffix_append [']', ']'] cs)
  | case3 line c cs _ ih => exact (ih h).trans (List.suffix_cons c cs)
  | case4 line cs ih => exact (ih h).trans (List.suffix_cons _ cs)
  | case5 line c cs _ ih => exact (ih h).trans (List.suffix_cons c cs)
  | case6 line cs ih => exact (ih h).trans (List.suffix_append ['-', '-', '[', '['] cs)
  | case7 line cs _ ih => exact (ih h).trans (List.suffix_append ['-', '-'] cs)
  | case8 line c cs _ _ _ ih => exact (ih h).trans (List.suffix_cons c cs)
  | case9 =>
      cases h
      exact List.suffix_refl _
  | case10 =>
      cases h
      exact List.suffix_refl _

/-! ## Numbers -/

theorem suffix_of_scanHex {mark : List Char} {value : Float}
    (h : scanHex mark cs = .ok (value, rest)) : rest <:+ cs := by
  unfold scanHex at h
  dsimp only at h
  split at h
  · cases h
  · cases h
    exact List.dropWhile_suffix _

theorem suffix_of_spanPoint (cs : List Char) : (spanPoint cs).2 <:+ cs := by
  unfold spanPoint
  split
  · exact List.suffix_refl _
  · exact (List.dropWhile_suffix _).trans (List.suffix_cons _ _)
  · exact List.suffix_refl _

theorem suffix_of_spanWrittenSign (cs : List Char) : (spanWrittenSign cs).2 <:+ cs := by
  unfold spanWrittenSign
  split
  · exact List.suffix_cons _ _
  · exact List.suffix_cons _ _
  · exact List.suffix_refl _

theorem suffix_of_scanExponent {exponent : List Char} (h : scanExponent cs = .ok (exponent, rest)) :
    rest <:+ cs := by
  unfold scanExponent at h
  split at h
  · cases h
    exact List.suffix_refl _
  next c cs =>
    split at h
    · dsimp only at h
      split at h
      · cases h
      next heq =>
        cases h
        have hdigits : rest = (spanWrittenSign cs).2.dropWhile Char.isDigit :=
          (congrArg Prod.snd heq).symm
        rw [hdigits]
        exact (List.dropWhile_suffix _).trans
          ((suffix_of_spanWrittenSign cs).trans (List.suffix_cons c cs))
    · cases h
      exact List.suffix_refl _

/-- The point or the first digit of a number is taken, and then what follows of it. -/
theorem suffix_of_whole (h : startsNumber (c :: cs) = true) :
    (spanPoint (Numeral.spanDigits (c :: cs)).2).2 <:+ cs := by
  unfold Numeral.spanDigits
  dsimp only
  by_cases hdigit : c.isDigit = true
  · rw [List.dropWhile_cons_of_pos hdigit]
    exact (suffix_of_spanPoint _).trans (List.dropWhile_suffix _)
  · rw [List.dropWhile_cons_of_neg hdigit]
    unfold startsNumber at h
    split at h
    next d cs heq =>
      cases heq
      unfold spanPoint
      split
      next heq =>
        -- The character behind the point is a digit, so it is not a second point.
        cases heq
        cases h
      next heq =>
        cases heq
        exact List.dropWhile_suffix _
      next hpoint => exact absurd rfl (hpoint _)
    next heq =>
      cases heq
      exact absurd h hdigit
    next heq => cases heq

theorem suffix_of_scanDecimal {value : Float} (hstart : startsNumber (c :: cs) = true)
    (h : scanDecimal (c :: cs) = .ok (value, rest)) : rest <:+ cs := by
  unfold scanDecimal at h
  dsimp only at h
  split at h
  · cases h
  next exponent rest' hexponent =>
    split at h
    · cases h
    · cases h
      exact (suffix_of_scanExponent hexponent).trans (suffix_of_whole hstart)

theorem suffix_of_scanNumber {value : Float} (hstart : startsNumber (c :: cs) = true)
    (h : scanNumber (c :: cs) = .ok (value, rest)) : rest <:+ cs := by
  unfold scanNumber at h
  split at h
  next heq =>
    cases heq
    exact (suffix_of_scanHex h).trans (List.suffix_cons _ _)
  next heq =>
    cases heq
    exact (suffix_of_scanHex h).trans (List.suffix_cons _ _)
  · exact suffix_of_scanDecimal hstart h

/-! ## Texts and marks -/

theorem suffix_of_scanQuoted {quote : Char} {done : List Char} {value : String}
    (h : scanQuoted quote done cs = .ok (value, rest)) : rest <:+ cs := by
  fun_induction scanQuoted quote done cs with
  | case1 => cases h
  | case2 => cases h
  | case3 => cases h
  | case4 done letter cs c _ ih => exact (ih h).trans (List.suffix_append ['\\', letter] cs)
  | case5 => cases h
  | case6 =>
      cases h
      exact List.suffix_cons _ _
  | case7 done c cs _ _ _ _ ih => exact (ih h).trans (List.suffix_cons c cs)

theorem suffix_of_scanLong {done : List Char} {line line' : Nat} {value : String}
    (h : scanLong done line cs = .ok (value, line', rest)) : rest <:+ cs := by
  fun_induction scanLong done line cs with
  | case1 => cases h
  | case2 done line cs =>
      cases h
      exact List.suffix_append [']', ']'] rest
  | case3 done line c cs _ ih => exact (ih h).trans (List.suffix_cons c cs)

theorem suffix_of_scanLongBody {line line' : Nat} {value : String}
    (h : scanLongBody line cs = .ok (value, line', rest)) : rest <:+ cs := by
  unfold scanLongBody at h
  split at h
  · exact (suffix_of_scanLong h).trans (List.suffix_cons _ _)
  · exact suffix_of_scanLong h

theorem suffix_of_scanMark {mark : Mark} (h : scanMark (c :: cs) = some (mark, rest)) :
    rest <:+ cs := by
  unfold scanMark at h
  split at h
  case h_27 => cases h
  all_goals
    rename_i heq
    cases heq
    cases h
    -- A mark has one character or two.
    first
    | exact List.suffix_refl _
    | exact List.suffix_cons _ _

/-! ## Tokens -/

/-- A token takes a character, and is not the end of the source. -/
theorem scanToken_progress {line : Nat} {s : Scanned} (h : scanToken line (c :: cs) = .ok s) :
    s.rest <:+ cs ∧ s.token ≠ .endOfSource := by
  unfold scanToken at h
  split at h
  next heq => cases heq
  next heq =>
    cases heq
    split at h
    next hstart =>
      split at h
      next hnumber =>
        cases h
        exact ⟨suffix_of_scanNumber hstart hnumber, fun heq => by cases heq⟩
      next => cases h
    split at h
    next hname =>
      cases h
      have hpart : isNamePart c = true := by
        unfold isNameStart at hname
        unfold isNamePart Char.isAlphanum
        rcases Bool.or_eq_true_iff.mp hname with halpha | hscore
        · rw [halpha]
          rfl
        · rw [hscore, Bool.or_true]
      refine ⟨?_, ?_⟩
      · dsimp only
        rw [List.dropWhile_cons_of_pos hpart]
        exact List.dropWhile_suffix _
      · dsimp only
        split <;> exact fun heq => by cases heq
    split at h
    next hquote =>
      split at h
      next hquoted =>
        cases h
        exact ⟨suffix_of_scanQuoted hquoted, fun heq => by cases heq⟩
      next => cases h
    split at h
    next =>
      split at h
      next hlong =>
        cases h
        exact ⟨(suffix_of_scanLongBody hlong).trans (List.suffix_cons _ _), fun heq => by cases heq⟩
      next => cases h
    next =>
      split at h
      next hmark =>
        cases h
        exact ⟨suffix_of_scanMark hmark, fun heq => by cases heq⟩
      next => cases h

/-- With more rounds than characters, the tokens that were read end with the end of the source. -/
theorem lexFrom_ends {n : Nat} {done : List Lexeme} {line : Nat} {ts : List Lexeme}
    (hn : cs.length < n) (hdone : ∀ t ∈ done, t.token ≠ .endOfSource)
    (h : lexFrom n done line cs = .ok ts) : ∃ us line', ts = us ++ [⟨.endOfSource, line'⟩] ∧
      ∀ u ∈ us, u.token ≠ .endOfSource := by
  induction n generalizing done line cs with
  | zero => exact absurd hn (Nat.not_lt_zero _)
  | succ n ih =>
      unfold lexFrom at h
      split at h
      · cases h
      next line' hskip =>
        cases h
        refine ⟨done.reverse, line', by rw [List.reverse_cons], fun u hu => ?_⟩
        exact hdone u (List.mem_reverse.mp hu)
      next line' c rest hskip =>
        split at h
        · cases h
        next s hscan =>
          rcases scanToken_progress hscan with ⟨hrest, htoken⟩
          have hskipped := (suffix_of_skipTrivia hskip).length_le
          have htaken := hrest.length_le
          rw [List.length_cons] at hskipped
          exact ih (by omega) (List.forall_mem_cons.mpr ⟨htoken, hdone⟩) h

/-- The end of the source is the last token of a source, and only the last. -/
theorem lex_ends {source : String} {ts : List Lexeme} (h : lex source = .ok ts) :
    ∃ us line, ts = us ++ [⟨.endOfSource, line⟩] ∧ ∀ u ∈ us, u.token ≠ .endOfSource :=
  lexFrom_ends (Nat.lt_succ_self _) (fun _ ht => absurd ht List.not_mem_nil) h

end Script

end PixelEffects
