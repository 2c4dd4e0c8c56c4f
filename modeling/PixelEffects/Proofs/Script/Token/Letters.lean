import Mathlib.Data.List.TakeWhile
import PixelEffects.Proofs.Script.Token.Lexer
import PixelEffects.Proofs.Text.Letters

/-!
# Scanning by Bytes and by Characters

Most scanners do not care whether they look at characters or at bytes.

They compare with ASCII characters only, and what they stop at or look for is ASCII. So from the letters
of a source, which are its bytes, they leave the letters of what they leave from its characters, and in
the same line. A character that is no ASCII is passed as a whole or not at all, as all of its letters
are.

What scanners gather is another matter. The text of a long text or of a quoted one is gathered from
characters, and letters would give another text. Here only where a long text ends is compared.

## Theorems

* `isAsciiClass_isDigit`, `isAsciiClass_isNamePart` and others: Classes of characters that are ASCII.
* `skipTrivia_letters`: Blanks and comments.
* `startsNumber_letters`, `spanPoint_letters`, `scanExponent_letters`: The parts of numbers.
* `scanHex_eq`, `decimal_append`: Which characters a number has.
* `scanLong_letters`, `scanLong_append`: Where a long text ends, and what it is.
* `scanMark_letters_of_some`, `scanMark_letters_of_none`: Operators and brackets.
-/

namespace PixelEffects

open Text

namespace Script

variable {c : Char} {cs ls : List Char}

/-! ## Classes of characters -/

theorem isAsciiClass_isDigit : IsAsciiClass Char.isDigit := by
  intro c h
  have hrange : c.val ≤ '9'.val := by
    unfold Char.isDigit at h
    exact of_decide_eq_true (Bool.and_eq_true_iff.mp h).2
  exact Nat.lt_of_le_of_lt (UInt32.le_iff_toNat_le.mp hrange) (by decide)

theorem isAsciiClass_isHexDigit : IsAsciiClass isHexDigit := by
  intro c h
  simp only [isHexDigit, Bool.or_eq_true, Bool.and_eq_true, decide_eq_true_eq] at h
  rcases h with (h | ⟨_, h⟩) | ⟨_, h⟩
  · exact isAsciiClass_isDigit c h
  · exact Nat.lt_of_le_of_lt (UInt32.le_iff_toNat_le.mp h) (by decide)
  · exact Nat.lt_of_le_of_lt (UInt32.le_iff_toNat_le.mp h) (by decide)

theorem isAsciiClass_isAlpha : IsAsciiClass Char.isAlpha := by
  intro c h
  have halpha : c.isAlpha = (decide ('A' ≤ c ∧ c ≤ 'Z') || (decide ('a' ≤ c) && decide (c ≤ 'z'))) :=
    rfl
  simp only [halpha, Bool.or_eq_true, Bool.and_eq_true, decide_eq_true_eq] at h
  rcases h with ⟨_, h⟩ | ⟨_, h⟩
  · exact Nat.lt_of_le_of_lt (UInt32.le_iff_toNat_le.mp h) (by decide)
  · exact Nat.lt_of_le_of_lt (UInt32.le_iff_toNat_le.mp h) (by decide)

theorem isAsciiClass_isNameStart : IsAsciiClass isNameStart := by
  intro c h
  unfold isNameStart at h
  rcases Bool.or_eq_true_iff.mp h with h | h
  · exact isAsciiClass_isAlpha c h
  · rw [eq_of_beq h]
    decide

theorem isAsciiClass_isNamePart : IsAsciiClass isNamePart := by
  intro c h
  unfold isNamePart Char.isAlphanum at h
  rcases Bool.or_eq_true_iff.mp h with h | h
  · rcases Bool.or_eq_true_iff.mp h with h | h
    · exact isAsciiClass_isAlpha c h
    · exact isAsciiClass_isDigit c h
  · rw [eq_of_beq h]
    decide

theorem isAsciiClass_isSpace : IsAsciiClass isSpace := by
  intro c h
  simp only [isSpace, Bool.or_eq_true, beq_iff_eq] at h
  rcases h with (((rfl | rfl) | rfl) | rfl) | rfl <;> decide

theorem isAsciiClass_quote : IsAsciiClass fun c => c == '"' || c == '\'' := by
  intro c h
  rcases Bool.or_eq_true_iff.mp h with h | h
  · rw [eq_of_beq h]
    decide
  · rw [eq_of_beq h]
    decide

/-! ## Trivia -/

theorem lineAfter_eq (c : Char) (line : Nat) : lineAfter c line = line + [c].count '\n' := by
  unfold lineAfter
  rw [List.count_singleton]
  split <;> rfl

theorem lineAfter_of_ne (h : c ≠ '\n') (line : Nat) : lineAfter c line = line := by
  rw [lineAfter_eq, List.count_singleton, if_neg (by rwa [beq_iff_eq]), Nat.add_zero]

theorem lineAfter_of_ge (h : 0x80 ≤ c.toNat) (line : Nat) : lineAfter c line = line :=
  lineAfter_of_ne (ne_of_ge h (by decide)) line

/-- Blanks and comments are skipped by bytes as they are by characters. -/
theorem skipTrivia_letters (trivia : Trivia) (line : Nat) (cs : List Char) :
    skipTrivia trivia line (letters cs) =
      (skipTrivia trivia line cs).map fun skipped => (skipped.1, letters skipped.2) := by
  fun_induction skipTrivia trivia line cs with
  | case1 => rfl
  | case2 line cs ih =>
      simp (disch := decide) only [letters_cons_of_lt]
      rw [skipTrivia.eq_2, ih]
  | case3 line c cs hopen ih =>
      by_cases hc : c.toNat < 0x80
      · rw [letters_cons_of_lt hc, skipTrivia.eq_3 _ _ _ fun ls heq =>
          letters_front (by decide) (fun cs' => hopen cs' heq) ls, ih]
      · -- None of the letters is a bracket or a line feed, so the loop passes all of them.
        have hhigh := Nat.le_of_not_lt hc
        rw [lineAfter_of_ge hhigh] at ih
        rw [pass_letters (f := skipTrivia .longComment line) ?_ hhigh, ih, lineAfter_of_ge hhigh]
        intro l hl rest
        rw [skipTrivia.eq_3 _ _ _ fun _ heq => absurd heq (ne_of_ge hl (by decide)),
          lineAfter_of_ge hl]
  | case4 line cs ih =>
      simp (disch := decide) only [letters_cons_of_lt]
      rw [skipTrivia.eq_4, ih]
  | case5 line c cs hopen ih =>
      by_cases hc : c.toNat < 0x80
      · rw [letters_cons_of_lt hc, skipTrivia.eq_5 _ _ _ hopen, ih]
      · rw [pass_letters (f := skipTrivia .comment line) ?_ (Nat.le_of_not_lt hc), ih]
        intro l hl rest
        exact skipTrivia.eq_5 _ _ _ (ne_of_ge hl (by decide))
  | case6 line cs ih =>
      simp (disch := decide) only [letters_cons_of_lt]
      rw [skipTrivia.eq_6, ih]
  | case7 line cs hshort ih =>
      simp (disch := decide) only [letters_cons_of_lt]
      rw [skipTrivia.eq_7, ih]
      intro ls hls
      rcases letters_eq_cons hls (by decide) with ⟨cs', rfl, hsecond⟩
      exact letters_front (by decide) (fun cs'' heq => hshort cs'' (heq ▸ rfl)) ls hsecond.symm
  | case8 line c cs _ hdash hspace ih =>
      have hc := isAsciiClass_isSpace c hspace
      have hfront (ls : List Char) (heq : c = '-') : letters cs = '-' :: ls → False :=
        letters_front (by decide) (fun cs' => hdash cs' heq) ls
      rw [letters_cons_of_lt hc, skipTrivia.eq_8 _ _ _ (fun _ heq hls => hfront _ heq hls) hfront,
        if_pos hspace, ih]
  | case9 line c cs _ hdash hspace =>
      by_cases hc : c.toNat < 0x80
      · have hfront (ls : List Char) (heq : c = '-') : letters cs = '-' :: ls → False :=
          letters_front (by decide) (fun cs' => hdash cs' heq) ls
        rw [letters_cons_of_lt hc, skipTrivia.eq_8 _ _ _ (fun _ heq hls => hfront _ heq hls) hfront,
          if_neg hspace, Except.map, letters_cons_of_lt hc]
      · -- Skipping stops at the first letter as it does at the character.
        rcases letters_cons_of_ge (Nat.le_of_not_lt hc) cs with ⟨l, ls, hcons, _, hl, _⟩
        have hne := ne_of_ge hl (a := '-') (by decide)
        rw [Except.map, hcons, skipTrivia.eq_8 _ _ _ (fun _ heq => absurd heq hne)
          (fun _ heq => absurd heq hne),
          if_neg (Bool.eq_false_iff.mp (isAsciiClass_isSpace.eq_false hl))]
  | case10 trivia line hother => rw [letters_nil, skipTrivia.eq_9 _ _ hother]; rfl

/-! ## Numbers -/

theorem startsNumber_letters (cs : List Char) : startsNumber (letters cs) = startsNumber cs := by
  fun_cases startsNumber cs with
  | case1 d cs =>
      rcases letters_front_byte d cs with ⟨ls, hls, _⟩
      rw [letters_cons_of_lt (by decide), hls]
      exact isAsciiClass_isDigit.lead_eq d
  | case2 c cs hother =>
      rcases letters_front_byte c cs with ⟨ls, hls, _⟩
      rw [hls, startsNumber.eq_2]
      · exact isAsciiClass_isDigit.lead_eq c
      · intro d rest hpoint hrest
        have hc := (lead_eq_iff (by decide)).mp hpoint
        subst hc
        rw [letters_cons_of_lt (by decide)] at hls
        cases hls
        cases cs with
        | nil => cases hrest
        | cons d cs => exact hother d cs rfl rfl
  | case3 => rfl

/-- The digits of a hexadecimal number are all that decides about it. -/
theorem scanHex_eq (mark cs : List Char) :
    scanHex mark cs = match scanHex [] (cs.takeWhile isHexDigit) with
      | .ok (value, _) => .ok (value, cs.dropWhile isHexDigit)
      | .error _ => .error (.malformedNumber (String.ofList (mark ++ cs.takeWhile isHexDigit))) := by
  have hself : (cs.takeWhile isHexDigit).takeWhile isHexDigit = cs.takeWhile isHexDigit :=
    List.takeWhile_eq_self_iff.mpr fun c hc => List.mem_takeWhile_imp hc
  unfold scanHex
  rw [hself]
  dsimp only
  split <;> rfl

theorem spanDigits_letters (cs : List Char) : Numeral.spanDigits (letters cs) =
    ((Numeral.spanDigits cs).1, letters (Numeral.spanDigits cs).2) := by
  unfold Numeral.spanDigits
  rw [takeWhile_letters isAsciiClass_isDigit, dropWhile_letters isAsciiClass_isDigit]

theorem spanPoint_letters (cs : List Char) :
    spanPoint (letters cs) = ((spanPoint cs).1, letters (spanPoint cs).2) := by
  fun_cases spanPoint cs with
  | case1 cs =>
      simp (disch := decide) only [letters_cons_of_lt]
      rfl
  | case2 cs hsingle digits rest hdigits =>
      rw [letters_cons_of_lt (by decide), spanPoint.eq_2 _ fun ls hls =>
        letters_front (by decide) hsingle ls hls, spanDigits_letters, hdigits]
  | case3 _ _ hother =>
      rw [spanPoint.eq_3 _ (fun _ => letters_front (by decide) hother _)
        (letters_front (by decide) hother)]

theorem spanWrittenSign_letters (cs : List Char) :
    spanWrittenSign (letters cs) = ((spanWrittenSign cs).1, letters (spanWrittenSign cs).2) := by
  fun_cases spanWrittenSign cs with
  | case1 cs =>
      rw [letters_cons_of_lt (by decide)]
      rfl
  | case2 cs =>
      rw [letters_cons_of_lt (by decide)]
      rfl
  | case3 _ hplus hminus =>
      rw [spanWrittenSign.eq_3 _ (letters_front (by decide) hplus)
        (letters_front (by decide) hminus)]

theorem scanExponent_letters (cs : List Char) :
    scanExponent (letters cs) =
      (scanExponent cs).map fun scanned => (scanned.1, letters scanned.2) := by
  cases cs with
  | nil => rfl
  | cons c cs =>
      by_cases hc : c.toNat < 0x80
      · rw [letters_cons_of_lt hc, scanExponent, scanExponent, spanWrittenSign_letters]
        split
        · dsimp only
          rw [spanDigits_letters]
          rcases Numeral.spanDigits (spanWrittenSign cs).2 with ⟨_ | ⟨d, ds⟩, rest⟩ <;> rfl
        · rw [Except.map, letters_cons_of_lt hc]
      · have hnone {l : Char} (hl : 0x80 ≤ l.toNat) : ¬ (l == 'e' || l == 'E') = true := by
          rw [Bool.or_eq_true, beq_iff_eq, beq_iff_eq]
          exact not_or.mpr ⟨ne_of_ge hl (by decide), ne_of_ge hl (by decide)⟩
        rcases letters_cons_of_ge (Nat.le_of_not_lt hc) cs with ⟨l, ls, hcons, _, hl, _⟩
        rw [hcons, scanExponent, scanExponent, if_neg (hnone hl),
          if_neg (hnone (Nat.le_of_not_lt hc)), Except.map, hcons]

theorem spanPoint_append (cs : List Char) : (spanPoint cs).1 ++ (spanPoint cs).2 = cs := by
  fun_cases spanPoint cs with
  | case1 => rfl
  | case2 cs _ digits rest hdigits =>
      cases hdigits
      exact congrArg ('.' :: ·) List.takeWhile_append_dropWhile
  | case3 => rfl

theorem spanWrittenSign_append (cs : List Char) :
    (spanWrittenSign cs).1 ++ (spanWrittenSign cs).2 = cs := by
  fun_cases spanWrittenSign cs <;> rfl

theorem scanExponent_append {exponent rest : List Char}
    (h : scanExponent cs = .ok (exponent, rest)) : exponent ++ rest = cs := by
  unfold scanExponent at h
  split at h
  · cases h
    rfl
  next c cs =>
    split at h
    · dsimp only at h
      split at h
      · cases h
      next digits rest' _ heq =>
        cases h
        have hdigits : digits ++ rest = (spanWrittenSign cs).2 := by
          cases heq
          exact List.takeWhile_append_dropWhile
        rw [List.append_assoc, hdigits, List.cons_append, spanWrittenSign_append]
    · cases h
      rfl

/-- The characters of a decimal number. -/
theorem decimal_append {exponent rest : List Char}
    (h : scanExponent (spanPoint (Numeral.spanDigits cs).2).2 = .ok (exponent, rest)) :
    (Numeral.spanDigits cs).1 ++ (spanPoint (Numeral.spanDigits cs).2).1 ++ exponent ++ rest = cs := by
  rw [List.append_assoc, scanExponent_append h, List.append_assoc, spanPoint_append]
  exact List.takeWhile_append_dropWhile

/-! ## Texts and marks -/

/-- Only some ASCII characters stand for another one behind a backslash. -/
theorem lt_of_unescape? {letter : Char} (h : unescape? letter = some c) : letter.toNat < 0x80 := by
  unfold unescape? at h
  split at h <;> first | decide | cases h

/-- The last case of reading a quoted text is not about a backslash. -/
theorem ne_backslash (hlast : c = '\\' → cs = [] → False)
    (hescape : ∀ letter rest, c = '\\' → cs = letter :: rest → False) : c ≠ '\\' := by
  intro heq
  cases cs with
  | nil => exact hlast heq rfl
  | cons letter rest => exact hescape letter rest heq rfl

/-- Where a long text ends does not depend on what was gathered of it. -/
theorem scanLong_done (done done' : List Char) (line : Nat) (cs : List Char) :
    (scanLong done line cs).map (·.2) = (scanLong done' line cs).map (·.2) := by
  fun_induction scanLong done line cs generalizing done' with
  | case1 => rfl
  | case2 => rfl
  | case3 done line c cs hopen ih => rw [scanLong.eq_3 _ _ _ _ hopen, ih (c :: done')]

theorem scanLong_letters (done : List Char) (line : Nat) (cs : List Char) :
    (scanLong done line (letters cs)).map (·.2) =
      (scanLong done line cs).map fun scanned => (scanned.2.1, letters scanned.2.2) := by
  fun_induction scanLong done line cs with
  | case1 => rfl
  | case2 done line cs =>
      simp (disch := decide) only [letters_cons_of_lt]
      rfl
  | case3 done line c cs hopen ih =>
      by_cases hc : c.toNat < 0x80
      · rw [letters_cons_of_lt hc, scanLong.eq_3 _ _ _ _ fun ls heq =>
          letters_front (by decide) (fun cs' => hopen cs' heq) ls, ih]
      · have hhigh := Nat.le_of_not_lt hc
        rw [lineAfter_of_ge hhigh] at ih ⊢
        rw [pass_letters (f := fun ls => (scanLong done line ls).map (·.2)) ?_ hhigh,
          scanLong_done done (c :: done), ih]
        intro l hl rest
        rw [scanLong.eq_3 _ _ _ _ fun _ heq => absurd heq (ne_of_ge hl (by decide)),
          lineAfter_of_ge hl, scanLong_done]

theorem scanLong_letters_of_ok {done : List Char} {line line' : Nat} {value : String}
    {rest : List Char} (h : scanLong done line cs = .ok (value, line', rest)) :
    ∃ gathered, scanLong done line (letters cs) = .ok (gathered, line', letters rest) := by
  have hletters := scanLong_letters done line cs
  rw [h] at hletters
  cases hscan : scanLong done line (letters cs) with
  | error e =>
      rw [hscan] at hletters
      cases hletters
  | ok scanned =>
      rw [hscan] at hletters
      rcases scanned with ⟨gathered, after⟩
      cases hletters
      exact ⟨gathered, rfl⟩

theorem scanLong_letters_of_error {done : List Char} {line : Nat} {e : SyntaxError}
    (h : scanLong done line cs = .error e) : scanLong done line (letters cs) = .error e := by
  have hletters := scanLong_letters done line cs
  rw [h] at hletters
  cases hscan : scanLong done line (letters cs) with
  | error e' =>
      rw [hscan] at hletters
      cases hletters
      rfl
  | ok scanned =>
      rw [hscan] at hletters
      cases hletters

/-- What a long text is, and the lines in it. -/
theorem scanLong_append {done : List Char} {line line' : Nat} {value : String} {rest : List Char}
    (h : scanLong done line cs = .ok (value, line', rest)) :
    ∃ body, cs = body ++ ']' :: ']' :: rest ∧ value = String.ofList (done.reverse ++ body) ∧
      line' = line + body.count '\n' := by
  fun_induction scanLong done line cs with
  | case1 => cases h
  | case2 done line cs =>
      cases h
      exact ⟨[], rfl, by rw [List.append_nil], rfl⟩
  | case3 done line c cs hopen ih =>
      rcases ih h with ⟨body, hcs, hvalue, hline⟩
      refine ⟨c :: body, congrArg (c :: ·) hcs, ?_, ?_⟩
      · rw [hvalue, List.reverse_cons, List.append_assoc]
        rfl
      · rw [hline, lineAfter_eq, Nat.add_assoc, ← List.count_append, List.singleton_append]

theorem scanMark_letters_of_some {mark : Mark} {rest : List Char}
    (h : scanMark cs = some (mark, rest)) : scanMark (letters cs) = some (mark, letters rest) := by
  unfold scanMark at h
  split at h
  case h_27 => cases h
  all_goals
    cases h
    simp (disch := decide) only [letters_cons_of_lt]
  -- Some marks of one character could be the beginning of a longer one.
  case h_10 hother => exact scanMark.eq_10 _ (letters_front (by decide) hother)
  case h_14 hother => exact scanMark.eq_14 _ (letters_front (by decide) hother)
  case h_15 hother => exact scanMark.eq_15 _ (letters_front (by decide) hother)
  case h_16 hother => exact scanMark.eq_16 _ (letters_front (by decide) hother)
  case h_26 hother => exact scanMark.eq_26 _ (letters_front (by decide) hother)
  all_goals rfl

theorem scanMark_letters_of_none (h : scanMark cs = none) : scanMark (letters cs) = none := by
  cases hsome : scanMark (letters cs) with
  | none => rfl
  | some found =>
      unfold scanMark at hsome
      split at hsome
      case h_27 => cases hsome
      -- The letters of a mark are characters, so the characters would be that mark as well.
      all_goals
        next heq =>
          rcases letters_eq_cons heq (by decide) with ⟨cs', rfl, hrest⟩
          first
          | cases h
          | rcases letters_eq_cons hrest.symm (by decide) with ⟨cs', rfl, _⟩
            cases h
          | rw [scanMark.eq_10 _ (characters_front (by decide) hrest ‹_›)] at h
            cases h
          | rw [scanMark.eq_14 _ (characters_front (by decide) hrest ‹_›)] at h
            cases h
          | rw [scanMark.eq_15 _ (characters_front (by decide) hrest ‹_›)] at h
            cases h
          | rw [scanMark.eq_16 _ (characters_front (by decide) hrest ‹_›)] at h
            cases h
          | rw [scanMark.eq_26 _ (characters_front (by decide) hrest ‹_›)] at h
            cases h

end Script

end PixelEffects
