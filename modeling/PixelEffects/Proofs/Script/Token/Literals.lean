import PixelEffects.Proofs.Script.Token.Ranges

/-!
# Literals

Every text can be written in a script, in more than one way.

Between quotes, seven characters are written with a backslash in front of a letter: those that would
end the text or its line, the backslash itself, and a few that are hard to see. Both quotes are among
them, so what stands between the quotes does not depend on which one they are. All others stand for
themselves, of whatever number of bytes they are.

Between long brackets, nothing is written in another way. Since a line feed directly behind the opening
brackets is dropped, one is written there, and the text can begin with another. What ends the text are
the first two closing brackets. So it can be written like this exactly if there are no two of them in
it and it does not end in one, which would be the first of the two behind it.

## Main definitions

* `Quote`, `escaped`, `quotedLiteral`: A text in quotes.
* `longLiteral`: A text in long brackets.

## Theorems

* `scanQuoted_escaped`: What is written between quotes is read back, whatever follows.
* `scanLong_closed`, `exists_scanLong_of_infix`: Where a long text ends.
* `lex_literals`: Which literals are read as which texts.
-/

namespace PixelEffects

namespace Script

variable {c : Char} {cs rest : List Char}

/-! ## Texts in quotes -/

/-- The quotes that a text can stand in. -/
inductive Quote
  | single | double
deriving DecidableEq

/-- The character that a quote is. -/
def Quote.char : Quote → Char
  | single => '\''
  | double => '"'

/-- How a character is written between quotes. -/
def escaped : Char → List Char
  | '\n' => ['\\', 'n']
  | '\t' => ['\\', 't']
  | '\r' => ['\\', 'r']
  | '\x00' => ['\\', '0']
  | '\\' => ['\\', '\\']
  | '"' => ['\\', '"']
  | '\'' => ['\\', '\'']
  | c => [c]

/-- A text in quotes. -/
def quotedLiteral (quote : Quote) (s : String) : String :=
  String.ofList (quote.char :: s.toList.flatMap escaped ++ [quote.char])

/-- A character is read back from what it is written as. -/
theorem scanQuoted_cons (quote : Quote) (done : List Char) (c : Char) (rest : List Char) :
    scanQuoted quote.char done (escaped c ++ rest) = scanQuoted quote.char (c :: done) rest := by
  fun_cases escaped c with
  | case8 c hline _ _ _ hback hdouble hsingle =>
      have hopen : ¬ (c == quote.char) = true := by
        rw [beq_iff_eq]
        cases quote with
        | single => exact hsingle
        | double => exact hdouble
      -- What stands for itself is no backslash and does not end the text.
      rw [List.singleton_append, scanQuoted.eq_5 _ _ _ _ hline (fun heq => absurd heq hback)
        (fun _ _ heq => absurd heq hback), if_neg hopen]
  | _ => exact scanQuoted.eq_4 _ _ _ _

/-- What is written between quotes is read back. -/
theorem scanQuoted_escaped (quote : Quote) (done cs rest : List Char) :
    scanQuoted quote.char done (cs.flatMap escaped ++ quote.char :: rest) =
      .ok (String.ofList (done.reverse ++ cs), rest) := by
  induction cs generalizing done with
  | nil =>
      rw [List.flatMap_nil, List.nil_append, List.append_nil]
      cases quote <;> rfl
  | cons c cs ih =>
      rw [List.flatMap_cons, List.append_assoc, scanQuoted_cons, ih, List.reverse_cons,
        List.append_assoc, List.singleton_append]

/-- A text in quotes is one token, whatever follows. -/
theorem scanToken_quoted (quote : Quote) (line : Nat) (cs rest : List Char) :
    scanToken line (quote.char :: (cs.flatMap escaped ++ quote.char :: rest)) =
      .ok ⟨.text (String.ofList cs), line, rest⟩ := by
  have hscan := scanQuoted_escaped quote [] cs rest
  generalize cs.flatMap escaped ++ quote.char :: rest = written at hscan ⊢
  have hnumber : ¬ startsNumber (quote.char :: written) = true := by
    cases quote <;> exact Bool.false_ne_true
  have hname : ¬ isNameStart quote.char = true := by
    cases quote <;> decide
  have hquote : (quote.char == '"' || quote.char == '\'') = true := by
    cases quote <;> rfl
  have hother : ∀ written', quote.char = '[' → written = '[' :: written' → False := by
    intro _ hopen
    cases quote <;> cases hopen
  rw [scanToken.eq_3 _ _ _ hother, if_neg hnumber, if_neg hname, if_pos hquote, hscan]
  rfl

/-! ## Texts in long brackets -/

/-- A text in long brackets. -/
def longLiteral (s : String) : String :=
  "[[\n" ++ s ++ "]]"

/-- A long text goes on where there are no two closing brackets of it and the one behind it. -/
theorem scanLong_cons (h : ¬ [']', ']'] <+: c :: (cs ++ [']'])) (done : List Char) (line : Nat)
    (rest : List Char) :
    scanLong done line (c :: (cs ++ ']' :: ']' :: rest)) =
      scanLong (c :: done) (lineAfter c line) (cs ++ ']' :: ']' :: rest) := by
  refine scanLong.eq_3 _ _ _ _ ?_
  rintro left rfl hcs
  refine h ?_
  cases cs with
  | nil => exact List.prefix_refl _
  | cons d cs =>
      cases (List.cons.inj hcs).1
      exact ⟨cs ++ [']'], rfl⟩

/-- A long text ends at the first two closing brackets. -/
theorem scanLong_closed (h : ¬ [']', ']'] <:+: cs ++ [']']) (done : List Char) (line : Nat)
    (rest : List Char) :
    scanLong done line (cs ++ ']' :: ']' :: rest) =
      .ok (String.ofList (done.reverse ++ cs), line + cs.count '\n', rest) := by
  induction cs generalizing done line with
  | nil =>
      rw [List.append_nil]
      rfl
  | cons c cs ih =>
      rw [List.cons_append, List.infix_cons_iff, not_or] at h
      rw [List.cons_append, scanLong_cons h.1, ih h.2, List.reverse_cons, lineAfter_eq,
        List.append_assoc, List.singleton_append, Nat.add_assoc, ← List.count_append,
        List.singleton_append]

/-- With two closing brackets further in front, a long text ends there, and more of it is left. -/
theorem exists_scanLong_of_infix (h : [']', ']'] <:+: cs ++ [']']) (done : List Char) (line : Nat)
    (rest : List Char) : ∃ value line' more, more ≠ [] ∧
      scanLong done line (cs ++ ']' :: ']' :: rest) = .ok (value, line', more ++ rest) := by
  induction cs generalizing done line with
  | nil => exact absurd h.length_le (by decide)
  | cons c cs ih =>
      rw [List.cons_append, List.infix_cons_iff] at h
      by_cases hfront : [']', ']'] <+: c :: (cs ++ [']'])
      · rcases hfront with ⟨more, hmore⟩
        cases (List.cons.inj hmore).1
        refine ⟨String.ofList done.reverse, line, more ++ [']'], by simp, ?_⟩
        have hcs : cs ++ ']' :: ']' :: rest = ']' :: (more ++ [']'] ++ rest) := by
          rw [List.append_cons, ← (List.cons.inj hmore).2]
          exact congrArg (']' :: ·) (List.append_cons more ']' rest)
        rw [List.cons_append, hcs]
        rfl
      · rw [List.cons_append, scanLong_cons hfront]
        exact ih (h.resolve_left hfront) _ _

/-- Two closing brackets in a text and the one behind it are in the text, or the last of it is one. -/
theorem infix_closed_iff : [']', ']'] <:+: cs ++ [']'] ↔
    [']', ']'] <:+: cs ∨ cs.getLast? = some ']' := by
  rw [List.infix_concat_iff, or_comm, List.getLast?_eq_some_iff]
  refine or_congr Iff.rfl ⟨?_, ?_⟩
  · rintro ⟨front, hfront⟩
    exact ⟨front, List.append_cancel_right
      (hfront.symm.trans (List.append_assoc front [']'] [']']).symm)⟩
  · rintro ⟨front, rfl⟩
    exact ⟨front, (List.append_assoc front [']'] [']']).symm⟩

/-- A long text is one token. The line feed behind its opening brackets is not part of it. -/
theorem scanToken_long (line : Nat) (cs : List Char) :
    scanToken line ('[' :: '[' :: '\n' :: cs) =
      match scanLong [] (line + 1) cs with
      | .ok (value, after, rest) => .ok ⟨.text value, after, rest⟩
      | .error e => .error e := by
  have hnumber : ¬ startsNumber ('[' :: '[' :: '\n' :: cs) = true := Bool.false_ne_true
  have hname : ¬ isNameStart '[' = true := by decide
  have hquote : ¬ ('[' == '"' || '[' == '\'') = true := by decide
  rw [scanToken.eq_2, if_neg hnumber, if_neg hname, if_neg hquote]
  rfl

/-! ## The literals of a text -/

/-- The tokens that are read are added to those already read. -/
theorem lexFrom_prefix {n line : Nat} {done ts : List Lexeme} (h : lexFrom n done line cs = .ok ts) :
    done.reverse <+: ts := by
  fun_induction lexFrom n done line cs with
  | case1 =>
      cases h
      exact List.prefix_refl _
  | case2 => cases h
  | case3 =>
      cases h
      rw [List.reverse_cons]
      exact List.prefix_append _ _
  | case4 => cases h
  | case5 n done line cs line' c rest _ s _ ih =>
      rw [List.reverse_cons] at ih
      exact (List.prefix_append _ _).trans (ih h)

theorem lex_quotedLiteral (quote : Quote) (s : String) :
    lex (quotedLiteral quote s) = .ok [⟨.text s, 1⟩, ⟨.endOfSource, 1⟩] := by
  have hscan := scanToken_quoted quote 1 s.toList []
  have hskip : ∀ left, skipTrivia .blanks 1 (quote.char :: left) = .ok (1, quote.char :: left) := by
    intro left
    cases quote <;> rfl
  rw [String.ofList_toList] at hscan
  unfold lex quotedLiteral
  rw [String.toList_ofList, List.cons_append]
  dsimp only
  rw [lexFrom_of_token [] (hskip _) hscan]
  rfl

theorem lex_longLiteral (s : String) :
    lex (longLiteral s) = lexFrom (s.toList.length + 6) [] 1
      ('[' :: '[' :: '\n' :: (s.toList ++ [']', ']'])) := by
  have hlist : (longLiteral s).toList = '[' :: '[' :: '\n' :: (s.toList ++ [']', ']']) := by
    unfold longLiteral
    rw [String.toList_append, String.toList_append, List.append_assoc]
    rfl
  unfold lex
  rw [hlist]
  simp only [List.length_cons, List.length_append, List.length_nil]

theorem lex_longLiteral_iff (s : String) :
    lex (longLiteral s) = .ok [⟨.text s, 1⟩, ⟨.endOfSource, 2 + s.toList.count '\n'⟩] ↔
      ¬ [']', ']'] <:+: s.toList ++ [']'] := by
  have htoken := scanToken_long 1 (s.toList ++ [']', ']'])
  rw [lex_longLiteral]
  constructor
  · intro hlex hinside
    -- The text would end too early, so there would be another one first.
    rcases exists_scanLong_of_infix hinside [] 2 [] with ⟨value, line, more, hmore, hscan⟩
    rw [hscan, List.append_nil] at htoken
    rw [lexFrom_of_token [] rfl htoken] at hlex
    rcases lexFrom_prefix hlex with ⟨later, hlater⟩
    cases (List.cons.inj hlater).1
    -- What is read with more of it left is shorter than what was written.
    rcases scanLong_append hscan with ⟨body, hbody, hvalue, _⟩
    have hwritten : s.toList = body := by
      rw [hvalue, String.toList_ofList]
      rfl
    have hlength := congrArg List.length hbody
    rw [hwritten] at hlength
    have hmore := List.length_pos_iff.mpr hmore
    simp only [List.length_append, List.length_cons, List.length_nil] at hlength
    omega
  · intro hclosed
    rw [scanLong_closed hclosed [] 2 []] at htoken
    rw [lexFrom_of_token [] rfl htoken, List.reverse_nil, List.nil_append, String.ofList_toList]
    rfl

/-- Every text is read back from what it is written as in quotes of either kind. In long brackets, with
    a line feed behind the opening ones, exactly those texts are read back that have no two closing
    brackets in them and do not end in one. -/
theorem lex_literals (s : String) :
    (∀ quote, lex (quotedLiteral quote s) = .ok [⟨.text s, 1⟩, ⟨.endOfSource, 1⟩]) ∧
      (lex (longLiteral s) = .ok [⟨.text s, 1⟩, ⟨.endOfSource, 2 + s.toList.count '\n'⟩] ↔
        ¬ [']', ']'] <:+: s.toList ∧ s.toList.getLast? ≠ some ']') := by
  refine ⟨fun quote => lex_quotedLiteral quote s, ?_⟩
  rw [lex_longLiteral_iff, infix_closed_iff, not_or]

/-- A text of quotes, backslashes, a NUL and a character of two bytes. -/
example : quotedLiteral .single "\"'\\\x00é" = "'\\\"\\'\\\\\\0é'" := by
  decide +kernel

end Script

end PixelEffects
