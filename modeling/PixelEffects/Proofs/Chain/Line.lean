import PixelEffects.Proofs.Chain.Format

/-!
# Chains on One Line

The chain that is written by an id with its parameters behind it.

Words that are put together with a blank between them are the words again, and a line of such words
has no blanks at its ends. So the line of an id and words is one stage, with this id and with the
parameters that the words write, whether or not the line is ended.

## Main definitions

* `Text.IsWord`: A word of a line.
* `Text.lineEnds`: How a last line can end.

## Theorems

* `Text.words_intercalate`, `Text.lines_of_line`: The words of a line, and the line of a text.
* `Chain.parse_of_line`: The chain of a line.
-/

namespace PixelEffects

namespace Text

/-- A word of a line: some characters, and no blank among them. -/
def IsWord (cs : List Char) : Prop :=
  cs ≠ [] ∧ ∀ c ∈ cs, isBlank c = false

/-- What can stand behind the last line of a text. -/
def lineEnds : List String :=
  ["", "\n", "\r\n"]

variable {word : List Char} {ws : List (List Char)}

/-! ## Words -/

theorem words_append_blank (hword : IsWord word) {blank : Char} (hblank : isBlank blank = true)
    (cs : List Char) : words (word ++ blank :: cs) = word :: words cs := by
  have hall : ∀ c ∈ word, (!isBlank c) = true := fun c hc => by rw [hword.2 c hc]; rfl
  cases word with
  | nil => exact absurd rfl hword.1
  | cons c rest =>
      rw [List.cons_append, words_cons (hword.2 c List.mem_cons_self), ← List.cons_append,
        List.takeWhile_append_of_pos hall, List.dropWhile_append_of_pos hall,
        List.takeWhile_cons_of_neg (by rw [hblank]; decide),
        List.dropWhile_cons_of_neg (by rw [hblank]; decide), words_cons_blank hblank,
        List.append_nil]

theorem words_of_isWord (hword : IsWord word) : words word = [word] := by
  have hall : ∀ c ∈ word, (!isBlank c) = true := fun c hc => by rw [hword.2 c hc]; rfl
  cases word with
  | nil => exact absurd rfl hword.1
  | cons c rest =>
      rw [words_cons (hword.2 c List.mem_cons_self), List.takeWhile_eq_self_iff.mpr hall,
        List.dropWhile_eq_nil_iff.mpr hall]
      rfl

/-- Words with a blank between them are the words again. -/
theorem words_intercalate (hws : ∀ w ∈ ws, IsWord w) : words ([' '].intercalate ws) = ws := by
  induction ws with
  | nil => rfl
  | cons word others ih =>
      rcases List.forall_mem_cons.mp hws with ⟨hword, hothers⟩
      cases others with
      | nil => rw [List.intercalate_singleton, words_of_isWord hword]
      | cons next others =>
          rw [List.intercalate_cons_cons, List.append_assoc, List.singleton_append,
            words_append_blank hword (by decide), ih hothers]

/-! ## Both ends of a line -/

/-- A line begins with the first character of its first word. -/
theorem intercalate_eq_cons (c : Char) (rest : List Char) (ws : List (List Char)) :
    ∃ cs, [' '].intercalate ((c :: rest) :: ws) = c :: cs := by
  cases ws with
  | nil => exact ⟨rest, List.intercalate_singleton⟩
  | cons next ws =>
      rw [List.intercalate_cons_cons, List.append_assoc, List.cons_append]
      exact ⟨_, rfl⟩

theorem exists_first (hsome : ws ≠ []) (hws : ∀ w ∈ ws, IsWord w) :
    ∃ c cs, [' '].intercalate ws = c :: cs ∧ isBlank c = false := by
  cases ws with
  | nil => exact absurd rfl hsome
  | cons word others =>
      have hword := hws word List.mem_cons_self
      cases word with
      | nil => exact absurd rfl hword.1
      | cons c rest =>
          rcases intercalate_eq_cons c rest others with ⟨cs, hcs⟩
          exact ⟨c, cs, hcs, hword.2 c List.mem_cons_self⟩

theorem exists_last (hsome : ws ≠ []) (hws : ∀ w ∈ ws, IsWord w) :
    ∃ cs c, [' '].intercalate ws = cs ++ [c] ∧ isBlank c = false := by
  induction ws with
  | nil => exact absurd rfl hsome
  | cons word others ih =>
      rcases List.forall_mem_cons.mp hws with ⟨hword, hothers⟩
      cases others with
      | nil =>
          rcases List.eq_nil_or_concat word with rfl | ⟨front, c, rfl⟩
          · exact absurd rfl hword.1
          · rw [List.concat_eq_append] at hword ⊢
            exact ⟨front, c, List.intercalate_singleton, hword.2 c (by simp)⟩
      | cons next others =>
          rcases ih (List.cons_ne_nil _ _) hothers with ⟨cs, c, heq, hc⟩
          refine ⟨word ++ [' '] ++ cs, c, ?_, hc⟩
          rw [List.intercalate_cons_cons, heq, List.append_assoc (word ++ [' '])]

/-- A line of words has no blanks at its ends. -/
theorem trim_intercalate (hsome : ws ≠ []) (hws : ∀ w ∈ ws, IsWord w) :
    trim ([' '].intercalate ws) = [' '].intercalate ws := by
  rcases exists_first hsome hws with ⟨first, behind, hfirst, hfirstBlank⟩
  rcases exists_last hsome hws with ⟨front, last, hlast, hlastBlank⟩
  rw [hlast, trim_append_cons hlastBlank]
  cases front with
  | nil => rfl
  | cons c front =>
      rw [hlast, List.cons_append] at hfirst
      cases hfirst
      rw [trimStart_cons hfirstBlank]
      rfl

/-! ## The line of a text -/

theorem linesFrom_newline {cs : List Char} (h : '\n' ∉ cs) (line : List Char) :
    linesFrom line (cs ++ ['\n']) = [finishLine (cs.reverse ++ line)] := by
  induction cs generalizing line with
  | nil =>
      rw [List.nil_append, linesFrom, if_pos BEq.rfl]
      rfl
  | cons c cs ih =>
      rw [List.mem_cons, not_or] at h
      rw [List.cons_append, linesFrom, beq_false_of_ne (Ne.symm h.1), if_neg Bool.false_ne_true,
        ih h.2, List.reverse_cons, List.append_assoc, List.singleton_append]

/-- A line of words is the line of a text that it makes up, however it ends. -/
theorem lines_of_line (hsome : ws ≠ []) (hws : ∀ w ∈ ws, IsWord w) {ending : String}
    (hending : ending ∈ lineEnds) :
    lines ([' '].intercalate ws ++ ending.toList) = [[' '].intercalate ws] := by
  have hnone : '\n' ∉ [' '].intercalate ws := by
    intro hmem
    rcases mem_of_mem_intercalate hmem with hblank | ⟨word, hword, hmem⟩
    · cases hblank
    · have hblank := (hws word hword).2 _ hmem
      revert hblank
      decide
  rcases exists_first hsome hws with ⟨first, behind, hfirst, _⟩
  rcases exists_last hsome hws with ⟨front, last, hlast, hlastBlank⟩
  unfold lineEnds at hending
  simp only [List.mem_cons, List.not_mem_nil, or_false] at hending
  rcases hending with rfl | rfl | rfl
  · have hempty : "".toList = [] := rfl
    rw [hempty, List.append_nil]
    rw [hfirst] at hnone ⊢
    exact lines_of_not_mem hnone
  · -- The last character is no blank, so it is not taken for a part of the ending.
    have hreturn : last ≠ '\r' := by
      rintro rfl
      revert hlastBlank
      decide
    have hend : "\n".toList = ['\n'] := rfl
    rw [hend, lines, linesFrom_newline hnone, List.append_nil, hlast, List.reverse_append]
    simp [finishLine, hreturn]
  · have hend : "\r\n".toList = ['\r'] ++ ['\n'] := rfl
    have hnone' : '\n' ∉ [' '].intercalate ws ++ ['\r'] := by
      simp [hnone]
    rw [hend, ← List.append_assoc, lines, linesFrom_newline hnone', List.append_nil,
      List.reverse_append]
    simp [finishLine]

end Text

namespace Chain

/-- An id with words behind it is a chain of one stage. -/
theorem parse_of_line {id : String} (hid : IsIdText id.toList) {params : List String}
    (hparams : ∀ p ∈ params, Text.IsWord p.toList) {ending : String}
    (hending : ending ∈ Text.lineEnds) :
    ∃ chain, parse (" ".intercalate (id :: params) ++ ending) = .ok chain ∧
      chain.stages = [⟨id, Stage.paramsOf (params.map String.toList),
        " ".intercalate (id :: params), 1⟩] := by
  have hwords : ∀ w ∈ (id :: params).map String.toList, Text.IsWord w := by
    intro w hw
    rcases List.mem_map.mp hw with ⟨text, htext, rfl⟩
    rcases List.mem_cons.mp htext with rfl | htext
    · exact ⟨hid.1, fun c hc => (hid.2 c hc).isBlank_eq⟩
    · exact hparams text htext
  have hsome : (id :: params).map String.toList ≠ [] := List.cons_ne_nil _ _
  have hline : (" ".intercalate (id :: params)).toList =
      [' '].intercalate ((id :: params).map String.toList) := String.toList_intercalate
  have hlines : Text.lines (" ".intercalate (id :: params) ++ ending).toList =
      [(" ".intercalate (id :: params)).toList] := by
    rw [String.toList_append, hline, Text.lines_of_line hsome hwords hending]
  have hfind : id.toList.find? (fun d => !Stage.isIdCharacter d) = none :=
    List.find?_eq_none.mpr fun c hc => by rw [isIdCharacter_iff.mpr (hid.2 c hc)]; decide
  have hcomment : ((" ".intercalate (id :: params)).toList.head? == some '#') = false := by
    rw [hline, List.map_cons]
    cases hchars : id.toList with
    | nil => exact absurd hchars hid.1
    | cons c rest =>
        rcases Text.intercalate_eq_cons c rest (params.map String.toList) with ⟨cs, hcs⟩
        have hbounds := (hid.2 c (hchars ▸ List.mem_cons_self)).bounds
        rw [hcs]
        refine beq_false_of_ne fun hhash => ?_
        cases hhash
        revert hbounds
        decide
  have hstage : Stage.parse? 1 (" ".intercalate (id :: params)).toList =
      .ok (some ⟨id, Stage.paramsOf (params.map String.toList),
        " ".intercalate (id :: params), 1⟩) := by
    have htrim := Text.trim_intercalate hsome hwords
    have hsplit := Text.words_intercalate hwords
    rw [← hline] at htrim hsplit
    unfold Stage.parse?
    simp only [htrim, hcomment, hsplit, List.map_cons, hfind, Bool.false_eq_true, if_false,
      String.ofList_toList]
  refine ⟨⟨[_], List.cons_ne_nil _ _⟩, ?_, rfl⟩
  unfold parse
  dsimp only
  rw [hlines, Stage.parseAll, hstage]
  rfl

end Chain

end PixelEffects
