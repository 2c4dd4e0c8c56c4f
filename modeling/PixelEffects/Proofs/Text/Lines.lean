import Mathlib.Data.List.TakeWhile
import PixelEffects.Proofs.FileTree.Path
import PixelEffects.Text.Blank

/-!
# Blanks, Words and Lines of Joint Texts

What becomes of the parts of a text when something is put in front of it or behind it.

The functions that cut a text up read it character by character and carry along what they are in the
middle of. Nothing is carried across a place where they have just finished something, and there a
text can be taken apart: at the end of a line, at the blank behind a word, at a separator. Blanks at
the ends are taken away by trimming, so they matter to no part that is trimmed.

## Main definitions

* `Text.AllBlank`: Nothing but blanks.
* `Text.EndsLine`: A text behind which a new line begins.

## Theorems

* `Text.trim_append`, `Text.exists_trim`: Trimming takes away the blanks at the ends, and no more.
* `Text.words_cons_blank`, `Text.words_cons`: The first word of a text, and the words behind it.
* `Text.lines_append`, `Text.lines_of_not_mem`: The lines of a text that goes on behind a line, and of
  one that is a line.
* `Text.splitOnce_append`: A text is cut at the first separator.
* `Text.splitAll_trim`: The trimmed parts of a text with blanks around it.
* `Text.splitAll_intercalate`: The parts of what was put together with separators.
-/

namespace PixelEffects

namespace Text

/-- Nothing but blanks. -/
def AllBlank (cs : List Char) : Prop :=
  ∀ c ∈ cs, isBlank c = true

theorem allBlank_nil : AllBlank [] :=
  fun _ hc => (List.not_mem_nil hc).elim

theorem AllBlank.reverse {cs : List Char} (h : AllBlank cs) : AllBlank cs.reverse :=
  fun c hc => h c (List.mem_reverse.mp hc)

/-! ## Blanks at the ends -/

theorem trimStart_append {front : List Char} (h : AllBlank front) (cs : List Char) :
    trimStart (front ++ cs) = trimStart cs :=
  List.dropWhile_append_of_pos h

theorem trimStart_allBlank {cs : List Char} (h : AllBlank cs) : trimStart cs = [] :=
  List.dropWhile_eq_nil_iff.mpr h

theorem trimStart_cons {c : Char} (hc : isBlank c = false) (cs : List Char) :
    trimStart (c :: cs) = c :: cs :=
  List.dropWhile_cons_of_neg (by rw [hc]; exact Bool.false_ne_true)

theorem trimEnd_append {back : List Char} (h : AllBlank back) (cs : List Char) :
    trimEnd (cs ++ back) = trimEnd cs := by
  unfold trimEnd
  rw [List.reverse_append, List.dropWhile_append_of_pos h.reverse]

/-- What stands in front of a character that is not blank stays when the end is trimmed. -/
theorem trimEnd_append_cons {c : Char} (hc : isBlank c = false) (front back : List Char) :
    trimEnd (front ++ c :: back) = front ++ c :: trimEnd back := by
  unfold trimEnd
  rw [List.reverse_append, List.reverse_cons, List.append_assoc]
  -- Seen from the end there are the blanks of the back, then the character at the latest.
  have hdrop : ∀ bs : List Char, (bs ++ ([c] ++ front.reverse)).dropWhile isBlank =
      bs.dropWhile isBlank ++ ([c] ++ front.reverse) := by
    intro bs
    induction bs with
    | nil => exact trimStart_cons hc _
    | cons b bs ih =>
        by_cases hb : isBlank b = true
        · rw [List.cons_append, List.dropWhile_cons_of_pos hb, List.dropWhile_cons_of_pos hb, ih]
        · rw [List.cons_append, List.dropWhile_cons_of_neg hb, List.dropWhile_cons_of_neg hb,
            List.cons_append, List.cons_append]
  rw [hdrop, List.reverse_append, List.reverse_append, List.reverse_reverse, List.append_assoc]
  rfl

/-- Blanks at the ends are trimmed away. -/
theorem trim_append {front back : List Char} (hfront : AllBlank front) (hback : AllBlank back)
    (cs : List Char) : trim (front ++ cs ++ back) = trim cs := by
  unfold trim
  rw [List.append_assoc, trimStart_append hfront]
  by_cases h : AllBlank cs
  · -- There is nothing to stop at, so both of the two are blank to the end.
    have hcs : trimStart cs = [] := trimStart_allBlank h
    have hall : trimStart (cs ++ back) = [] := by
      refine List.dropWhile_eq_nil_iff.mpr fun c hc => ?_
      rcases List.mem_append.mp hc with hc | hc
      · exact h c hc
      · exact hback c hc
    rw [hcs, hall]
  · have hstart : trimStart (cs ++ back) = trimStart cs ++ back := by
      refine List.dropWhile_append.trans (if_neg fun hnone => h ?_)
      exact List.dropWhile_eq_nil_iff.mp (List.isEmpty_iff.mp hnone)
    rw [hstart, trimEnd_append hback]

/-- After the blanks in front there is what is left in the end, and blanks. -/
theorem exists_trimStart (cs : List Char) : ∃ back, AllBlank back ∧
    trimStart cs = trim cs ++ back := by
  refine ⟨((trimStart cs).reverse.takeWhile isBlank).reverse,
    AllBlank.reverse fun c hc => List.mem_takeWhile_imp hc, ?_⟩
  unfold trim trimEnd
  rw [← List.reverse_append, List.takeWhile_append_dropWhile, List.reverse_reverse]

/-- Nothing but blanks at the ends is trimmed away. -/
theorem exists_trim (cs : List Char) : ∃ front back, AllBlank front ∧ AllBlank back ∧
    cs = front ++ trim cs ++ back := by
  rcases exists_trimStart cs with ⟨back, hback, hstart⟩
  refine ⟨cs.takeWhile isBlank, back, fun c hc => List.mem_takeWhile_imp hc, hback, ?_⟩
  rw [List.append_assoc, ← hstart]
  exact List.takeWhile_append_dropWhile.symm

theorem trim_trim (cs : List Char) : trim (trim cs) = trim cs := by
  rcases exists_trim cs with ⟨front, back, hfront, hback, hcs⟩
  have htrim := trim_append hfront hback (trim cs)
  rw [← hcs] at htrim
  exact htrim.symm

/-- What is left has all the characters that are not blank. -/
theorem mem_trim {c : Char} (hc : isBlank c = false) {cs : List Char} : c ∈ trim cs ↔ c ∈ cs := by
  rcases exists_trim cs with ⟨front, back, hfront, hback, hcs⟩
  have hnot : ∀ {bs : List Char}, AllBlank bs → c ∉ bs := fun hbs hmem => by
    rw [hbs c hmem] at hc
    cases hc
  constructor
  · intro hmem
    rw [hcs]
    exact List.mem_append_left back (List.mem_append_right front hmem)
  · intro hmem
    rw [hcs] at hmem
    rcases List.mem_append.mp hmem with hmem | hmem
    · exact (List.mem_append.mp hmem).resolve_left (hnot hfront)
    · exact absurd hmem (hnot hback)

theorem trim_trimStart (cs : List Char) : trim (trimStart cs) = trim cs := by
  have hblank : AllBlank (cs.takeWhile isBlank) := fun c hc => List.mem_takeWhile_imp hc
  have htrim := trim_append hblank allBlank_nil (trimStart cs)
  rw [List.append_nil] at htrim
  rw [← htrim]
  exact congrArg trim List.takeWhile_append_dropWhile

theorem trim_trimEnd (cs : List Char) : trim (trimEnd cs) = trim cs := by
  have hcs : cs = trimEnd cs ++ (cs.reverse.takeWhile isBlank).reverse := by
    unfold trimEnd
    rw [← List.reverse_append, List.takeWhile_append_dropWhile, List.reverse_reverse]
  have hblank : AllBlank (cs.reverse.takeWhile isBlank).reverse :=
    AllBlank.reverse fun c hc => List.mem_takeWhile_imp hc
  have htrim := trim_append allBlank_nil hblank (trimEnd cs)
  rw [List.nil_append, ← hcs] at htrim
  exact htrim.symm

theorem trim_allBlank {cs : List Char} (h : AllBlank cs) : trim cs = [] := by
  have htrim := trim_append h allBlank_nil []
  rwa [List.append_nil, List.append_nil] at htrim

/-- A character that is not blank keeps apart what is trimmed in front of it and behind it. -/
theorem trim_append_cons {c : Char} (hc : isBlank c = false) (front back : List Char) :
    trim (front ++ c :: back) = trimStart front ++ c :: trimEnd back := by
  have hstart : trimStart (front ++ c :: back) = trimStart front ++ c :: back := by
    unfold trimStart
    rw [List.dropWhile_append]
    split
    · next hnone =>
        rw [List.isEmpty_iff.mp hnone]
        exact trimStart_cons hc back
    · rfl
  unfold trim
  rw [hstart, trimEnd_append_cons hc]

/-- The first character that is left is not blank. -/
theorem isBlank_of_trim {c : Char} {cs rest : List Char} (h : trim cs = c :: rest) :
    isBlank c = false := by
  rcases exists_trimStart cs with ⟨back, _, hstart⟩
  have hfirst := List.head?_dropWhile_not isBlank cs
  unfold trimStart at hstart
  rw [hstart, h] at hfirst
  exact hfirst

/-- Where no blanks are, there is nothing to trim. -/
theorem trim_of_forall {cs : List Char} (h : ∀ c ∈ cs, isBlank c = false) : trim cs = cs := by
  have hkeep : ∀ cs : List Char, (∀ c ∈ cs, isBlank c = false) → cs.dropWhile isBlank = cs := by
    intro cs h
    cases cs with
    | nil => rfl
    | cons c cs => exact trimStart_cons (h c List.mem_cons_self) cs
  unfold trim trimEnd trimStart
  rw [hkeep cs h, hkeep cs.reverse fun c hc => h c (List.mem_reverse.mp hc), List.reverse_reverse]

/-! ## Words -/

theorem words_cons_blank {c : Char} (hc : isBlank c = true) (cs : List Char) :
    words (c :: cs) = words cs := by
  unfold words
  rw [wordsFrom, if_pos hc]

/-- A word that is being read goes on to the next blank. -/
theorem wordsFrom_cons (c : Char) (word cs : List Char) :
    wordsFrom (c :: word) cs =
      ((c :: word).reverse ++ cs.takeWhile (!isBlank ·)) :: words (cs.dropWhile (!isBlank ·)) := by
  induction cs generalizing c word with
  | nil => rw [List.takeWhile_nil, List.append_nil]; rfl
  | cons d cs ih =>
      cases hd : isBlank d with
      | true =>
          simp only [wordsFrom, hd, List.takeWhile_cons, List.dropWhile_cons, Bool.not_true,
            Bool.false_eq_true, if_true, if_false, List.append_nil, words_cons_blank hd]
          rfl
      | false =>
          simp only [wordsFrom, hd, List.takeWhile_cons, List.dropWhile_cons, Bool.not_false,
            Bool.false_eq_true, if_true, if_false]
          rw [ih, List.reverse_cons, List.append_assoc, List.singleton_append]

/-- The first word goes on to the next blank, and the other words are those behind it. -/
theorem words_cons {c : Char} (hc : isBlank c = false) (cs : List Char) :
    words (c :: cs) =
      (c :: cs).takeWhile (!isBlank ·) :: words ((c :: cs).dropWhile (!isBlank ·)) := by
  have hfirst : words (c :: cs) = wordsFrom [c] cs := by
    unfold words
    rw [wordsFrom, hc, if_neg Bool.false_ne_true]
  rw [hfirst, wordsFrom_cons, List.takeWhile_cons, List.dropWhile_cons, hc]
  rfl

/-! ## Lines -/

/-- A text behind which a new line begins. -/
def EndsLine (cs : List Char) : Prop :=
  cs = [] ∨ ∃ front, cs = front ++ ['\n']

theorem linesFrom_append (line front rest : List Char) :
    linesFrom line (front ++ '\n' :: rest) = linesFrom line (front ++ ['\n']) ++ lines rest := by
  induction front generalizing line with
  | nil =>
      simp only [List.nil_append, linesFrom, BEq.rfl, if_true]
      rfl
  | cons c front ih =>
      rw [List.cons_append, List.cons_append, linesFrom, linesFrom]
      split
      · rw [ih, List.cons_append]
      · exact ih (c :: line)

/-- A text without line ends is one line. -/
theorem lines_of_not_mem {c : Char} {cs : List Char} (h : '\n' ∉ c :: cs) :
    lines (c :: cs) = [c :: cs] := by
  have hfrom : ∀ (cs line : List Char), '\n' ∉ cs → line ≠ [] →
      linesFrom line cs = [line.reverse ++ cs] := by
    intro cs
    induction cs with
    | nil =>
        intro line _ hline
        cases line with
        | nil => exact absurd rfl hline
        | cons d line => rw [linesFrom, List.append_nil]; exact hline
    | cons d cs ih =>
        intro line hmem hline
        rw [List.mem_cons, not_or] at hmem
        rw [linesFrom, beq_false_of_ne (Ne.symm hmem.1), if_neg Bool.false_ne_true,
          ih (d :: line) hmem.2 (List.cons_ne_nil d line), List.reverse_cons, List.append_assoc,
          List.singleton_append]
  rw [List.mem_cons, not_or] at h
  unfold lines
  rw [linesFrom, beq_false_of_ne (Ne.symm h.1), if_neg Bool.false_ne_true,
    hfrom cs [c] h.2 (List.cons_ne_nil c [])]
  rfl

/-- A text that goes on behind a line has the lines of both of its parts. -/
theorem lines_append {front : List Char} (h : EndsLine front) (rest : List Char) :
    lines (front ++ rest) = lines front ++ lines rest := by
  rcases h with rfl | ⟨before, rfl⟩
  · rfl
  · rw [List.append_assoc, List.singleton_append]
    exact linesFrom_append [] before rest

/-! ## The first separator -/

theorem splitOnce_of_not_mem {sep : Char} {cs : List Char} (h : sep ∉ cs) :
    splitOnce sep cs = none := by
  have hall : cs.dropWhile (· != sep) = [] :=
    List.dropWhile_eq_nil_iff.mpr fun c hc => bne_iff_ne.mpr fun heq => h (heq ▸ hc)
  unfold splitOnce
  rw [hall]

theorem splitOnce_append {sep : Char} {front : List Char} (h : sep ∉ front) (back : List Char) :
    splitOnce sep (front ++ sep :: back) = some (front, back) := by
  have hfront : ∀ c ∈ front, (c != sep) = true :=
    fun c hc => bne_iff_ne.mpr fun heq => h (heq ▸ hc)
  unfold splitOnce
  rw [List.dropWhile_append_of_pos hfront, List.takeWhile_append_of_pos hfront]
  simp only [List.dropWhile_cons, List.takeWhile_cons, bne_self_eq_false, Bool.false_eq_true,
    if_false, List.append_nil]

/-! ## Parts between separators -/

theorem not_mem_of_allBlank {sep : Char} (hsep : isBlank sep = false) {cs : List Char}
    (h : AllBlank cs) : sep ∉ cs := fun hmem => by
  rw [h sep hmem] at hsep
  cases hsep

/-- The first part has the blanks in front. -/
theorem splitAll_append_left {sep : Char} (hsep : isBlank sep = false) {front : List Char}
    (hfront : AllBlank front) (cs : List Char) :
    (splitAll sep (front ++ cs)).map trim = (splitAll sep cs).map trim := by
  have htrim : ∀ part, trim (front ++ part) = trim part := fun part => by
    have h := trim_append hfront allBlank_nil part
    rwa [List.append_nil] at h
  have hnot : ∀ {part : List Char}, sep ∉ part → sep ∉ front ++ part := fun hpart hmem =>
    (List.mem_append.mp hmem).elim (not_mem_of_allBlank hsep hfront) hpart
  by_cases hmem : sep ∈ cs
  · rcases List.eq_append_cons_of_mem hmem with ⟨first, others, rfl, hfirst⟩
    rw [← List.append_assoc, splitAll_append, splitAll_append, splitAll_of_not_mem hfirst,
      splitAll_of_not_mem (hnot hfirst), List.map_append, List.map_append, List.map_singleton,
      List.map_singleton, htrim]
  · rw [splitAll_of_not_mem hmem, splitAll_of_not_mem (hnot hmem), List.map_singleton,
      List.map_singleton, htrim]

/-- The last part has the blanks behind. -/
theorem splitAll_append_right {sep : Char} (hsep : isBlank sep = false) {back : List Char}
    (hback : AllBlank back) (cs : List Char) :
    (splitAll sep (cs ++ back)).map trim = (splitAll sep cs).map trim := by
  have htrim : ∀ part, trim (part ++ back) = trim part := fun part =>
    trim_append allBlank_nil hback part
  have hnot : ∀ {part : List Char}, sep ∉ part → sep ∉ part ++ back := fun hpart hmem =>
    (List.mem_append.mp hmem).elim hpart (not_mem_of_allBlank hsep hback)
  by_cases hmem : sep ∈ cs
  · -- The last part stands behind the first separator from the end.
    rcases List.eq_append_cons_of_mem (List.mem_reverse.mpr hmem) with ⟨last, others, heq, hlast⟩
    have hcs : cs = others.reverse ++ sep :: last.reverse := by
      rw [← List.reverse_reverse cs, heq, List.reverse_append, List.reverse_cons,
        List.append_assoc, List.singleton_append]
    have hlast' : sep ∉ last.reverse := fun hmem => hlast (List.mem_reverse.mp hmem)
    rw [hcs, List.append_assoc, List.cons_append, splitAll_append, splitAll_append,
      splitAll_of_not_mem hlast', splitAll_of_not_mem (hnot hlast'), List.map_append,
      List.map_append, List.map_singleton, List.map_singleton, htrim]
  · rw [splitAll_of_not_mem hmem, splitAll_of_not_mem (hnot hmem), List.map_singleton,
      List.map_singleton, htrim]

/-- Blanks around a text are not seen in its trimmed parts. -/
theorem splitAll_trim {sep : Char} (hsep : isBlank sep = false) (cs : List Char) :
    (splitAll sep (trim cs)).map trim = (splitAll sep cs).map trim := by
  rcases exists_trim cs with ⟨front, back, hfront, hback, hcs⟩
  have hparts := splitAll_append_right hsep hback (front ++ trim cs)
  rw [← hcs, splitAll_append_left hsep hfront] at hparts
  exact hparts.symm

/-- Parts that are put together with separators, and have none themselves, are the parts again. -/
theorem splitAll_intercalate {sep : Char} {parts : List (List Char)} (hsome : parts ≠ [])
    (hparts : ∀ part ∈ parts, sep ∉ part) : splitAll sep ([sep].intercalate parts) = parts := by
  induction parts with
  | nil => exact absurd rfl hsome
  | cons part parts ih =>
      rcases List.forall_mem_cons.mp hparts with ⟨hpart, hothers⟩
      cases parts with
      | nil =>
          rw [List.intercalate_singleton]
          exact splitAll_of_not_mem hpart
      | cons next parts =>
          rw [List.intercalate_cons_cons, List.append_assoc, List.singleton_append,
            splitAll_append, splitAll_of_not_mem hpart, ih (List.cons_ne_nil _ _) hothers]
          rfl

/-- A character of what was put together is the separator, or it is one of a part. -/
theorem mem_of_mem_intercalate {sep c : Char} {parts : List (List Char)}
    (h : c ∈ [sep].intercalate parts) : c = sep ∨ ∃ part ∈ parts, c ∈ part := by
  induction parts with
  | nil => exact (List.not_mem_nil h).elim
  | cons part parts ih =>
      cases parts with
      | nil =>
          rw [List.intercalate_singleton] at h
          exact .inr ⟨part, List.mem_cons_self, h⟩
      | cons next parts =>
          rw [List.intercalate_cons_cons, List.append_assoc, List.mem_append,
            List.singleton_append, List.mem_cons] at h
          rcases h with h | h | h
          · exact .inr ⟨part, List.mem_cons_self, h⟩
          · exact .inl h
          · rcases ih h with hsep | ⟨other, hother, hmem⟩
            · exact .inl hsep
            · exact .inr ⟨other, List.mem_cons_of_mem part hother, hmem⟩

end Text

end PixelEffects
