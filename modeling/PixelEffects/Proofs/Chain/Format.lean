import Mathlib.Data.List.Forall2
import PixelEffects.Chain
import PixelEffects.Proofs.Text.Lines

/-!
# The Format of Chains

What a text has to be like in order to be a chain, and which chain it is.

The lines of a text are of three kinds, once the blanks around them are gone: there is nothing left,
there is a comment, or there is a stage. Only the last kind matters, and a line of it is in order if
its first word is one that an id can be. So reading a chain is settled by the list of lines with
stages and their numbers. It has to have a member, all of its members have to be in order, and the
stages of the chain are what these lines write, one after the other.

What a line writes is said here without the functions that read it. Parameters are the part where
this matters. Reading goes through the words from left to right and overwrites what it has, and what
comes of it is that the last word with a key has the say.

## Main definitions

* `IsIdText`: A text that an id in a chain can be.
* `ChainLine`, `stageLines`: The kinds of lines, and the lines with stages.
* `WritesParam`: The key and the value that a word writes.
* `Stage.WrittenBy`: A stage that is written by a line.
* `Refuses`: A line whose first word is no id, and the error that says so.

## Theorems

* `writesParam_iff`: What a word is taken for.
* `Stage.paramsOf_some_iff`, `Stage.paramsOf_none_iff`: The parameters that words write.
* `Stage.parse?_cases`, `Stage.parseAll_cases`: Reading a line, and reading lines.
* `Chain.parse_of_isIdText`: An id by itself is a chain.
* `Chain.parse_format`: Which texts are chains, which chains they are, and what is wrong with the
  others.
-/

namespace PixelEffects

/-- A letter, a digit, an underscore, a dot or a hyphen. -/
def IsIdCharacter (c : Char) : Prop :=
  ('A' ≤ c ∧ c ≤ 'Z') ∨ ('a' ≤ c ∧ c ≤ 'z') ∨ ('0' ≤ c ∧ c ≤ '9') ∨ c = '_' ∨ c = '.' ∨ c = '-'

/-- A text that an id in a chain can be. -/
def IsIdText (word : List Char) : Prop :=
  word ≠ [] ∧ ∀ c ∈ word, IsIdCharacter c

/-- The kinds of lines, by what is left of them without the blanks around. -/
inductive ChainLine
  | blank
  | comment
  | stage
deriving Repr, DecidableEq

/-- The kind of a line without blanks around it. -/
def ChainLine.of : List Char → ChainLine
  | [] => blank
  | c :: _ => if c = '#' then comment else stage

/-- The lines with stages, without the blanks around them and with their numbers. -/
def stageLines (number : Nat) (lines : List (List Char)) : List (List Char × Nat) :=
  ((lines.map Text.trim).zipIdx number).filter fun l => ChainLine.of l.1 = .stage

/-- The first word of a line without blanks around it. -/
def firstWord (line : List Char) : List Char :=
  line.takeWhile (!Text.isBlank ·)

/-- The words behind the first one. -/
def otherWords (line : List Char) : List (List Char) :=
  Text.words (line.dropWhile (!Text.isBlank ·))

/-- The key and the value that a word writes: it is cut at its first equals sign. A word that has
    none, or no key in front of it, is a key as a whole. -/
inductive WritesParam : List Char → String → String → Prop
  | pair {key value : List Char} (hsome : key ≠ []) (hfirst : '=' ∉ key) :
      WritesParam (key ++ '=' :: value) (String.ofList key) (String.ofList value)
  | plain {word : List Char} (hnone : '=' ∉ word) : WritesParam word (String.ofList word) ""
  | keyless {value : List Char} : WritesParam ('=' :: value) (String.ofList ('=' :: value)) ""

/-- No word writes a parameter with a key. -/
def Unwritten (key : String) (words : List (List Char)) : Prop :=
  ∀ word ∈ words, ∀ value, ¬ WritesParam word key value

/-- A stage that is written by a line with a number. -/
structure Stage.WrittenBy (stage : Stage) (l : List Char × Nat) : Prop where
  line : stage.line = l.2
  rawText : stage.rawText = String.ofList l.1
  effectId : stage.effectId = String.ofList (firstWord l.1)
  isIdText : IsIdText (firstWord l.1)
  given : ∀ key value, stage.params[key]? = some value ↔
    ∃ before word after, otherWords l.1 = before ++ word :: after ∧
      WritesParam word key value ∧ Unwritten key after
  absent : ∀ key, stage.params[key]? = none ↔ Unwritten key (otherWords l.1)

/-- A line whose first word is no id, and the error that names it and its first wrong character. -/
def Refuses (l : List Char × Nat) (e : Error) : Prop :=
  ∃ front c back, firstWord l.1 = front ++ c :: back ∧ (∀ d ∈ front, IsIdCharacter d) ∧
    ¬ IsIdCharacter c ∧
    e = .chainSyntax l.2 (.invalidCharacter c (String.ofList (firstWord l.1)))

/-! ## Ids -/

theorem isIdCharacter_iff {c : Char} : Stage.isIdCharacter c = true ↔ IsIdCharacter c := by
  have halpha : c.isAlpha = (c.isUpper || c.isLower) := rfl
  have hupper : c.isUpper = decide ('A' ≤ c ∧ c ≤ 'Z') := rfl
  have hlower : c.isLower = (decide ('a' ≤ c) && decide (c ≤ 'z')) := rfl
  have hdigit : c.isDigit = (decide ('0' ≤ c) && decide (c ≤ '9')) := rfl
  simp only [Stage.isIdCharacter, IsIdCharacter, Char.isAlphanum, halpha, hupper, hlower, hdigit,
    Bool.or_eq_true, Bool.and_eq_true, decide_eq_true_eq, beq_iff_eq, or_assoc]

/-- A word is in order as far as its characters go, or one of them is the first that is wrong. -/
theorem wrongCharacter_cases (word : List Char) :
    (word.find? (fun c => !Stage.isIdCharacter c) = none ∧ ∀ c ∈ word, IsIdCharacter c) ∨
      ∃ front c back, word.find? (fun c => !Stage.isIdCharacter c) = some c ∧
        word = front ++ c :: back ∧ (∀ d ∈ front, IsIdCharacter d) ∧ ¬ IsIdCharacter c := by
  cases hfind : word.find? (fun c => !Stage.isIdCharacter c) with
  | none =>
      refine .inl ⟨rfl, fun c hc => isIdCharacter_iff.mp ?_⟩
      have hgood := List.find?_eq_none.mp hfind c hc
      simpa using hgood
  | some c =>
      rcases List.find?_eq_some_iff_append.mp hfind with ⟨hwrong, front, back, hword, hfront⟩
      refine .inr ⟨front, c, back, rfl, hword, fun d hd => ?_, fun hgood => ?_⟩
      · exact isIdCharacter_iff.mp (by simpa using hfront d hd)
      · rw [isIdCharacter_iff.mpr hgood] at hwrong
        cases hwrong

theorem Refuses.not_isIdText {l : List Char × Nat} {e : Error} (h : Refuses l e) :
    ¬ IsIdText (firstWord l.1) := by
  rcases h with ⟨front, c, back, hword, _, hwrong, _⟩
  intro hid
  refine hwrong (hid.2 c ?_)
  rw [hword]
  exact List.mem_append_right front (List.mem_cons_self ..)

/-! ## Lines with stages -/

theorem stageLines_cons_of_stage {raw : List Char} (h : ChainLine.of (Text.trim raw) = .stage)
    (number : Nat) (lines : List (List Char)) : stageLines number (raw :: lines) =
      (Text.trim raw, number) :: stageLines (number + 1) lines := by
  unfold stageLines
  rw [List.map_cons, List.zipIdx_cons, List.filter_cons_of_pos (by simpa using h)]

theorem stageLines_cons_of_not_stage {raw : List Char}
    (h : ChainLine.of (Text.trim raw) ≠ .stage) (number : Nat) (lines : List (List Char)) :
    stageLines number (raw :: lines) = stageLines (number + 1) lines := by
  unfold stageLines
  rw [List.map_cons, List.zipIdx_cons, List.filter_cons_of_neg (by simpa using h)]

/-- Lines that stages are written by have ids as their first words. -/
theorem isIdText_of_forall₂ {stages : List Stage} {ls : List (List Char × Nat)}
    (h : List.Forall₂ Stage.WrittenBy stages ls) : ∀ l ∈ ls, IsIdText (firstWord l.1) := by
  induction h with
  | nil => exact fun _ hl => (List.not_mem_nil hl).elim
  | cons hstage _ ih => exact List.forall_mem_cons.mpr ⟨hstage.isIdText, ih⟩

/-! ## Parameters -/

theorem param_plain {word : List Char} (hnone : '=' ∉ word) :
    Stage.param word = (String.ofList word, "") := by
  unfold Stage.param
  rw [Text.splitOnce_of_not_mem hnone]

theorem param_pair {c : Char} {key : List Char} (hfirst : '=' ∉ c :: key) (value : List Char) :
    Stage.param (c :: key ++ '=' :: value) = (String.ofList (c :: key), String.ofList value) := by
  unfold Stage.param
  rw [Text.splitOnce_append hfirst]

theorem param_keyless (value : List Char) :
    Stage.param ('=' :: value) = (String.ofList ('=' :: value), "") := by
  have hsplit : Text.splitOnce '=' ('=' :: value) = some ([], value) :=
    Text.splitOnce_append List.not_mem_nil value
  unfold Stage.param
  rw [hsplit]

/-- A word is taken for the key and the value that it writes. -/
theorem writesParam_iff {word : List Char} {key value : String} :
    WritesParam word key value ↔ Stage.param word = (key, value) := by
  constructor
  · intro h
    cases h with
    | @pair key value hsome hfirst =>
        cases key with
        | nil => exact absurd rfl hsome
        | cons c key => exact param_pair hfirst value
    | plain hnone => exact param_plain hnone
    | keyless => exact param_keyless _
  · intro h
    by_cases hmem : '=' ∈ word
    · rcases List.eq_append_cons_of_mem hmem with ⟨front, back, rfl, hfirst⟩
      cases front with
      | nil =>
          rw [List.nil_append, param_keyless] at h
          cases h
          exact .keyless
      | cons c front =>
          rw [param_pair hfirst] at h
          cases h
          exact .pair (List.cons_ne_nil c front) hfirst
    · rw [param_plain hmem] at h
      cases h
      exact .plain hmem

theorem unwritten_iff {key : String} {words : List (List Char)} :
    Unwritten key words ↔ ∀ word ∈ words, (Stage.param word).1 ≠ key := by
  refine forall₂_congr fun word _ => ⟨fun h heq => ?_, fun h value hwrites => ?_⟩
  · exact h _ (writesParam_iff.mpr (Prod.ext heq rfl))
  · exact h (congrArg Prod.fst (writesParam_iff.mp hwrites))

/-- Either no word writes a parameter with a key, or there is a last one that does. -/
theorem unwritten_or_last (key : String) (words : List (List Char)) :
    Unwritten key words ∨ ∃ before word after value, words = before ++ word :: after ∧
      WritesParam word key value ∧ Unwritten key after := by
  induction words with
  | nil => exact .inl fun _ hword => (List.not_mem_nil hword).elim
  | cons word words ih =>
      rcases ih with hnone | ⟨before, last, after, value, rfl, hlast, hafter⟩
      · by_cases h : ∃ value, WritesParam word key value
        · rcases h with ⟨value, hvalue⟩
          exact .inr ⟨[], word, words, value, rfl, hvalue, hnone⟩
        · refine .inl fun other hother => ?_
          rcases List.mem_cons.mp hother with rfl | hother
          · exact fun value hvalue => h ⟨value, hvalue⟩
          · exact hnone other hother
      · exact .inr ⟨word :: before, last, after, value, rfl, hlast, hafter⟩

namespace Stage

theorem paramsOf_append (before after : List (List Char)) : paramsOf (before ++ after) =
    after.foldl (fun ps word => ps.insert (param word).1 (param word).2) (paramsOf before) :=
  List.foldl_append

/-- Words that do not write a key leave what was there. -/
theorem getElem?_paramsOf_append {key : String} {after : List (List Char)}
    (h : Unwritten key after) (before : List (List Char)) :
    (paramsOf (before ++ after))[key]? = (paramsOf before)[key]? := by
  rw [unwritten_iff] at h
  rw [paramsOf_append]
  -- Each word is an insertion with some other key.
  generalize paramsOf before = ps
  induction after generalizing ps with
  | nil => rfl
  | cons word after ih =>
      rcases List.forall_mem_cons.mp h with ⟨hword, hafter⟩
      rw [List.foldl_cons, ih hafter, Std.TreeMap.getElem?_insert,
        if_neg fun heq => hword (Std.LawfulEqCmp.compare_eq_iff_eq.mp heq)]

theorem getElem?_paramsOf_of_unwritten {key : String} {words : List (List Char)}
    (h : Unwritten key words) : (paramsOf words)[key]? = none := by
  have hkept := getElem?_paramsOf_append h []
  rw [List.nil_append] at hkept
  rw [hkept]
  exact Std.TreeMap.getElem?_emptyc

/-- The last word that writes a key has the say. -/
theorem getElem?_paramsOf_of_last {key value : String} {before after : List (List Char)}
    {word : List Char} (hword : WritesParam word key value) (hafter : Unwritten key after) :
    (paramsOf (before ++ word :: after))[key]? = some value := by
  rw [List.append_cons, getElem?_paramsOf_append hafter, paramsOf_append, List.foldl_cons,
    List.foldl_nil, writesParam_iff.mp hword]
  exact Std.TreeMap.getElem?_insert_self

theorem paramsOf_some_iff {words : List (List Char)} {key value : String} :
    (paramsOf words)[key]? = some value ↔ ∃ before word after,
      words = before ++ word :: after ∧ WritesParam word key value ∧ Unwritten key after := by
  constructor
  · intro h
    rcases unwritten_or_last key words with
      hnone | ⟨before, word, after, value', rfl, hword, hafter⟩
    · rw [getElem?_paramsOf_of_unwritten hnone] at h
      cases h
    · rw [getElem?_paramsOf_of_last hword hafter] at h
      cases h
      exact ⟨before, word, after, rfl, hword, hafter⟩
  · rintro ⟨before, word, after, rfl, hword, hafter⟩
    exact getElem?_paramsOf_of_last hword hafter

theorem paramsOf_none_iff {words : List (List Char)} {key : String} :
    (paramsOf words)[key]? = none ↔ Unwritten key words := by
  refine ⟨fun h => ?_, getElem?_paramsOf_of_unwritten⟩
  rcases unwritten_or_last key words with hnone | ⟨before, word, after, value, rfl, hword, hafter⟩
  · exact hnone
  · rw [getElem?_paramsOf_of_last hword hafter] at h
    cases h

/-! ## Lines -/

theorem parse?_of_not_stage {raw : List Char} (h : ChainLine.of (Text.trim raw) ≠ .stage)
    (number : Nat) : parse? number raw = .ok none := by
  unfold parse?
  cases hline : Text.trim raw with
  | nil => rfl
  | cons c rest =>
      by_cases hc : c = '#'
      · simp [hc]
      · rw [hline] at h
        exact absurd (if_neg hc) h

/-- A line with a stage is read word by word, and its first word has to be in order. -/
theorem parse?_eq {raw rest : List Char} {c : Char} (hline : Text.trim raw = c :: rest)
    (hc : c ≠ '#') (number : Nat) : parse? number raw =
      ((firstWord (c :: rest)).find? fun d => !isIdCharacter d).elim
        (.ok (some ⟨String.ofList (firstWord (c :: rest)),
          paramsOf (otherWords (c :: rest)), String.ofList (c :: rest), number⟩))
        fun d => .error (.chainSyntax number
          (.invalidCharacter d (String.ofList (firstWord (c :: rest))))) := by
  have hwords : Text.words (c :: rest) = firstWord (c :: rest) :: otherWords (c :: rest) :=
    Text.words_cons (Text.isBlank_of_trim hline) rest
  have hhead : ((c :: rest).head? == some '#') = false :=
    beq_false_of_ne fun heq => hc (Option.some.inj heq)
  unfold parse?
  simp only [hline, hhead, Bool.false_eq_true, if_false, hwords]
  cases (firstWord (c :: rest)).find? fun d => !isIdCharacter d <;> rfl

/-- A line with a stage is a stage, or it is refused because of its first word. -/
theorem parse?_of_stage {raw : List Char} (h : ChainLine.of (Text.trim raw) = .stage)
    (number : Nat) :
    (∃ stage, parse? number raw = .ok (some stage) ∧ stage.WrittenBy (Text.trim raw, number)) ∨
      ∃ e, parse? number raw = .error e ∧ Refuses (Text.trim raw, number) e := by
  cases hline : Text.trim raw with
  | nil =>
      rw [hline] at h
      cases h
  | cons c rest =>
      have hc : c ≠ '#' := by
        rintro rfl
        rw [hline] at h
        cases h
      -- Nothing is left of the blanks in front, so the first word has the first character.
      have hsome : firstWord (c :: rest) ≠ [] := by
        unfold firstWord
        rw [List.takeWhile_cons, Text.isBlank_of_trim hline]
        exact List.cons_ne_nil _ _
      rw [parse?_eq hline hc]
      rcases wrongCharacter_cases (firstWord (c :: rest)) with
        ⟨hfind, hgood⟩ | ⟨front, d, back, hfind, hword, hfront, hwrong⟩
      · rw [hfind]
        exact .inl ⟨_, rfl, rfl, rfl, rfl, ⟨hsome, hgood⟩,
          fun _ _ => paramsOf_some_iff, fun _ => paramsOf_none_iff⟩
      · rw [hfind]
        exact .inr ⟨_, rfl, front, d, back, hword, hfront, hwrong, rfl⟩

/-- Lines are stages one by one, up to the first one that is refused. By induction on the lines,
    with the number of the first one. -/
theorem parseAll_cases (number : Nat) (lines : List (List Char)) :
    (∃ stages, parseAll number lines = .ok stages ∧
      List.Forall₂ WrittenBy stages (stageLines number lines)) ∨
    ∃ before l after e, parseAll number lines = .error e ∧
      stageLines number lines = before ++ l :: after ∧
      (∀ l' ∈ before, IsIdText (firstWord l'.1)) ∧ Refuses l e := by
  induction lines generalizing number with
  | nil => exact .inl ⟨[], rfl, .nil⟩
  | cons raw lines ih =>
      by_cases hkind : ChainLine.of (Text.trim raw) = .stage
      · rw [stageLines_cons_of_stage hkind]
        rcases parse?_of_stage hkind number with ⟨stage, hparse, hstage⟩ | ⟨e, hparse, hrefuses⟩
        · rcases ih (number + 1) with
            ⟨stages, hrest, hstages⟩ | ⟨before, l, after, e, hrest, hl, hbefore, hrefuses⟩
          · refine .inl ⟨stage :: stages, ?_, .cons hstage hstages⟩
            simp only [parseAll, hparse, hrest, Option.toList_some, List.singleton_append]
          · refine .inr ⟨(Text.trim raw, number) :: before, l, after, e, ?_, ?_, ?_, hrefuses⟩
            · simp only [parseAll, hparse, hrest]
            · rw [hl, List.cons_append]
            · exact List.forall_mem_cons.mpr ⟨hstage.isIdText, hbefore⟩
        · refine .inr ⟨[], _, _, e, ?_, rfl, fun _ hl => (List.not_mem_nil hl).elim, hrefuses⟩
          simp only [parseAll, hparse]
      · rw [stageLines_cons_of_not_stage hkind]
        have hnone := parse?_of_not_stage hkind number
        rcases ih (number + 1) with ⟨stages, hrest, hstages⟩ | ⟨before, l, after, e, hrest, hothers⟩
        · refine .inl ⟨stages, ?_, hstages⟩
          simp only [parseAll, hnone, hrest, Option.toList_none, List.nil_append]
        · refine .inr ⟨before, l, after, e, ?_, hothers⟩
          simp only [parseAll, hnone, hrest]

end Stage

/-! ## Ids as chains -/

theorem IsIdCharacter.bounds {c : Char} (h : IsIdCharacter c) :
    0x2D ≤ c.toNat ∧ c.toNat ≤ 0x7A := by
  rcases h with ⟨hlow, hhigh⟩ | ⟨hlow, hhigh⟩ | ⟨hlow, hhigh⟩ | rfl | rfl | rfl
  · exact ⟨Nat.le_trans (by decide) hlow, Nat.le_trans hhigh (by decide)⟩
  · exact ⟨Nat.le_trans (by decide) hlow, Nat.le_trans hhigh (by decide)⟩
  · exact ⟨Nat.le_trans (by decide) hlow, Nat.le_trans hhigh (by decide)⟩
  · decide
  · decide
  · decide

/-- No character of an id is a blank. -/
theorem IsIdCharacter.isBlank_eq {c : Char} (h : IsIdCharacter c) : Text.isBlank c = false := by
  have hbounds := h.bounds
  unfold Text.isBlank Text.blankRanges
  simp
  omega

/-- An id by itself is a line with a stage, which has no parameters. -/
theorem Stage.parse?_of_isIdText {word : List Char} (h : IsIdText word) (number : Nat) :
    parse? number word = .ok (some ⟨String.ofList word, ∅, String.ofList word, number⟩) := by
  have hblank : ∀ c ∈ word, Text.isBlank c = false := fun c hc => (h.2 c hc).isBlank_eq
  have hword : firstWord word = word :=
    List.takeWhile_eq_self_iff.mpr fun c hc => by rw [hblank c hc]; rfl
  have hothers : otherWords word = [] := by
    unfold otherWords
    rw [List.dropWhile_eq_nil_iff.mpr fun c hc => by rw [hblank c hc]; rfl]
    rfl
  have hfind : word.find? (fun d => !isIdCharacter d) = none :=
    List.find?_eq_none.mpr fun c hc => by rw [isIdCharacter_iff.mpr (h.2 c hc)]; decide
  cases word with
  | nil => exact absurd rfl h.1
  | cons c rest =>
      have hcomment : c ≠ '#' := by
        rintro rfl
        have hbounds := (h.2 _ List.mem_cons_self).bounds
        revert hbounds
        decide
      rw [parse?_eq (Text.trim_of_forall hblank) hcomment, hword, hothers, hfind]
      rfl

namespace Chain

/-- An id by itself is a chain of one stage. -/
theorem parse_of_isIdText {id : String} (h : IsIdText id.toList) :
    ∃ chain, parse id = .ok chain ∧ chain.stages = [⟨id, ∅, id, 1⟩] := by
  have hlines : Text.lines id.toList = [id.toList] := by
    cases hchars : id.toList with
    | nil => exact absurd hchars h.1
    | cons c rest =>
        refine Text.lines_of_not_mem fun hmem => ?_
        rw [← hchars] at hmem
        have hbounds := (h.2 _ hmem).bounds
        revert hbounds
        decide
  have hstages : Stage.parseAll 1 [id.toList] = .ok [⟨id, ∅, id, 1⟩] := by
    rw [Stage.parseAll, Stage.parse?_of_isIdText h, String.ofList_toList]
    rfl
  refine ⟨⟨[⟨id, ∅, id, 1⟩], List.cons_ne_nil _ _⟩, ?_, rfl⟩
  unfold parse
  dsimp only
  rw [hlines, hstages]

/-- The three things that come of reading a text. -/
theorem parse_cases (text : String) :
    (∃ chain, parse text = .ok chain ∧
      List.Forall₂ Stage.WrittenBy chain.stages (stageLines 1 (Text.lines text.toList))) ∨
    (parse text = .error (.chainSyntax (max 1 (Text.lines text.toList).length) .withoutStages) ∧
      stageLines 1 (Text.lines text.toList) = []) ∨
    ∃ before l after e, parse text = .error e ∧
      stageLines 1 (Text.lines text.toList) = before ++ l :: after ∧
      (∀ l' ∈ before, IsIdText (firstWord l'.1)) ∧ Refuses l e := by
  rcases Stage.parseAll_cases 1 (Text.lines text.toList) with
    ⟨stages, hparse, hstages⟩ | ⟨before, l, after, e, hparse, hrefused⟩
  · cases stages with
    | nil =>
        refine .inr (.inl ⟨?_, List.forall₂_nil_left_iff.mp hstages⟩)
        simp only [parse, hparse]
    | cons stage stages =>
        refine .inl ⟨⟨stage :: stages, List.cons_ne_nil _ _⟩, ?_, hstages⟩
        simp only [parse, hparse]
  · refine .inr (.inr ⟨before, l, after, e, ?_, hrefused⟩)
    simp only [parse, hparse]

/-- A text is a chain exactly if it has lines with stages, and the first word of each is one that an
    id can be. The stages of the chain are then what these lines write, in their order. If a text is
    no chain, either it has no stages, or the error is about the first line that is not in order. -/
theorem parse_format (text : String) :
    ((∃ chain, parse text = .ok chain) ↔
      stageLines 1 (Text.lines text.toList) ≠ [] ∧
        ∀ l ∈ stageLines 1 (Text.lines text.toList), IsIdText (firstWord l.1)) ∧
    (∀ chain, parse text = .ok chain →
      List.Forall₂ Stage.WrittenBy chain.stages (stageLines 1 (Text.lines text.toList))) ∧
    (∀ e, parse text = .error e →
      (stageLines 1 (Text.lines text.toList) = [] ∧
        e = .chainSyntax (max 1 (Text.lines text.toList).length) .withoutStages) ∨
      ∃ before l after, stageLines 1 (Text.lines text.toList) = before ++ l :: after ∧
        (∀ l' ∈ before, IsIdText (firstWord l'.1)) ∧ Refuses l e) := by
  rcases parse_cases text with ⟨chain, hparse, hstages⟩ | ⟨hparse, hnone⟩ |
    ⟨before, l, after, e, hparse, hlines, hbefore, hrefuses⟩
  · -- The stages are there, so there are lines for them.
    refine ⟨⟨fun _ => ⟨fun hnone => ?_, isIdText_of_forall₂ hstages⟩, fun _ => ⟨chain, hparse⟩⟩,
      fun chain' h => ?_, fun e h => ?_⟩
    · rw [hnone] at hstages
      exact chain.nonempty (List.forall₂_nil_right_iff.mp hstages)
    · cases hparse.symm.trans h
      exact hstages
    · cases hparse.symm.trans h
  · refine ⟨⟨fun ⟨chain, h⟩ => ?_, fun h => absurd hnone h.1⟩, fun chain h => ?_, fun e h => ?_⟩
    · cases hparse.symm.trans h
    · cases hparse.symm.trans h
    · cases hparse.symm.trans h
      exact .inl ⟨hnone, rfl⟩
  · refine ⟨⟨fun ⟨chain, h⟩ => ?_, fun h => ?_⟩, fun chain h => ?_, fun e' h => ?_⟩
    · cases hparse.symm.trans h
    · -- The line that is refused is one of those that are in order.
      refine absurd (h.2 l ?_) hrefuses.not_isIdText
      rw [hlines]
      exact List.mem_append_right before (List.mem_cons_self ..)
    · cases hparse.symm.trans h
    · cases hparse.symm.trans h
      exact .inr ⟨before, l, after, hlines, hbefore, hrefuses⟩

end Chain

end PixelEffects
