import PixelEffects.Proofs.Script.Token.Bytes

/-!
# Where Tokens Are

The places of tokens in a source, their lines, and what is between them.

A scanner passes characters, and it counts the line feeds among them; where it does not count, there are
none. Skipping passes blanks and comments. So a source is a gap, a token, a gap, a token and so on, up
to a gap with nothing behind it, and the line at each place is known from the line feeds in front of
it. This is `Layout`, and the loop over the tokens builds it from the end of the source backwards. What
is said about places is read off a layout.

## Main definitions

* `Advances`: Characters that are passed, with the lines.
* `IsGap`: Blanks and comments.
* `Layout`: Tokens as they lie in a source.
* `WellPlaced`: Where the tokens of a source are, and in which lines.

## Theorems

* `advances_of_scanToken`: What a token passes.
* `skips_of_skipTrivia`: What is skipped.
* `readFrom_layout`: The loops by bytes and by characters agree, and there is a layout.
* `line_lt_of_lex`: How large the numbers of lines can be.
* `lex_wellPlaced`: The places and lines of all tokens of every source.
-/

namespace PixelEffects

open Text

namespace Script

variable {c : Char} {cs rest before : List Char}

/-! ## What tokens take -/

theorem newline_notMem_takeWhile {p : Char → Bool} (hp : p '\n' = false) (cs : List Char) :
    '\n' ∉ cs.takeWhile p := fun hmem => by
  rw [List.mem_takeWhile_imp hmem] at hp
  cases hp

/-- Characters are passed, and the line feeds among them are counted. -/
def Advances (cs : List Char) (line : Nat) (rest : List Char) (line' : Nat) : Prop :=
  ∃ text, cs = text ++ rest ∧ line' = line + text.count '\n'

theorem Advances.of_line (text : List Char) (hcs : text ++ rest = cs) (hline : '\n' ∉ text)
    (line : Nat) : Advances cs line rest line :=
  ⟨text, hcs.symm, by rw [List.count_eq_zero.mpr hline, Nat.add_zero]⟩

theorem advances_of_scanHex (mark : List Char) {value : Float} (hmark : '\n' ∉ mark) (line : Nat)
    (h : scanHex mark cs = .ok (value, rest)) : Advances (mark ++ cs) line rest line := by
  unfold scanHex at h
  dsimp only at h
  split at h
  · cases h
  · cases h
    refine .of_line (mark ++ cs.takeWhile isHexDigit) ?_ ?_ line
    · rw [List.append_assoc, List.takeWhile_append_dropWhile]
    · rw [List.mem_append]
      exact not_or.mpr ⟨hmark, newline_notMem_takeWhile (by decide) cs⟩

theorem newline_notMem_spanPoint (cs : List Char) : '\n' ∉ (spanPoint cs).1 := by
  fun_cases spanPoint cs with
  | case1 => exact List.not_mem_nil
  | case2 cs _ digits rest hdigits =>
      cases hdigits
      exact List.not_mem_cons_of_ne_of_not_mem (by decide) (newline_notMem_takeWhile (by decide) cs)
  | case3 => exact List.not_mem_nil

theorem newline_notMem_spanWrittenSign (cs : List Char) : '\n' ∉ (spanWrittenSign cs).1 := by
  fun_cases spanWrittenSign cs with
  | case1 => exact List.not_mem_cons_of_ne_of_not_mem (by decide) List.not_mem_nil
  | case2 => exact List.not_mem_cons_of_ne_of_not_mem (by decide) List.not_mem_nil
  | case3 => exact List.not_mem_nil

theorem newline_notMem_scanExponent {exponent : List Char}
    (h : scanExponent cs = .ok (exponent, rest)) : '\n' ∉ exponent := by
  unfold scanExponent at h
  split at h
  · cases h
    exact List.not_mem_nil
  next c cs =>
    split at h
    next hmark =>
      dsimp only at h
      split at h
      · cases h
      next digits rest' _ heq =>
        cases h
        cases heq
        have hsign : '\n' ∉ (spanWrittenSign cs).1 := newline_notMem_spanWrittenSign cs
        have hc : '\n' ≠ c := by
          rintro rfl
          exact absurd hmark (by decide)
        refine List.not_mem_cons_of_ne_of_not_mem hc ?_
        exact fun hmem => (List.mem_append.mp hmem).elim hsign (newline_notMem_takeWhile (by decide) _)
    · cases h
      exact List.not_mem_nil

theorem advances_of_scanDecimal {value : Float} (line : Nat)
    (h : scanDecimal cs = .ok (value, rest)) : Advances cs line rest line := by
  unfold scanDecimal at h
  dsimp only at h
  split at h
  · cases h
  next exponent rest' hexponent =>
    split at h
    · cases h
    · cases h
      refine .of_line _ (decimal_append hexponent) ?_ line
      simp only [List.mem_append]
      exact not_or.mpr ⟨not_or.mpr
        ⟨newline_notMem_takeWhile (by decide) cs, newline_notMem_spanPoint _⟩, newline_notMem_scanExponent hexponent⟩

theorem advances_of_scanNumber {value : Float} (line : Nat) (h : scanNumber cs = .ok (value, rest)) :
    Advances cs line rest line := by
  unfold scanNumber at h
  split at h
  · exact advances_of_scanHex ['0', 'x'] (by decide) line h
  · exact advances_of_scanHex ['0', 'X'] (by decide) line h
  · exact advances_of_scanDecimal line h

theorem Advances.cons (hc : c ≠ '\n') {line line' : Nat} (h : Advances cs line rest line') :
    Advances (c :: cs) line rest line' := by
  rcases h with ⟨text, rfl, rfl⟩
  exact ⟨c :: text, rfl, by rw [List.count_cons_of_ne hc]⟩

theorem advances_of_scanQuoted {quote : Char} {done : List Char} {value : String} (line : Nat)
    (h : scanQuoted quote done cs = .ok (value, rest)) :
    Advances cs line rest line := by
  fun_induction scanQuoted quote done cs with
  | case1 => cases h
  | case2 => cases h
  | case3 => cases h
  | case4 done letter cs c hescape ih =>
      refine .cons (by decide) (.cons ?_ (ih h))
      rintro rfl
      cases hescape
  | case5 => cases h
  | case6 done c cs hline _ _ hclose =>
      cases h
      exact .of_line [c] rfl (List.not_mem_cons_of_ne_of_not_mem (Ne.symm hline)
        List.not_mem_nil) line
  | case7 done c cs hline _ _ _ ih => exact .cons hline (ih h)

theorem advances_of_scanLong {done : List Char} {value : String} {line line' : Nat}
    (h : scanLong done line cs = .ok (value, line', rest)) : Advances cs line rest line' := by
  rcases scanLong_append h with ⟨body, rfl, _, rfl⟩
  refine ⟨body ++ [']', ']'], (List.append_assoc body [']', ']'] rest).symm, ?_⟩
  rw [List.count_append]
  rfl

theorem advances_of_scanLongBody {value : String} {line line' : Nat}
    (h : scanLongBody line cs = .ok (value, line', rest)) : Advances cs line rest line' := by
  unfold scanLongBody at h
  split at h
  next cs =>
    rcases advances_of_scanLong h with ⟨text, rfl, rfl⟩
    exact ⟨'\n' :: text, rfl, by rw [List.count_cons_self, Nat.add_assoc, Nat.add_comm 1]⟩
  · exact advances_of_scanLong h

theorem advances_of_scanMark {mark : Mark} (line : Nat) (h : scanMark cs = some (mark, rest)) :
    Advances cs line rest line := by
  unfold scanMark at h
  split at h
  case h_27 => cases h
  all_goals
    cases h
    first
    | exact .of_line [_] rfl (by decide) line
    | exact .of_line [_, _] rfl (by decide) line

/-- A token passes its characters, of which there is at least one. -/
theorem advances_of_scanToken {line : Nat} {s : Scanned} (h : scanToken line (c :: cs) = .ok s) :
    Advances (c :: cs) line s.rest s.line := by
  unfold scanToken at h
  split at h
  next heq => cases heq
  next heq =>
    cases heq
    split at h
    next =>
      split at h
      next hnumber =>
        cases h
        exact advances_of_scanNumber line hnumber
      next => cases h
    split at h
    next =>
      cases h
      exact .of_line _ List.takeWhile_append_dropWhile (newline_notMem_takeWhile (by decide) _) line
    split at h
    next hquote =>
      split at h
      next hquoted =>
        cases h
        refine .cons ?_ (advances_of_scanQuoted line hquoted)
        rintro rfl
        cases hquote
      next => cases h
    split at h
    next =>
      split at h
      next hlong =>
        cases h
        exact .cons (by decide) (.cons (by decide) (advances_of_scanLongBody hlong))
      next => cases h
    next =>
      split at h
      next hmark =>
        cases h
        exact advances_of_scanMark line hmark
      next => cases h

/-! ## What is between tokens -/

/-- Blanks and comments in front of what is left. A comment goes up to the end of its line, which may
    be the end of the source, or up to the first closing brackets if it starts with opening ones. -/
inductive IsGap : List Char → List Char → Prop
  | nil {left : List Char} : IsGap [] left
  | blank {c : Char} {gap left : List Char} (hc : isSpace c = true) (h : IsGap gap left) :
      IsGap (c :: gap) left
  | comment {body gap left : List Char} (hshort : ¬ ['[', '['] <+: body) (hline : '\n' ∉ body)
      (hends : gap.head? = some '\n' ∨ (gap = [] ∧ left = [])) (h : IsGap gap left) :
      IsGap ('-' :: '-' :: (body ++ gap)) left
  | longComment {body gap left : List Char} (hfirst : ¬ [']', ']'] <:+: body ++ [']'])
      (h : IsGap gap left) : IsGap ('-' :: '-' :: '[' :: '[' :: (body ++ ']' :: ']' :: gap)) left

/-- What is skipped, from the front of a gap or from inside of a comment. -/
def Skips : Trivia → List Char → List Char → Prop
  | .blanks, text, left => IsGap text left
  | .comment, text, left => ∃ body gap, text = body ++ gap ∧ '\n' ∉ body ∧
      (gap.head? = some '\n' ∨ (gap = [] ∧ left = [])) ∧ IsGap gap left
  | .longComment, text, left => ∃ body gap, text = body ++ ']' :: ']' :: gap ∧
      ¬ [']', ']'] <:+: body ++ [']'] ∧ IsGap gap left

theorem skips_of_skipTrivia {trivia : Trivia} {line line' : Nat}
    (h : skipTrivia trivia line cs = .ok (line', rest)) :
    ∃ text, cs = text ++ rest ∧ Skips trivia text rest ∧ line' = line + text.count '\n' := by
  fun_induction skipTrivia trivia line cs with
  | case1 => cases h
  | case2 line cs ih =>
      rcases ih h with ⟨gap, rfl, hgap, rfl⟩
      exact ⟨']' :: ']' :: gap, rfl, ⟨[], gap, rfl, by decide, hgap⟩, rfl⟩
  | case3 line c cs hopen ih =>
      rcases ih h with ⟨_, rfl, ⟨body, gap, rfl, hfirst, hgap⟩, rfl⟩
      refine ⟨c :: (body ++ ']' :: ']' :: gap), rfl, ⟨c :: body, gap, rfl, ?_, hgap⟩, ?_⟩
      · rw [List.cons_append, List.infix_cons_iff, List.cons_prefix_cons]
        rintro (⟨rfl, hclose⟩ | hinside)
        · -- Then the comment would have been closed here.
          rcases body with _ | ⟨d, body⟩
          · exact hopen _ rfl rfl
          · rw [List.cons_append, List.cons_prefix_cons] at hclose
            rcases hclose with ⟨rfl, _⟩
            exact hopen _ rfl rfl
        · exact hfirst hinside
      · rw [lineAfter_eq, Nat.add_assoc, ← List.count_append, List.singleton_append]
  | case4 line cs ih =>
      rcases ih h with ⟨gap, rfl, hgap, rfl⟩
      refine ⟨'\n' :: gap, rfl, ⟨[], '\n' :: gap, rfl, List.not_mem_nil, .inl rfl,
        .blank (by decide) hgap⟩, ?_⟩
      rw [List.count_cons_self, Nat.add_assoc, Nat.add_comm 1]
  | case5 line c cs hline ih =>
      rcases ih h with ⟨_, rfl, ⟨body, gap, rfl, hbody, hends, hgap⟩, rfl⟩
      refine ⟨c :: (body ++ gap), rfl, ⟨c :: body, gap, rfl,
        List.not_mem_cons_of_ne_of_not_mem (Ne.symm hline) hbody, hends, hgap⟩, ?_⟩
      rw [List.count_cons_of_ne hline]
  | case6 line cs ih =>
      rcases ih h with ⟨_, rfl, ⟨body, gap, rfl, hfirst, hgap⟩, rfl⟩
      exact ⟨_, rfl, .longComment hfirst hgap, rfl⟩
  | case7 line cs hshort ih =>
      rcases ih h with ⟨_, rfl, ⟨body, gap, rfl, hbody, hends, hgap⟩, rfl⟩
      refine ⟨_, rfl, .comment ?_ hbody hends hgap, rfl⟩
      rintro ⟨body', rfl⟩
      exact hshort _ rfl
  | case8 line c cs _ _ hspace ih =>
      rcases ih h with ⟨gap, rfl, hgap, rfl⟩
      refine ⟨c :: gap, rfl, .blank hspace hgap, ?_⟩
      rw [lineAfter_eq, Nat.add_assoc, ← List.count_append, List.singleton_append]
  | case9 =>
      cases h
      exact ⟨[], rfl, .nil, rfl⟩
  | case10 trivia line hother =>
      cases h
      cases trivia with
      | blanks => exact ⟨[], rfl, .nil, rfl⟩
      | comment => exact ⟨[], rfl, ⟨[], [], rfl, List.not_mem_nil, .inr ⟨rfl, rfl⟩, .nil⟩, rfl⟩
      | longComment => exact absurd rfl hother

/-! ## Places of tokens -/

/-- Tokens as they lie in a source, from a place between two characters on: a gap, a token and what
    follows, or a gap and the end. -/
inductive Layout : List Char → List Char → List Placed → Prop
  | last {before gap : List Char} (hgap : IsGap gap []) :
      Layout before gap [⟨.endOfSource, 1 + (before ++ gap).count '\n',
        (letters (before ++ gap)).length, (letters (before ++ gap)).length⟩]
  | token {before gap text left : List Char} {t : Token} {ts : List Placed}
      (hgap : IsGap gap (text ++ left)) (hsome : text ≠ []) (ht : t ≠ .endOfSource)
      (h : Layout (before ++ gap ++ text) left ts) :
      Layout before (gap ++ (text ++ left)) (⟨t, 1 + (before ++ gap).count '\n',
        (letters (before ++ gap)).length, (letters (before ++ gap ++ text)).length⟩ :: ts)

section Layout

variable {source : String}

open Bytes

/-- What a token leaves is behind its characters, and in the line that these lead to. -/
theorem token_places {line : Nat} {s : Scanned} (hsource : source.toList = before ++ c :: cs)
    (hline : line = 1 + before.count '\n') (h : scanToken line (c :: cs) = .ok s) :
    ∃ text, c :: cs = text ++ s.rest ∧ text ≠ [] ∧ s.token ≠ .endOfSource ∧
      s.line = 1 + (before ++ text).count '\n' ∧
      source.toList = before ++ text ++ s.rest := by
  rcases advances_of_scanToken h with ⟨text, htext, hafter⟩
  rcases scanToken_progress h with ⟨hrest, htoken⟩
  refine ⟨text, htext, ?_, htoken, ?_, ?_⟩
  · rintro rfl
    have hle := hrest.length_le
    rw [← (show c :: cs = s.rest from htext), List.length_cons] at hle
    exact absurd hle (Nat.not_succ_le_self _)
  · rw [hafter, hline, List.count_append, Nat.add_assoc]
  · rw [hsource, htext, List.append_assoc]

section Rounds

variable {n line line' : Nat} {e : SyntaxError}

theorem lexFrom_of_error (done : List Lexeme) (hskip : skipTrivia .blanks line cs = .error e) :
    lexFrom (n + 1) done line cs = .error e := by
  unfold lexFrom
  rw [hskip]

theorem lexFrom_of_end (done : List Lexeme) (hskip : skipTrivia .blanks line cs = .ok (line', [])) :
    lexFrom (n + 1) done line cs = .ok (done.reverse ++ [⟨.endOfSource, line'⟩]) := by
  unfold lexFrom
  rw [hskip, ← List.reverse_cons]

theorem lexFrom_of_token_error (done : List Lexeme)
    (hskip : skipTrivia .blanks line cs = .ok (line', c :: rest))
    (hscan : scanToken line' (c :: rest) = .error e) : lexFrom (n + 1) done line cs = .error e := by
  unfold lexFrom
  rw [hskip]
  dsimp only
  rw [hscan]

theorem lexFrom_of_token {s : Scanned} (done : List Lexeme)
    (hskip : skipTrivia .blanks line cs = .ok (line', c :: rest))
    (hscan : scanToken line' (c :: rest) = .ok s) :
    lexFrom (n + 1) done line cs = lexFrom n (⟨s.token, line'⟩ :: done) s.line s.rest := by
  rw [lexFrom, hskip]
  dsimp only
  rw [hscan]

theorem readFrom_of_error (done : List Placed) (hskip : skipTrivia .blanks line cs = .error e) :
    readFrom source (n + 1) done line (letters cs) = .error (.fault e) := by
  unfold readFrom
  rw [skipTrivia_letters, hskip]
  rfl

theorem readFrom_of_end (done : List Placed)
    (hskip : skipTrivia .blanks line cs = .ok (line', [])) (hsource : source.toList = before) :
    readFrom source (n + 1) done line (letters cs) = .ok (done.reverse ++
      [⟨.endOfSource, line', (letters before).length, (letters before).length⟩]) := by
  have hsize : source.utf8ByteSize = (letters before).length := by
    rw [length_letters, ← hsource, String.ofList_toList]
  unfold readFrom
  rw [skipTrivia_letters, hskip, Except.map, letters_nil, hsize, ← List.reverse_cons]

theorem readFrom_of_token_error (done : List Placed)
    (hskip : skipTrivia .blanks line cs = .ok (line', c :: rest))
    (hsource : source.toList = before ++ c :: rest)
    (hscan : scanToken line' (c :: rest) = .error e) :
    readFrom source (n + 1) done line (letters cs) = .error (.fault e) := by
  rcases letters_front_byte c rest with ⟨ls, hls, _⟩
  have htoken := readToken_letters line' hsource
  rw [hls, hscan] at htoken
  rw [readFrom, skipTrivia_letters, hskip, Except.map]
  dsimp only
  rw [hls]
  dsimp only
  rw [htoken]
  rfl

theorem readFrom_of_token {s : Scanned} (done : List Placed)
    (hskip : skipTrivia .blanks line cs = .ok (line', c :: rest))
    (hsource : source.toList = before ++ c :: rest)
    (hscan : scanToken line' (c :: rest) = .ok s) :
    readFrom source (n + 1) done line (letters cs) =
      readFrom source n (⟨s.token, line', (letters before).length,
        offset source (letters s.rest)⟩ :: done) s.line (letters s.rest) := by
  rcases letters_front_byte c rest with ⟨ls, hls, _⟩
  have htoken := readToken_letters line' hsource
  have hoffset := offset_letters hsource
  rw [hls, hscan] at htoken
  rw [hls] at hoffset
  rw [readFrom, skipTrivia_letters, hskip, Except.map]
  dsimp only
  rw [hls]
  dsimp only
  rw [htoken, hoffset]
  rfl

end Rounds

/-- The loop over the tokens ends in the same way for bytes and for characters, as long as there are
    more rounds than characters. -/
theorem readFrom_layout {n m : Nat} (hn : cs.length < n) (hm : cs.length < m) (done : List Placed)
    (hsource : source.toList = before ++ cs) {line : Nat} (hline : line = 1 + before.count '\n') :
    (∃ e, lexFrom n (done.map Placed.lexeme) line cs = .error e ∧
      readFrom source m done line (letters cs) = .error (.fault e)) ∨
    ∃ ts, Layout before cs ts ∧ readFrom source m done line (letters cs) = .ok (done.reverse ++ ts) ∧
      lexFrom n (done.map Placed.lexeme) line cs =
        .ok ((done.reverse ++ ts).map Placed.lexeme) := by
  -- By induction on the rounds. What was read and what is in front of a place grow with them.
  induction n generalizing m cs before done line with
  | zero => exact absurd hn (Nat.not_lt_zero _)
  | succ n ih =>
      rcases m with _ | m
      · exact absurd hm (Nat.not_lt_zero _)
      cases hskip : skipTrivia .blanks line cs with
      | error e => exact .inl ⟨e, lexFrom_of_error _ hskip, readFrom_of_error done hskip⟩
      | ok skipped =>
          rcases skipped with ⟨line', rest⟩
          have hskipped := skips_of_skipTrivia hskip
          rcases hskipped with ⟨gap, rfl, hgap, rfl⟩
          have hafter : source.toList = before ++ gap ++ rest := by
            rw [hsource, List.append_assoc]
          have hline' : line + gap.count '\n' = 1 + (before ++ gap).count '\n' := by
            rw [hline, List.count_append, Nat.add_assoc]
          rw [hline'] at hskip
          cases rest with
          | nil =>
              -- Nothing is left, and the gap is the last one.
              have hend : source.toList = before ++ gap := hafter.trans (List.append_nil _)
              refine .inr ⟨_, ?_, readFrom_of_end done hskip hend, ?_⟩
              · rw [List.append_nil]
                exact .last hgap
              · rw [lexFrom_of_end _ hskip, List.map_append, List.map_reverse]
                rfl
          | cons c rest =>
              cases hscan : scanToken (1 + (before ++ gap).count '\n') (c :: rest) with
              | error e =>
                  exact .inl ⟨e, lexFrom_of_token_error _ hskip hscan,
                    readFrom_of_token_error done hskip hafter hscan⟩
              | ok s =>
                  -- The next rounds start behind the token, with fewer characters.
                  rw [lexFrom_of_token _ hskip hscan, readFrom_of_token done hskip hafter hscan]
                  rcases token_places hafter rfl hscan with
                    ⟨text, htext, hsome, hkind, hnext, hleft⟩
                  have hlength := congrArg List.length htext
                  have hpositive := List.length_pos_iff.mpr hsome
                  rw [List.length_append] at hn hm hlength
                  rw [offset_letters hleft]
                  rcases ih (m := m) (by omega) (by omega)
                    (⟨s.token, 1 + (before ++ gap).count '\n', (letters (before ++ gap)).length,
                      (letters (before ++ gap ++ text)).length⟩ :: done) hleft hnext with
                    ⟨e, hlex, hread⟩ | ⟨ts, hlayout, hread, hlex⟩
                  · exact .inl ⟨e, hlex, hread⟩
                  · rw [List.reverse_cons, List.append_assoc done.reverse] at hread hlex
                    refine .inr ⟨_, ?_, hread, hlex⟩
                    rw [htext] at hgap ⊢
                    exact .token hgap hsome hkind hlayout

/-! ## What the places say -/

/-- The parts of a source in front of each token, from a place on. -/
def gaps : Nat → List Placed → List (Nat × Nat)
  | _, [] => []
  | place, t :: ts => (place, t.start) :: gaps t.stop ts

/-- Where the tokens of a source are, and in which lines: the end of the source is the last one and no
    other, and the others have at least one byte; they begin and end between two characters, in order
    and without a byte in common; all that is in front of each is a gap; and line feeds, of which the
    byte is 10, are counted up to their first bytes. -/
structure WellPlaced (source : String) (ts : List Placed) : Prop where
  ends : ∃ us line, ts = us ++ [⟨.endOfSource, line, source.utf8ByteSize, source.utf8ByteSize⟩] ∧
    ∀ u ∈ us, u.token ≠ .endOfSource ∧ u.start < u.stop
  between : ∀ t ∈ ts, t.start ≤ t.stop ∧ String.Pos.Raw.IsValid source ⟨t.start⟩ ∧
    String.Pos.Raw.IsValid source ⟨t.stop⟩
  ordered : ts.Pairwise fun t u => t.stop ≤ u.start
  apart : ∀ gap ∈ gaps 0 ts, ∃ text left, cutOut source gap.1 gap.2 = .ok text ∧
    cutOut source gap.2 source.utf8ByteSize = .ok left ∧ IsGap text.toList left.toList
  line : ∀ t ∈ ts, t.line = 1 + (source.toByteArray.data.toList.take t.start).count 10

namespace Layout

variable {left : List Char} {ts : List Placed}

theorem ends (h : Layout before left ts) (hsource : source.toList = before ++ left) :
    ∃ us line, ts = us ++ [⟨.endOfSource, line, source.utf8ByteSize, source.utf8ByteSize⟩] ∧
      ∀ u ∈ us, u.token ≠ .endOfSource ∧ u.start < u.stop := by
  induction h with
  | last hgap =>
      rw [size_eq hsource]
      exact ⟨[], _, rfl, fun _ hu => absurd hu List.not_mem_nil⟩
  | token hgap hsome ht h ih =>
      rename_i before gap text left t ts
      rcases ih (by rw [hsource, List.append_assoc, List.append_assoc]) with ⟨us, line, rfl, hus⟩
      refine ⟨_ :: us, line, rfl, List.forall_mem_cons.mpr ⟨⟨ht, ?_⟩, hus⟩⟩
      have hpositive : 0 < (letters text).length :=
        List.length_pos_iff.mpr fun hnil => hsome (letters_eq_nil hnil)
      dsimp only
      rw [letters_append (before ++ gap), List.length_append]
      omega

theorem between (h : Layout before left ts) (hsource : source.toList = before ++ left) :
    ∀ t ∈ ts, (letters before).length ≤ t.start ∧ t.start ≤ t.stop ∧
      String.Pos.Raw.IsValid source ⟨t.start⟩ ∧ String.Pos.Raw.IsValid source ⟨t.stop⟩ := by
  have hle (cs cs' : List Char) : (letters cs).length ≤ (letters (cs ++ cs')).length := by
    rw [letters_append, List.length_append]
    exact Nat.le_add_right _ _
  induction h with
  | last hgap =>
      rename_i before gap
      have hvalid := isValid_of_append (hsource.trans (List.append_nil _).symm)
      intro t ht
      rw [List.mem_singleton.mp ht]
      exact ⟨hle before gap, Nat.le_refl _, hvalid, hvalid⟩
  | token hgap hsome ht h ih =>
      rename_i before gap text left t ts
      rw [← List.append_assoc] at hsource
      have hnext := hsource.trans (List.append_assoc (before ++ gap) text left).symm
      refine List.forall_mem_cons.mpr ⟨⟨hle before gap, hle (before ++ gap) text,
        isValid_of_append hsource, isValid_of_append hnext⟩, fun t ht => ?_⟩
      rcases ih hnext t ht with ⟨hbefore, hrest⟩
      exact ⟨(hle before gap).trans ((hle (before ++ gap) text).trans hbefore), hrest⟩

theorem ordered (h : Layout before left ts) (hsource : source.toList = before ++ left) :
    ts.Pairwise fun t u => t.stop ≤ u.start := by
  induction h with
  | last hgap => exact List.pairwise_singleton _ _
  | token hgap hsome ht h ih =>
      have hnext : source.toList = _ :=
        hsource.trans (by rw [← List.append_assoc, ← List.append_assoc])
      exact List.pairwise_cons.mpr ⟨fun u hu => (h.between hnext u hu).1, ih hnext⟩

theorem apart (h : Layout before left ts) (hsource : source.toList = before ++ left) :
    ∀ gap ∈ gaps (letters before).length ts, ∃ text left, cutOut source gap.1 gap.2 = .ok text ∧
      cutOut source gap.2 source.utf8ByteSize = .ok left ∧ IsGap text.toList left.toList := by
  have hfront {before gap left : List Char} (hgap : IsGap gap left)
      (hsource : source.toList = before ++ gap ++ left) : ∃ text left,
        cutOut source (letters before).length (letters (before ++ gap)).length = .ok text ∧
          cutOut source (letters (before ++ gap)).length source.utf8ByteSize = .ok left ∧
            IsGap text.toList left.toList := by
    refine ⟨_, _, cutOut_of_append hsource, cutOut_rest hsource, ?_⟩
    rw [String.toList_ofList, String.toList_ofList]
    exact hgap
  induction h with
  | last hgap =>
      intro gap hmem
      rw [List.mem_singleton.mp hmem]
      exact hfront hgap (hsource.trans (List.append_nil _).symm)
  | token hgap hsome ht h ih =>
      rw [← List.append_assoc] at hsource
      exact List.forall_mem_cons.mpr ⟨hfront hgap hsource,
        ih (hsource.trans (List.append_assoc _ _ _).symm)⟩

theorem line (h : Layout before left ts) (hsource : source.toList = before ++ left) :
    ∀ t ∈ ts, t.line = 1 + (source.toByteArray.data.toList.take t.start).count 10 := by
  induction h with
  | last hgap =>
      intro t ht
      rw [List.mem_singleton.mp ht, count_take_of_append (hsource.trans (List.append_nil _).symm)]
  | token hgap hsome ht h ih =>
      rw [← List.append_assoc] at hsource
      refine List.forall_mem_cons.mpr ⟨?_, ih (hsource.trans (List.append_assoc _ _ _).symm)⟩
      rw [count_take_of_append hsource]

theorem wellPlaced (h : Layout [] source.toList ts) : WellPlaced source ts where
  ends := h.ends rfl
  between t ht := (h.between rfl t ht).2
  ordered := h.ordered rfl
  apart := h.apart rfl
  line := h.line rfl

end Layout

/-- Reading by bytes and by characters ends with the same error, or with tokens as they lie in the
    source. -/
theorem read_layout (source : String) :
    (∃ e, lex source = .error e ∧ Bytes.read source = .error (.fault e)) ∨
      ∃ ts, Layout [] source.toList ts ∧ Bytes.read source = .ok ts ∧
        lex source = .ok (ts.map Placed.lexeme) := by
  have hread : Bytes.read source =
      readFrom source ((letters source.toList).length + 1) [] 1 (letters source.toList) := by
    rw [letters_toList]
    rfl
  rw [hread]
  exact readFrom_layout (Nat.lt_succ_self _)
    (Nat.lt_succ_of_le (length_le_letters source.toList)) [] (List.nil_append source.toList).symm
    (show 1 = 1 + ([] : List Char).count '\n' from rfl)

/-- The number of a line fits in 32 bits if fewer line feeds than that are in the source. -/
theorem line_lt_of_lex {source : String} {ts : List Lexeme} (h : lex source = .ok ts)
    (hfeeds : source.toByteArray.data.toList.count 10 + 1 < UInt32.size) :
    ∀ t ∈ ts, t.line < UInt32.size := by
  rcases read_layout source with ⟨e, hlex, _⟩ | ⟨places, hlayout, _, hlex⟩
  · rw [hlex] at h
    cases h
  · rw [hlex] at h
    cases h
    intro t ht
    rcases List.mem_map.mp ht with ⟨p, hp, rfl⟩
    have hline : p.line = 1 + (source.toByteArray.data.toList.take p.start).count 10 :=
      hlayout.line rfl p hp
    have hfewer : (source.toByteArray.data.toList.take p.start).count 10 ≤
        source.toByteArray.data.toList.count 10 :=
      (List.take_sublist _ _).count_le 10
    show p.line < UInt32.size
    omega

/-- For every source, reading its tokens by their bytes ends with an error of the source or with
    tokens, and it never stops because of a part that does not begin and end between two characters. The
    error and the tokens are those of reading characters. The end of the source is the last token and
    only the last; the tokens do not overlap and are in order, there are only blanks and comments
    between them, and the line of each is one more than the line feeds in front of its first byte. -/
theorem lex_wellPlaced (source : String) :
    (∃ e, lex source = .error e ∧ Bytes.read source = .error (.fault e)) ∨
      ∃ ts, Bytes.read source = .ok ts ∧ lex source = .ok (ts.map Placed.lexeme) ∧
        WellPlaced source ts := by
  rcases read_layout source with hfault | ⟨ts, hlayout, hread, hlex⟩
  · exact .inl hfault
  · exact .inr ⟨ts, hread, hlex, hlayout.wellPlaced⟩

/-- The comment has a character of two bytes and a line feed, and there is one behind the first name. -/
example : (Bytes.read "a\r\n--[[é\n]] b").toOption.map (·.map fun t => (t.line, t.start, t.stop)) =
    some [(1, 0, 1), (3, 13, 14), (3, 14, 14)] := by
  decide +kernel

end Layout

end Script

end PixelEffects
