import PixelEffects.Proofs.Text.Growth
import PixelEffects.Script.Library

/-!
# The Lengths of Texts That Are Built

Which operations on texts keep to the longest length, and what the others may exceed it by.

Joining and repeating check first. They are described exactly here: each gives the text that it is
meant to give if that is not too long, and is refused if it is. For `concat` this takes an argument,
since it looks at the lengths one piece at a time, and stops at the first one that is too much.

A part of a text and a text in another case are not checked at all. A format is checked after each
conversion, but not after the characters that stand between conversions, so what stands behind the
last one may come on top.

## Theorems

* `joined?_eq`, `Texts.repeated?_eq`, `Library.joinFrom_eq`: The operations that check.
* `Texts.utf8ByteSize_sub_le`, `Texts.utf8ByteSize_format?_le`: What is known of the others.
* `Texts.format?_of_plain`: A format without conversions is the result.
-/

namespace PixelEffects

namespace Script

/-! ## Joining -/

/-- Two texts or numbers are joined if the result is not too long. -/
theorem joined?_eq {l r : Value} {a b : String} (hl : l.joinable? = some a)
    (hr : r.joinable? = some b) :
    joined? l r = if (a ++ b).utf8ByteSize ≤ maxTextLength then .ok (.text (a ++ b))
      else .error .textTooLong := by
  unfold joined?
  rw [hl, hr, String.utf8ByteSize_append]
  dsimp only
  by_cases hfits : a.utf8ByteSize + b.utf8ByteSize ≤ maxTextLength
  · rw [if_pos hfits, if_neg (Nat.not_lt_of_le hfits)]
  · rw [if_neg hfits, if_pos (Nat.lt_of_not_le hfits)]

/-- The pieces from position `i` on, each with the separator in front unless it is the first. -/
def piecesFrom (separator : String) (i : Nat) (pieces : List String) : String :=
  if i > 1 then String.join (pieces.map (separator ++ ·)) else separator.intercalate pieces

theorem piecesFrom_cons (separator : String) (i : Nat) (piece : String) (pieces : List String) :
    piecesFrom separator i (piece :: pieces) =
      (if i > 1 then separator ++ piece else piece) ++
        String.join (pieces.map (separator ++ ·)) := by
  have hfirst : ∀ (piece : String) (pieces : List String),
      separator.intercalate (piece :: pieces) =
        piece ++ String.join (pieces.map (separator ++ ·)) := by
    intro piece pieces
    induction pieces generalizing piece with
    | nil => rw [String.intercalate_singleton, List.map_nil, String.join_nil, String.append_empty]
    | cons next pieces ih =>
        rw [String.intercalate_cons_cons, ih, List.map_cons, String.join_cons,
          String.append_assoc, String.append_assoc]
  unfold piecesFrom
  split
  · rw [List.map_cons, String.join_cons]
  · exact hfirst piece pieces

namespace Library

/-- Looking at the lengths one piece at a time comes to the same as looking at the whole. -/
theorem joinFrom_eq_of_built {separator : String} {i : Nat} (hi : 0 < i) {built : String}
    (hbuilt : built.utf8ByteSize ≤ maxTextLength) {vs : List Value} {pieces : List String}
    (hpieces : vs.map Value.joinable? = pieces.map some) :
    joinFrom separator i built vs =
      if (built ++ piecesFrom separator i pieces).utf8ByteSize ≤ maxTextLength then
        .ok (built ++ piecesFrom separator i pieces)
      else .error .textTooLong := by
  induction vs generalizing i built pieces with
  | nil =>
      cases pieces with
      | cons piece pieces => cases hpieces
      | nil =>
          have hempty : piecesFrom separator i [] = "" := by
            unfold piecesFrom
            split <;> rfl
          rw [hempty, String.append_empty, if_pos hbuilt, joinFrom]
  | cons v vs ih =>
      cases pieces with
      | nil => cases hpieces
      | cons piece pieces =>
          simp only [List.map_cons, List.cons.injEq] at hpieces
          rw [joinFrom, hpieces.1, piecesFrom_cons]
          dsimp only
          generalize (if i > 1 then separator ++ piece else piece) = next
          have hrest : piecesFrom separator (i + 1) pieces =
              String.join (pieces.map (separator ++ ·)) := by
            unfold piecesFrom
            rw [if_pos (by omega)]
          by_cases hfits : built.utf8ByteSize + next.utf8ByteSize ≤ maxTextLength
          · have hnext : (built ++ next).utf8ByteSize ≤ maxTextLength := by
              rw [String.utf8ByteSize_append]
              exact hfits
            rw [if_neg (Nat.not_lt_of_le hfits), ih (by omega) hnext hpieces.2, hrest,
              String.append_assoc]
          · -- What comes behind a piece that is too much does not make it less.
            rw [if_pos (Nat.lt_of_not_le hfits), if_neg]
            simp only [String.utf8ByteSize_append]
            omega

/-- All pieces are joined if the result is not too long. -/
theorem joinFrom_eq {separator : String} {vs : List Value} {pieces : List String}
    (hpieces : vs.map Value.joinable? = pieces.map some) :
    joinFrom separator 1 "" vs =
      if (separator.intercalate pieces).utf8ByteSize ≤ maxTextLength then
        .ok (separator.intercalate pieces)
      else .error .textTooLong := by
  have hempty : "".utf8ByteSize ≤ maxTextLength := Nat.zero_le maxTextLength
  have hjoin : joinFrom separator 1 "" vs = _ := joinFrom_eq_of_built Nat.one_pos hempty hpieces
  rw [String.empty_append] at hjoin
  exact hjoin

end Library

namespace Texts

open Text

/-! ## Repeating -/

theorem repeatOnto_eq (s : String) (n : Nat) (built : String) :
    repeatOnto s n built = built ++ String.join (List.replicate n s) := by
  induction n generalizing built with
  | zero => rw [repeatOnto, List.replicate_zero, String.join_nil, String.append_empty]
  | succ n ih =>
      rw [repeatOnto, ih, List.replicate_succ, String.join_cons, String.append_assoc]

theorem utf8ByteSize_join_replicate (s : String) (n : Nat) :
    (String.join (List.replicate n s)).utf8ByteSize = s.utf8ByteSize * n := by
  induction n with
  | zero => rfl
  | succ n ih =>
      rw [List.replicate_succ, String.join_cons, String.utf8ByteSize_append, ih, Nat.mul_succ]
      exact Nat.add_comm _ _

/-- A text is repeated if the result is not too long. -/
theorem repeated?_eq (s : String) (n : Nat) :
    repeated? s n =
      if (String.join (List.replicate n s)).utf8ByteSize ≤ maxTextLength then
        .ok (String.join (List.replicate n s))
      else .error .resultTooLarge := by
  unfold repeated?
  split
  · next hempty =>
      -- An empty text is not looked at for its length, and repeated it is still empty.
      have hs : s = "" := by
        rw [String.isEmpty_iff] at hempty
        exact hempty
      have hnone : String.join (List.replicate n "") = "" := by
        rw [← String.utf8ByteSize_eq_zero_iff, utf8ByteSize_join_replicate]
        exact Nat.zero_mul n
      have hempty : "".utf8ByteSize ≤ maxTextLength := Nat.zero_le maxTextLength
      rw [hs, hnone, if_pos hempty]
  · rw [utf8ByteSize_join_replicate, repeatOnto_eq, String.empty_append]
    by_cases hfits : s.utf8ByteSize * n ≤ maxTextLength
    · rw [if_pos hfits, if_neg (Nat.not_lt_of_le hfits)]
    · rw [if_neg hfits, if_pos (Nat.lt_of_not_le hfits)]

/-! ## Parts -/

/-- A part of a text is empty or was cut out of it. -/
theorem sub_cases (s : String) (i : Float) (j : Option Float) :
    sub s i j = "" ∨ ∃ first last, sub s i j = Utf8.slice s first last := by
  have hsub : ∀ first last : Int,
      (if first > last then "" else Utf8.slice s (first - 1).toNat last.toNat) = "" ∨
        ∃ start stop, (if first > last then "" else Utf8.slice s (first - 1).toNat last.toNat) =
          Utf8.slice s start stop := by
    intro first last
    split
    · exact .inl rfl
    · exact .inr ⟨_, _, rfl⟩
  exact hsub _ _

theorem utf8ByteSize_sub_le (s : String) (i : Float) (j : Option Float) :
    (sub s i j).utf8ByteSize ≤ 3 * s.utf8ByteSize := by
  rcases sub_cases s i j with hnone | ⟨first, last, hslice⟩
  · rw [hnone]
    exact Nat.zero_le _
  · rw [hslice]
    exact Utf8.utf8ByteSize_slice_le s first last

/-! ## Formats -/

/-- A text that is passed is an argument, or the text of one that is a number. -/
theorem text?_cases {b : Builtin} {args : List Value} {i : Nat} {s : String}
    (h : Argument.text? b args i = .ok s) :
    .text s ∈ args ∨ ∃ x, s = Numeral.scriptText x := by
  unfold Argument.text? at h
  split at h
  · next t harg =>
      cases h
      exact .inl (List.mem_of_getElem? harg)
  · next x harg =>
      cases h
      exact .inr ⟨x, rfl⟩
  · cases h
  · cases h

/-- How many bytes an element of a format puts out by itself. -/
def Directive.printed : Directive → Nat
  | .literal c => c.utf8Size
  | .percent => 1
  | .convert _ _ => 0

theorem isSuffix_of_precision? {cs rest : List Char} {precision : Option Nat}
    (h : precision? cs = .ok (precision, rest)) : rest <:+ cs := by
  unfold precision? at h
  split at h
  · dsimp only [Numeral.spanDigits] at h
    split at h
    · cases h
    · cases h
      exact (List.dropWhile_suffix _).trans (List.suffix_cons _ _)
  · cases h
    exact List.suffix_refl _

/-- An element of a format puts out no more than it takes up. -/
theorem byteCount_of_directive? {c : Char} {cs rest : List Char} {d : Directive}
    (h : directive? c cs = .ok (d, rest)) :
    byteCount rest + d.printed ≤ byteCount (c :: cs) := by
  have hmono : ∀ {ds es : List Char}, ds <:+ es → byteCount ds ≤ byteCount es := by
    rintro ds es ⟨before, rfl⟩
    rw [byteCount_append]
    exact Nat.le_add_left _ _
  unfold directive? at h
  split at h
  · next hpercent =>
      -- The percent sign and the letter behind it pay for the one character that may be put out.
      have hone : c.utf8Size = 1 := by
        rw [beq_iff_eq.mp hpercent]
        decide
      unfold marked? at h
      cases hprecision : precision? cs with
      | error e =>
          rw [hprecision] at h
          cases h
      | ok found =>
          rcases found with ⟨precision, behind⟩
          have hbehind := hmono (isSuffix_of_precision? hprecision)
          rw [hprecision] at h
          rw [byteCount_cons]
          cases behind with
          | nil => cases h
          | cons letter behind =>
              have hrest : rest = behind ∧ d.printed ≤ 1 := by
                simp only [bind, Except.bind] at h
                split at h
                · cases h
                  exact ⟨rfl, Nat.le_refl 1⟩
                · split at h
                  · cases h
                    exact ⟨rfl, Nat.zero_le 1⟩
                  · cases h
              rw [hrest.1]
              rw [byteCount_cons] at hbehind
              omega
  · cases h
    rw [byteCount_cons]
    exact Nat.le_of_eq (Nat.add_comm _ _)

/-- After a conversion the result so far is not too long, and what stands between conversions is no
    longer than the format. -/
theorem utf8ByteSize_formatFrom?_le {address : Addressing} {args : List Value} {bound : Nat}
    {built : String} {i : Nat} {cs : List Char} {r : String}
    (h : formatFrom? address args bound built i cs = .ok r) :
    r.utf8ByteSize ≤ max built.utf8ByteSize maxTextLength + byteCount cs := by
  -- The induction is on the bound. What is not read of the format yet stands on the right.
  induction bound generalizing built i cs with
  | zero =>
      rw [formatFrom?] at h
      cases h
      omega
  | succ bound ih =>
      cases cs with
      | nil =>
          simp only [formatFrom?] at h
          cases h
          omega
      | cons c cs =>
          rw [formatFrom?] at h
          cases hdirective : directive? c cs with
          | error e =>
              rw [hdirective] at h
              cases h
          | ok found =>
              rcases found with ⟨d, rest⟩
              have htaken := byteCount_of_directive? hdirective
              rw [hdirective] at h
              cases d with
              | literal c' =>
                  have hrest := ih h
                  rw [String.utf8ByteSize_push] at hrest
                  dsimp only [Directive.printed] at htaken
                  omega
              | percent =>
                  have hrest := ih h
                  have hone : '%'.utf8Size = 1 := by decide
                  rw [String.utf8ByteSize_push] at hrest
                  dsimp only [Directive.printed] at htaken
                  omega
              | convert conversion precision =>
                  cases hpiece : converted? address args i conversion precision with
                  | error e =>
                      simp only [bind, Except.bind, hpiece] at h
                      cases h
                  | ok piece =>
                      simp only [bind, Except.bind, hpiece] at h
                      split at h
                      · cases h
                      · next hfits =>
                          have hrest := ih h
                          dsimp only [Directive.printed] at htaken
                          omega

/-- The result of a format is too long by no more than the format. -/
theorem utf8ByteSize_format?_le {address : Addressing} {args : List Value} {format r : String}
    (hformat : Argument.text? .format args 0 = .ok format)
    (h : format? address args = .ok r) : r.utf8ByteSize ≤ maxTextLength + format.utf8ByteSize := by
  unfold format? at h
  rw [hformat] at h
  have hfrom := utf8ByteSize_formatFrom?_le h
  have hnone : "".utf8ByteSize = 0 := rfl
  rw [utf8ByteSize_eq format]
  omega

/-- A format without conversions is the result. -/
theorem formatFrom?_of_plain {address : Addressing} {args : List Value} {bound : Nat}
    {built : String} {i : Nat} {cs : List Char} (hplain : '%' ∉ cs) (hbound : cs.length ≤ bound) :
    formatFrom? address args bound built i cs = .ok (built ++ String.ofList cs) := by
  induction cs generalizing bound built with
  | nil =>
      have hnone : String.ofList [] = "" := rfl
      rw [hnone, String.append_empty]
      cases bound <;> simp only [formatFrom?]
  | cons c cs ih =>
      cases bound with
      | zero => cases hbound
      | succ bound =>
          rw [List.mem_cons, not_or] at hplain
          have hc : (c == '%') = false := beq_false_of_ne (Ne.symm hplain.1)
          -- Without a percent sign each character stands for itself.
          have hdirective : directive? c cs = .ok (.literal c, cs) := by
            unfold directive?
            rw [hc, if_neg Bool.false_ne_true]
          have hsplit : built.push c ++ String.ofList cs = built ++ String.ofList (c :: cs) := by
            rw [← String.toList_inj]
            simp only [String.toList_append, String.toList_push, String.toList_ofList,
              List.append_assoc, List.singleton_append]
          rw [formatFrom?, hdirective]
          simp only [bind, Except.bind]
          rw [ih hplain.2 (Nat.le_of_succ_le_succ hbound), hsplit]

theorem format?_of_plain {address : Addressing} {args : List Value} {format : String}
    (hformat : Argument.text? .format args 0 = .ok format) (hplain : '%' ∉ format.toList) :
    format? address args = .ok format := by
  unfold format?
  rw [hformat]
  simp only [bind, Except.bind]
  rw [formatFrom?_of_plain hplain (Nat.le_refl _), String.empty_append, String.ofList_toList]

/-- What stands behind a conversion that fits in comes on top. -/
theorem format?_of_display {address : Addressing} {s tail : String}
    (hs : s.utf8ByteSize ≤ maxTextLength) (hplain : '%' ∉ tail.toList) :
    format? address [.text ("%s" ++ tail), .text s] = .ok (s ++ tail) := by
  have hformat : Argument.text? .format [.text ("%s" ++ tail), .text s] 0 = .ok ("%s" ++ tail) :=
    rfl
  have hcs : ("%s" ++ tail).toList = '%' :: 's' :: tail.toList := by
    rw [String.toList_append]
    rfl
  have hdirective : directive? '%' ('s' :: tail.toList) =
      .ok (.convert .display none, tail.toList) := rfl
  have hconverted : converted? address [.text ("%s" ++ tail), .text s] 0 .display none = .ok s :=
    rfl
  unfold format?
  rw [hformat]
  simp only [bind, Except.bind]
  rw [hcs, List.length_cons, formatFrom?, hdirective]
  simp only [bind, Except.bind, hconverted, String.empty_append]
  rw [if_neg (Nat.not_lt_of_le hs), List.length_cons,
    formatFrom?_of_plain hplain (Nat.le_add_right _ 1), String.ofList_toList]

end Texts

end Script

end PixelEffects
