import PixelEffects.Proofs.Script.Token.Letters

/-!
# Reading Tokens by Bytes

The tokens of a source, read from its bytes.

A source can be read with a place in it, which is a number of bytes, instead of with what is left of its
characters. Then the next bytes are compared with ASCII characters, each as a letter, and the texts of
names and numbers and of long texts are cut out of the source from one place to another one. Cutting
through a character would stop the reader at once, and not with an error of the source. In a quoted
text, and where there is no token, the character at a place is decoded, which cuts out the rest of
the source.

Whenever a token is read, the place is between two characters. From there on, both ways of reading
agree, on tokens, lines, errors and on what is left.

## Main definitions

* `Placed`: A token with its line and its places.
* `Bytes.cutOut`: A part of the source, if both its ends are between two characters.
* `Bytes.readToken`: One token, from the bytes that are left.
* `Bytes.read`: All tokens of a source.

## Theorems

* `Bytes.cutOut_letters`: What is cut out where characters are left.
* `Bytes.readNumber_letters`, `Bytes.readWord_letters`, `Bytes.readQuoted_letters`,
  `Bytes.readLongBody_letters`: The kinds of tokens.
* `Bytes.readToken_letters`: A token is read by bytes as it is by characters.
-/

namespace PixelEffects

open Text

namespace Script

/-- What stops the reading of bytes: an error of the source, or a part that does not begin and end
    between two characters. -/
inductive Stop
  | fault (e : SyntaxError)
  | cut (start stop : Nat)

/-- A token with its line, and with the numbers of the bytes in front of it and up to its end. -/
structure Placed where
  token : Token
  line : Nat
  start : Nat
  stop : Nat

/-- A token with its line. -/
def Placed.lexeme (p : Placed) : Lexeme :=
  ⟨p.token, p.line⟩

namespace Bytes

/-! ## The reader -/

section Reader

variable (source : String)

/-- The number of bytes in front of what is left. -/
def offset (left : List Char) : Nat :=
  source.utf8ByteSize - left.length

/-- The text from one place to another one, both of which have to be between two characters. -/
def cutOut (start stop : Nat) : Except Stop String :=
  if start ≤ stop ∧ String.Pos.Raw.IsValid source ⟨start⟩ ∧ String.Pos.Raw.IsValid source ⟨stop⟩ then
    .ok (Utf8.slice source start stop)
  else .error (.cut start stop)

/-- The character at the front of what is left, of which there may be more than one byte. -/
def frontChar (left : List Char) : Except Stop (Option Char) :=
  (cutOut source (offset source left) source.utf8ByteSize).map (·.toList.head?)

/-- A hexadecimal number that starts with a mark, with what is left behind the mark. -/
def readHex (line : Nat) (start left : List Char) : Except Stop Scanned := do
  let rest := left.dropWhile isHexDigit
  let digits ← cutOut source (offset source left) (offset source rest)
  match scanHex [] digits.toList with
  | .ok (value, _) => .ok ⟨.number value, line, rest⟩
  | .error _ =>
    let spelled ← cutOut source (offset source start) (offset source rest)
    .error (.fault ⟨line, .malformedNumber spelled⟩)

/-- A decimal number. -/
def readDecimal (line : Nat) (left : List Char) : Except Stop Scanned :=
  match scanExponent (spanPoint (Numeral.spanDigits left).2).2 with
  | .error cause => .error (.fault ⟨line, cause⟩)
  | .ok (_, rest) => do
    let spelled ← cutOut source (offset source left) (offset source rest)
    match Numeral.readMagnitude? spelled.toList with
    | some value => .ok ⟨.number value, line, rest⟩
    | none => .error (.fault ⟨line, .malformedNumber spelled⟩)

/-- A number. -/
def readNumber (line : Nat) : List Char → Except Stop Scanned
  | '0' :: 'x' :: left => readHex source line ('0' :: 'x' :: left) left
  | '0' :: 'X' :: left => readHex source line ('0' :: 'X' :: left) left
  | left => readDecimal source line left

/-- A name or a keyword. -/
def readWord (line : Nat) (left : List Char) : Except Stop Scanned := do
  let rest := left.dropWhile isNamePart
  let word ← cutOut source (offset source left) (offset source rest)
  match Mark.keyword? word with
  | some m => .ok ⟨.mark m, line, rest⟩
  | none => .ok ⟨.name word, line, rest⟩

/-- A quoted text up to its closing quote, after the characters already read, which are in reverse.
    A character that stands for itself is decoded, and all its bytes are passed. -/
def readQuoted (line : Nat) (quote : Char) (done : List Char) : List Char → Except Stop Scanned
  | [] => .error (.fault ⟨line, .unfinishedText⟩)
  | '\n' :: _ => .error (.fault ⟨line, .unfinishedText⟩)
  | ['\\'] => .error (.fault ⟨line, .unfinishedText⟩)
  | '\\' :: letter :: left =>
    match unescape? letter with
    | some c => readQuoted line quote (c :: done) left
    | none => .error (.fault ⟨line, .invalidEscape letter⟩)
  | l :: left =>
    if l == quote then .ok ⟨.text (String.ofList done.reverse), line, left⟩
    else
      match frontChar source (l :: left) with
      | .error s => .error s
      | .ok none => .error (.fault ⟨line, .unfinishedText⟩)
      | .ok (some c) => readQuoted line quote (c :: done) (left.drop (c.utf8Size - 1))
termination_by left => left.length

/-- A long text, from the place where its text starts. Where it ends is looked for, and the text is
    cut out then. -/
def readLong (line : Nat) (left : List Char) : Except Stop Scanned :=
  match scanLong [] line left with
  | .error e => .error (.fault e)
  | .ok (_, after, rest) => do
    let text ← cutOut source (offset source left) (offset source rest - 2)
    .ok ⟨.text text, after, rest⟩

/-- A long text after its opening brackets. -/
def readLongBody (line : Nat) : List Char → Except Stop Scanned
  | '\n' :: left => readLong source (line + 1) left
  | left => readLong source line left

/-- One token that starts with the first byte. -/
def readToken (line : Nat) : List Char → Except Stop Scanned
  | [] => .ok ⟨.endOfSource, line, []⟩
  | l :: left =>
    if startsNumber (l :: left) then readNumber source line (l :: left)
    else if isNameStart l then readWord source line (l :: left)
    else if l == '"' || l == '\'' then readQuoted source line l [] left
    else
      match l, left with
      | '[', '[' :: left => readLongBody source line left
      | _, _ =>
        match scanMark (l :: left) with
        | some (m, rest) => .ok ⟨.mark m, line, rest⟩
        | none => do
          let front ← frontChar source (l :: left)
          .error (.fault ⟨line, .unexpectedCharacter (front.getD '?')⟩)

/-- The tokens of what is left, after those already read, which are in reverse. -/
def readFrom : Nat → List Placed → Nat → List Char → Except Stop (List Placed)
  | 0, done, _, _ => .ok done.reverse
  | n + 1, done, line, left =>
    match skipTrivia .blanks line left with
    | .error e => .error (.fault e)
    | .ok (line, []) =>
      .ok (⟨.endOfSource, line, source.utf8ByteSize, source.utf8ByteSize⟩ :: done).reverse
    | .ok (line, l :: left) =>
      match readToken source line (l :: left) with
      | .error s => .error s
      | .ok s => readFrom n (⟨s.token, line, offset source (l :: left), offset source s.rest⟩ :: done)
          s.line s.rest

/-- The tokens of a source with their places, with the end of the source as the last. -/
def read : Except Stop (List Placed) :=
  let left := source.toByteArray.data.toList.map Char.ofUInt8
  readFrom source (left.length + 1) [] 1 left

end Reader

end Bytes

variable {c : Char} {cs ls : List Char}

/-! ## Places in the source -/

namespace Bytes

section Places

variable {source : String} {before part rest : List Char}

theorem offset_letters (h : source.toList = before ++ cs) :
    offset source (letters cs) = (letters before).length := by
  have hsize : source.utf8ByteSize = (letters before).length + (letters cs).length := by
    have hself := length_letters source.toList
    rw [String.ofList_toList, h, letters_append, List.length_append] at hself
    exact hself.symm
  unfold offset
  rw [hsize, Nat.add_sub_cancel]

theorem size_eq (h : source.toList = before ++ cs) :
    source.utf8ByteSize = (letters (before ++ cs)).length := by
  rw [length_letters, ← h, String.ofList_toList]

/-- Between two characters, nothing is cut through. -/
theorem cutOut_of_append (h : source.toList = before ++ part ++ rest) :
    cutOut source (letters before).length (letters (before ++ part)).length =
      .ok (String.ofList part) := by
  have hle : (letters before).length ≤ (letters (before ++ part)).length := by
    rw [letters_append, List.length_append]
    exact Nat.le_add_right _ _
  unfold cutOut
  rw [if_pos ⟨hle, isValid_of_append (h.trans (List.append_assoc before part rest)),
    isValid_of_append h⟩, slice_of_append h]

/-- From such a place up to the end. -/
theorem cutOut_rest (h : source.toList = before ++ rest) :
    cutOut source (letters before).length source.utf8ByteSize = .ok (String.ofList rest) := by
  have hcut := cutOut_of_append (h.trans (List.append_nil (before ++ rest)).symm)
  rw [size_eq h, hcut]

theorem cutOut_letters (part rest : List Char) (h : source.toList = before ++ (part ++ rest)) :
    cutOut source (offset source (letters (part ++ rest))) (offset source (letters rest)) =
      .ok (String.ofList part) := by
  have hassoc := h.trans (List.append_assoc before part rest).symm
  rw [offset_letters h, offset_letters hassoc, cutOut_of_append hassoc]

theorem frontChar_letters (h : source.toList = before ++ cs) :
    frontChar source (letters cs) = .ok cs.head? := by
  unfold frontChar
  rw [offset_letters h, cutOut_rest h, Except.map, String.toList_ofList]

end Places

/-! ## Tokens -/

/-- A result of reading characters, as one of reading bytes. -/
def lifted : Except SyntaxError Scanned → Except Stop Scanned
  | .ok s => .ok ⟨s.token, s.line, letters s.rest⟩
  | .error e => .error (.fault e)

section Tokens

variable {source : String} {before : List Char} (line : Nat)

theorem readHex_letters (mark : List Char) (h : source.toList = before ++ (mark ++ cs)) :
    readHex source line (letters (mark ++ cs)) (letters cs) =
      lifted (match scanHex mark cs with
        | .ok (value, rest) => .ok ⟨.number value, line, rest⟩
        | .error cause => .error ⟨line, cause⟩) := by
  have hsplit := List.takeWhile_append_dropWhile (p := isHexDigit) (l := cs)
  have hdigits : cutOut source (offset source (letters cs))
      (offset source (letters (cs.dropWhile isHexDigit))) =
        .ok (String.ofList (cs.takeWhile isHexDigit)) := by
    have hcut := cutOut_letters (cs.takeWhile isHexDigit) (cs.dropWhile isHexDigit)
      (show source.toList = before ++ mark ++ _ by rw [h, hsplit, List.append_assoc])
    rw [hsplit] at hcut
    exact hcut
  have hspelled : cutOut source (offset source (letters (mark ++ cs)))
      (offset source (letters (cs.dropWhile isHexDigit))) =
        .ok (String.ofList (mark ++ cs.takeWhile isHexDigit)) := by
    have hcut := cutOut_letters (mark ++ cs.takeWhile isHexDigit) (cs.dropWhile isHexDigit)
      (show source.toList = before ++ _ by rw [h, List.append_assoc, hsplit])
    rw [List.append_assoc, hsplit] at hcut
    exact hcut
  unfold readHex
  rw [scanHex_eq, dropWhile_letters isAsciiClass_isHexDigit]
  simp only [hdigits, hspelled, bind, Except.bind, String.toList_ofList]
  cases scanHex [] (cs.takeWhile isHexDigit) <;> rfl

theorem readDecimal_letters (h : source.toList = before ++ cs) :
    readDecimal source line (letters cs) =
      lifted (match scanDecimal cs with
        | .ok (value, rest) => .ok ⟨.number value, line, rest⟩
        | .error cause => .error ⟨line, cause⟩) := by
  unfold readDecimal scanDecimal
  rw [spanDigits_letters, spanPoint_letters, scanExponent_letters]
  dsimp only
  cases hexponent : scanExponent (spanPoint (Numeral.spanDigits cs).2).2 with
  | error cause => rfl
  | ok scanned =>
      rcases scanned with ⟨exponent, rest⟩
      have hsplit := decimal_append hexponent
      have hcut := cutOut_letters _ _ (h.trans (congrArg (before ++ ·) hsplit.symm))
      rw [hsplit] at hcut
      simp only [Except.map, hcut, bind, Except.bind, String.toList_ofList]
      cases Numeral.readMagnitude? ((Numeral.spanDigits cs).1 ++
        (spanPoint (Numeral.spanDigits cs).2).1 ++ exponent) <;> rfl

theorem readNumber_letters (h : source.toList = before ++ cs) :
    readNumber source line (letters cs) =
      lifted (match scanNumber cs with
        | .ok (value, rest) => .ok ⟨.number value, line, rest⟩
        | .error cause => .error ⟨line, cause⟩) := by
  fun_cases scanNumber cs with
  | case1 cs =>
      have hhex := readHex_letters line ['0', 'x'] h
      simp (disch := decide) only [List.cons_append, List.nil_append, letters_cons_of_lt] at hhex ⊢
      exact hhex
  | case2 cs =>
      have hhex := readHex_letters line ['0', 'X'] h
      simp (disch := decide) only [List.cons_append, List.nil_append, letters_cons_of_lt] at hhex ⊢
      exact hhex
  | case3 cs hlower hupper =>
      rw [readNumber.eq_3 _ _ _ (letters_front_two (by decide) (by decide) hlower)
        (letters_front_two (by decide) (by decide) hupper), readDecimal_letters line h]

theorem readWord_letters (h : source.toList = before ++ cs) :
    readWord source line (letters cs) =
      lifted (.ok ⟨match Mark.keyword? (String.ofList (cs.takeWhile isNamePart)) with
        | some m => .mark m
        | none => .name (String.ofList (cs.takeWhile isNamePart)), line,
        cs.dropWhile isNamePart⟩) := by
  have hsplit := List.takeWhile_append_dropWhile (p := isNamePart) (l := cs)
  have hcut := cutOut_letters _ _ (h.trans (congrArg (before ++ ·) hsplit.symm))
  rw [hsplit] at hcut
  unfold readWord
  rw [dropWhile_letters isAsciiClass_isNamePart]
  simp only [hcut, bind, Except.bind]
  cases Mark.keyword? (String.ofList (cs.takeWhile isNamePart)) <;> rfl

theorem readQuoted_letters {quote : Char} (hquote : quote.toNat < 0x80) (done : List Char)
    (h : source.toList = before ++ cs) :
    readQuoted source line quote done (letters cs) =
      lifted (match scanQuoted quote done cs with
        | .ok (value, rest) => .ok ⟨.text value, line, rest⟩
        | .error cause => .error ⟨line, cause⟩) := by
  fun_induction scanQuoted quote done cs generalizing before with
  | case1 =>
      rw [letters_nil, readQuoted.eq_1]
      rfl
  | case2 =>
      rw [letters_cons_of_lt (by decide), readQuoted.eq_2]
      rfl
  | case3 =>
      rw [letters_cons_of_lt (by decide), letters_nil, readQuoted.eq_3]
      rfl
  | case4 done letter cs c hescape ih =>
      rw [letters_cons_of_lt (by decide), letters_cons_of_lt (lt_of_unescape? hescape),
        readQuoted.eq_4, hescape]
      exact ih (h.trans (List.append_assoc before ['\\', letter] cs).symm)
  | case5 done letter cs hescape =>
      rcases letters_front_byte letter cs with ⟨ls, hls, _⟩
      have hnone : unescape? (Char.ofNat (Utf8.leadByte letter)) = none := by
        refine Option.eq_none_iff_forall_ne_some.mpr fun c hc => ?_
        rw [← (lead_eq_iff (lt_of_unescape? hc)).mp rfl, hescape] at hc
        cases hc
      rw [letters_cons_of_lt (by decide), hls, readQuoted.eq_4, hnone]
      rfl
  | case6 done c cs hline hlast hescape hclose =>
      have hc : c.toNat < 0x80 := (eq_of_beq hclose).symm ▸ hquote
      have hback : c ≠ '\\' := ne_backslash hlast hescape
      rw [letters_cons_of_lt hc, readQuoted.eq_5 _ _ _ _ _ _ hline (fun heq => absurd heq hback)
        (fun _ _ heq => absurd heq hback), if_pos hclose]
      rfl
  | case7 done c cs hline hlast hescape hopen ih =>
      rcases letters_front_byte c cs with ⟨ls, hls, hdrop⟩
      have hfront := frontChar_letters h
      have hback : c ≠ '\\' := ne_backslash hlast hescape
      have hlead {a : Char} (ha : a.toNat < 0x80) (hne : c ≠ a) :
          Char.ofNat (Utf8.leadByte c) ≠ a := fun heq => hne ((lead_eq_iff ha).mp heq)
      have hne : ¬ (Char.ofNat (Utf8.leadByte c) == quote) = true := by
        rw [beq_iff_eq] at hopen ⊢
        exact hlead hquote hopen
      rw [hls] at hfront
      -- All bytes of the character are passed, so what is left is characters again.
      rw [hls, readQuoted.eq_5 _ _ _ _ _ _ (hlead (by decide) hline)
        (fun heq => absurd heq (hlead (by decide) hback))
        (fun _ _ heq => absurd heq (hlead (by decide) hback)), if_neg hne, hfront]
      dsimp only [List.head?]
      rw [hdrop]
      exact ih (h.trans (List.append_assoc before [c] cs).symm)

theorem readLong_letters (h : source.toList = before ++ cs) :
    readLong source line (letters cs) =
      lifted (match scanLong [] line cs with
        | .ok (value, after, rest) => .ok ⟨.text value, after, rest⟩
        | .error e => .error e) := by
  unfold readLong
  cases hscan : scanLong [] line cs with
  | error e =>
      rw [scanLong_letters_of_error hscan]
      rfl
  | ok scanned =>
      rcases scanned with ⟨value, after, rest⟩
      rcases scanLong_letters_of_ok hscan with ⟨gathered, hletters⟩
      rcases scanLong_append hscan with ⟨body, rfl, rfl, _⟩
      have hcut := cutOut_letters _ _ h
      -- The place behind the text is two bytes in front of what is left, that of the brackets.
      have hstop : offset source (letters rest) - 2 = offset source (letters (']' :: ']' :: rest)) := by
        simp (disch := decide) only [letters_cons_of_lt]
        unfold offset
        simp only [List.length_cons]
        omega
      rw [hletters]
      simp only [hstop, hcut, bind, Except.bind]
      rfl

theorem readLongBody_letters (h : source.toList = before ++ cs) :
    readLongBody source line (letters cs) =
      lifted (match scanLongBody line cs with
        | .ok (value, after, rest) => .ok ⟨.text value, after, rest⟩
        | .error e => .error e) := by
  fun_cases scanLongBody line cs with
  | case1 cs =>
      rw [letters_cons_of_lt (by decide), readLongBody.eq_1]
      exact readLong_letters _ (h.trans (List.append_assoc before ['\n'] cs).symm)
  | case2 cs hother =>
      rw [readLongBody.eq_2 _ _ _ (letters_front (by decide) hother)]
      exact readLong_letters _ h

/-- A long text is read by bytes as it is by characters. -/
theorem readToken_letters_long (h : source.toList = before ++ '[' :: '[' :: cs) :
    readToken source line (letters ('[' :: '[' :: cs)) =
      lifted (scanToken line ('[' :: '[' :: cs)) := by
  have hnumber (cs : List Char) : ¬ startsNumber ('[' :: '[' :: cs) = true := by
    rw [startsNumber.eq_2 _ _ fun _ _ heq => absurd heq (by decide)]
    decide
  have hname : ¬ isNameStart '[' = true := by decide
  have hquote : ¬ ('[' == '"' || '[' == '\'') = true := by decide
  have hsource : source.toList = before ++ ['[', '['] ++ cs := by
    rw [h, List.append_assoc]
    rfl
  have hbody := readLongBody_letters line hsource
  simp (disch := decide) only [letters_cons_of_lt]
  rw [readToken.eq_2, scanToken.eq_2, if_neg (hnumber _), if_neg (hnumber _), if_neg hname,
    if_neg hname, if_neg hquote, if_neg hquote]
  exact hbody

/-- A token is read by bytes as it is by characters. -/
theorem readToken_letters (h : source.toList = before ++ cs) :
    readToken source line (letters cs) = lifted (scanToken line cs) := by
  cases cs with
  | nil => rfl
  | cons c cs =>
      by_cases hopen : ∃ cs', c = '[' ∧ cs = '[' :: cs'
      · rcases hopen with ⟨cs', rfl, rfl⟩
        exact readToken_letters_long line h
      have hother (cs' : List Char) (hc : c = '[') (hcs : cs = '[' :: cs') : False :=
        hopen ⟨cs', hc, hcs⟩
      rcases letters_front_byte c cs with ⟨ls, hls, _⟩
      have hnumber : startsNumber (Char.ofNat (Utf8.leadByte c) :: ls) = startsNumber (c :: cs) :=
        hls ▸ startsNumber_letters (c :: cs)
      have hname := isAsciiClass_isNameStart.lead_eq c
      have hquote : (Char.ofNat (Utf8.leadByte c) == '"' || Char.ofNat (Utf8.leadByte c) == '\'') =
          (c == '"' || c == '\'') :=
        isAsciiClass_quote.lead_eq c
      -- The first letter is in the same classes as the character, so both take the same branch.
      rw [hls, readToken.eq_3, scanToken.eq_3 _ _ _ hother, hnumber, hname, hquote, ← hls]
      · split_ifs with hstart hword htext
        · exact readNumber_letters line h
        · exact readWord_letters line h
        · have hc := isAsciiClass_quote c htext
          rw [letters_cons_of_lt hc] at hls
          rw [← (List.cons.inj hls).1, ← (List.cons.inj hls).2]
          exact readQuoted_letters line hc [] (h.trans (List.append_assoc before [c] cs).symm)
        · cases hmark : scanMark (c :: cs) with
          | some found =>
              rw [scanMark_letters_of_some hmark]
              rfl
          | none =>
              rw [scanMark_letters_of_none hmark]
              simp only [frontChar_letters h, bind, Except.bind]
              rfl
      · intro left hc hleft
        have hfront := (lead_eq_iff (by decide)).mp hc
        subst hfront
        rw [letters_cons_of_lt (by decide)] at hls
        rcases letters_eq_cons ((List.cons.inj hls).2.trans hleft) (by decide) with ⟨cs', hcs, _⟩
        exact hother cs' rfl hcs

end Tokens

end Bytes

end Script

end PixelEffects
