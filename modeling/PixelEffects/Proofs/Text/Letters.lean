import Mathlib.Data.List.Count
import PixelEffects.Proofs.Text.Repair

/-!
# Texts by Their Bytes

A text whose bytes are looked at one by one, each as the character with its number.

What is compared with ASCII characters may look at bytes as well as at characters. An ASCII character
is one byte, with the same number, and every byte of another character has a number that is no
ASCII. So among the letters of a text, an ASCII letter stands where the text has this character, and
nowhere inside of another one. A run of letters that satisfy an ASCII predicate is a run of characters.

## Main definitions

* `Text.letters`: The bytes of characters, each as a character.
* `Text.IsAsciiClass`: A predicate that only ASCII characters satisfy.

## Theorems

* `Text.letters_front_byte`: The letters of the first character.
* `Text.letters_eq_cons`: An ASCII letter is a character.
* `Text.pass_letters`: What passes other letters passes characters.
* `Text.takeWhile_letters`, `Text.dropWhile_letters`: Runs of ASCII letters.
* `Text.count_letters`: How often an ASCII letter occurs.
* `Text.isValid_of_append`, `Text.count_take_of_append`, `Text.slice_of_append`: Places between two
  characters, the line feeds in front of them, and what is cut out there.
-/

namespace PixelEffects

namespace Text

/-- The bytes of characters, each as the character with its number. -/
def letters (cs : List Char) : List Char :=
  cs.flatMap fun c => (String.utf8EncodeChar c).map Char.ofUInt8

/-- A predicate that only ASCII characters satisfy. -/
def IsAsciiClass (p : Char → Bool) : Prop :=
  ∀ c, p c = true → c.toNat < 0x80

variable {c l : Char} {cs ls : List Char}

theorem letters_nil : letters [] = [] :=
  rfl

theorem letters_append (cs cs' : List Char) : letters (cs ++ cs') = letters cs ++ letters cs' :=
  List.flatMap_append

/-- The letters of a source are its bytes. -/
theorem letters_toList (s : String) :
    letters s.toList = s.toByteArray.data.toList.map Char.ofUInt8 := by
  have hbytes : s.toByteArray.data.toList = s.toList.flatMap String.utf8EncodeChar := by
    rw [← String.utf8Encode_toList, List.utf8Encode, List.toList_data_toByteArray]
  rw [hbytes, List.map_flatMap]
  rfl

theorem length_letters (cs : List Char) :
    (letters cs).length = (String.ofList cs).utf8ByteSize := by
  have hself := letters_toList (String.ofList cs)
  rw [String.toList_ofList] at hself
  rw [hself, List.length_map, Array.length_toList]
  rfl

/-! ## Single characters -/

/-- An ASCII character is one letter. -/
theorem letters_cons_of_lt (h : c.toNat < 0x80) (cs : List Char) :
    letters (c :: cs) = c :: letters cs := by
  have hself : Char.ofUInt8 c.val.toUInt8 = c := by
    have hlt : c.val.toNat < 0x80 := h
    have hval : (Char.ofUInt8 c.val.toUInt8).val.toNat = c.val.toUInt8.toNat := rfl
    refine Char.ext (UInt32.toNat_inj.mp ?_)
    rw [hval, UInt32.toNat_toUInt8]
    omega
  unfold letters
  rw [List.flatMap_cons, utf8EncodeChar_of_lt h, List.map_singleton, hself]
  rfl

/-- The bytes of another character are no ASCII, and there is one. -/
theorem utf8EncodeChar_high (h : 0x80 ≤ c.toNat) : ∀ b ∈ String.utf8EncodeChar c, 0x80 ≤ b.toNat := by
  have hval : ¬ c.val.toNat ≤ 127 := Nat.not_le_of_lt h
  unfold String.utf8EncodeChar
  dsimp only
  rw [if_neg hval]
  split_ifs <;> simp only [List.forall_mem_cons, UInt8.toNat_ofNat', List.not_mem_nil,
    false_imp_iff, implies_true, and_true] <;> omega

theorem letters_high (h : 0x80 ≤ c.toNat) : ∀ l ∈ letters [c], 0x80 ≤ l.toNat := by
  intro l hl
  unfold letters at hl
  rw [List.flatMap_singleton] at hl
  rcases List.mem_map.mp hl with ⟨b, hb, rfl⟩
  exact utf8EncodeChar_high h b hb

theorem letters_cons (c : Char) (cs : List Char) : letters (c :: cs) = letters [c] ++ letters cs :=
  letters_append [c] cs

theorem length_letters_singleton (c : Char) : (letters [c]).length = c.utf8Size := by
  unfold letters
  rw [List.flatMap_singleton, List.length_map, String.length_utf8EncodeChar]

theorem letters_singleton_ne_nil (c : Char) : letters [c] ≠ [] := by
  intro h
  have hlength := length_letters_singleton c
  rw [h] at hlength
  exact absurd hlength.symm (Nat.ne_of_gt c.utf8Size_pos)

/-- The first letter of a character that is no ASCII is none. -/
theorem letters_cons_of_ge (h : 0x80 ≤ c.toNat) (cs : List Char) :
    ∃ l ls, letters (c :: cs) = l :: (ls ++ letters cs) ∧ letters [c] = l :: ls ∧
      0x80 ≤ l.toNat ∧ ∀ l' ∈ ls, 0x80 ≤ l'.toNat := by
  rcases List.exists_cons_of_ne_nil (letters_singleton_ne_nil c) with ⟨l, ls, hls⟩
  have hhigh := letters_high h
  rw [hls] at hhigh
  refine ⟨l, ls, ?_, hls, hhigh l List.mem_cons_self, fun l' hl' => ?_⟩
  · rw [letters_cons, hls]
    rfl
  · exact hhigh l' (List.mem_cons_of_mem l hl')

/-- The first byte of a character. -/
theorem utf8EncodeChar_front (c : Char) :
    ∃ bs, String.utf8EncodeChar c = UInt8.ofNat (Utf8.leadByte c) :: bs ∧
      Utf8.leadByte c < 0x100 := by
  have hvalid := Utf8.toNat_valid c
  have hval : c.val.toNat = c.toNat := rfl
  unfold String.utf8EncodeChar Utf8.leadByte
  rw [hval]
  dsimp only
  by_cases h1 : c.toNat < 0x80
  · rw [if_pos (by omega), if_pos h1]
    exact ⟨_, rfl, by omega⟩
  rw [if_neg (by omega), if_neg h1]
  by_cases h2 : c.toNat < 0x800
  · rw [if_pos (by omega), if_pos h2, show c.toNat / 64 % 32 + 192 = 0xC0 + c.toNat / 64 by omega]
    exact ⟨_, rfl, by omega⟩
  rw [if_neg (by omega), if_neg h2]
  by_cases h3 : c.toNat < 0x10000
  · rw [if_pos (by omega), if_pos h3,
      show c.toNat / 4096 % 16 + 224 = 0xE0 + c.toNat / 4096 by omega]
    exact ⟨_, rfl, by omega⟩
  · rw [if_neg (by omega), if_neg h3,
      show c.toNat / 262144 % 8 + 240 = 0xF0 + c.toNat / 262144 by omega]
    exact ⟨_, rfl, by omega⟩

/-- The first letter of a character is its first byte, and the others follow. -/
theorem letters_front_byte (c : Char) (cs : List Char) :
    ∃ ls, letters (c :: cs) = Char.ofNat (Utf8.leadByte c) :: ls ∧
      ls.drop (c.utf8Size - 1) = letters cs := by
  rcases utf8EncodeChar_front c with ⟨bs, hbs, hlt⟩
  have hnat : (Char.ofUInt8 (UInt8.ofNat (Utf8.leadByte c))).toNat = Utf8.leadByte c := by
    have htoNat (b : UInt8) : (Char.ofUInt8 b).toNat = b.toNat := rfl
    rw [htoNat, UInt8.toNat_ofNat', Nat.mod_eq_of_lt hlt]
  have hfront : Char.ofUInt8 (UInt8.ofNat (Utf8.leadByte c)) = Char.ofNat (Utf8.leadByte c) := by
    rw [← Char.ofNat_toNat (Char.ofUInt8 (UInt8.ofNat (Utf8.leadByte c))), hnat]
  have hlength : bs.length = c.utf8Size - 1 := by
    have hsize := congrArg List.length hbs
    rw [String.length_utf8EncodeChar, List.length_cons] at hsize
    rw [hsize, Nat.add_sub_cancel]
  have hsingle : letters [c] = Char.ofNat (Utf8.leadByte c) :: bs.map Char.ofUInt8 := by
    unfold letters
    rw [List.flatMap_singleton, hbs, List.map_cons, hfront]
  refine ⟨bs.map Char.ofUInt8 ++ letters cs, ?_, ?_⟩
  · rw [letters_cons, hsingle, List.cons_append]
  · rw [← hlength, ← List.length_map (f := Char.ofUInt8), List.drop_left]

/-- An ASCII letter is a character. -/
theorem letters_eq_cons (h : letters cs = l :: ls) (hl : l.toNat < 0x80) :
    ∃ cs', cs = l :: cs' ∧ ls = letters cs' := by
  cases cs with
  | nil => cases h
  | cons c cs =>
      by_cases hc : c.toNat < 0x80
      · rw [letters_cons_of_lt hc] at h
        cases h
        exact ⟨cs, rfl, rfl⟩
      · rcases letters_cons_of_ge (Nat.le_of_not_lt hc) cs with ⟨l', ls', hcons, _, hhigh, _⟩
        rw [hcons] at h
        cases h
        exact absurd hl (Nat.not_lt_of_le hhigh)

/-- The first letter of a character is ASCII just if it is the character. -/
theorem lead_eq_iff {a : Char} (ha : a.toNat < 0x80) : Char.ofNat (Utf8.leadByte c) = a ↔ c = a := by
  rcases letters_front_byte c [] with ⟨ls, hls, _⟩
  constructor
  · rintro rfl
    rcases letters_eq_cons hls ha with ⟨cs', hcs, _⟩
    exact (List.cons.inj hcs).1
  · rintro rfl
    rw [letters_cons_of_lt ha] at hls
    exact (List.cons.inj hls).1.symm

/-- The first letter of a character is in an ASCII class just if the character is. -/
theorem IsAsciiClass.lead_eq {p : Char → Bool} (hp : IsAsciiClass p) (c : Char) :
    p (Char.ofNat (Utf8.leadByte c)) = p c := by
  refine Bool.eq_iff_iff.mpr ⟨fun h => ?_, fun h => ?_⟩
  · rw [(lead_eq_iff (hp _ h)).mp rfl]
    exact h
  · rw [(lead_eq_iff (hp _ h)).mpr rfl]
    exact h

theorem letters_eq_nil (h : letters cs = []) : cs = [] := by
  cases cs with
  | nil => rfl
  | cons c cs =>
      rw [letters_cons] at h
      exact absurd (List.append_eq_nil_iff.mp h).1 (letters_singleton_ne_nil c)

/-- An ASCII character that is not at the front is no letter there. -/
theorem letters_front {a : Char} (ha : a.toNat < 0x80) (h : ∀ cs', cs = a :: cs' → False)
    (ls : List Char) (hls : letters cs = a :: ls) : False := by
  rcases letters_eq_cons hls ha with ⟨cs', hcs, _⟩
  exact h cs' hcs

theorem letters_front_two {a b : Char} (ha : a.toNat < 0x80) (hb : b.toNat < 0x80)
    (h : ∀ cs', cs = a :: b :: cs' → False) (ls : List Char) (hls : letters cs = a :: b :: ls) :
    False := by
  rcases letters_eq_cons hls ha with ⟨cs', rfl, hrest⟩
  exact letters_front hb (fun cs'' hcs => h cs'' (congrArg _ hcs)) ls hrest.symm

theorem characters_front {a : Char} (ha : a.toNat < 0x80) (hls : ls = letters cs)
    (h : ∀ ls', ls = a :: ls' → False) (cs' : List Char) (hcs : cs = a :: cs') : False := by
  subst hcs
  exact h _ (hls.trans (letters_cons_of_lt ha cs'))

/-- A letter that is no ASCII is not an ASCII character. -/
theorem ne_of_ge {a : Char} (hl : 0x80 ≤ l.toNat) (ha : a.toNat < 0x80) : l ≠ a := by
  rintro rfl
  exact absurd ha (Nat.not_lt_of_le hl)

/-- What passes each letter that is no ASCII passes such a character. -/
theorem pass_letters {β : Type} {f : List Char → β}
    (hf : ∀ l, 0x80 ≤ l.toNat → ∀ rest, f (l :: rest) = f rest) (h : 0x80 ≤ c.toNat)
    (cs : List Char) : f (letters (c :: cs)) = f (letters cs) := by
  have hpass : ∀ ls : List Char, (∀ l ∈ ls, 0x80 ≤ l.toNat) →
      f (ls ++ letters cs) = f (letters cs) := by
    intro ls hls
    induction ls with
    | nil => rfl
    | cons l ls ih =>
        rw [List.cons_append, hf l (hls l List.mem_cons_self),
          ih fun l' hl' => hls l' (List.mem_cons_of_mem l hl')]
  rw [letters_cons, hpass _ (letters_high h)]

/-- There is no character without a letter. -/
theorem length_le_letters (cs : List Char) : cs.length ≤ (letters cs).length := by
  induction cs with
  | nil => exact Nat.le_refl _
  | cons c cs ih =>
      have hpositive := List.length_pos_iff.mpr (letters_singleton_ne_nil c)
      rw [letters_cons, List.length_append, List.length_cons]
      omega

/-! ## Runs -/

section Runs

variable {p : Char → Bool} (hp : IsAsciiClass p)

include hp

theorem IsAsciiClass.eq_false (h : 0x80 ≤ c.toNat) : p c = false := by
  refine Bool.eq_false_iff.mpr fun hc => ?_
  exact absurd (hp c hc) (Nat.not_lt_of_le h)

/-- Only at its front, where an ASCII character is a letter, does a run end or go on. -/
theorem span_letters (cs : List Char) :
    (letters cs).takeWhile p = cs.takeWhile p ∧
      (letters cs).dropWhile p = letters (cs.dropWhile p) := by
  induction cs with
  | nil => exact ⟨rfl, rfl⟩
  | cons c cs ih =>
      by_cases hc : c.toNat < 0x80
      · rw [letters_cons_of_lt hc]
        by_cases hclass : p c = true
        · simp only [List.takeWhile_cons_of_pos hclass, List.dropWhile_cons_of_pos hclass, ih,
            and_self]
        · simp only [List.takeWhile_cons_of_neg hclass, List.dropWhile_cons_of_neg hclass,
            letters_cons_of_lt hc, and_self]
      · -- Neither the character nor its first letter is in the class.
        have hhigh := Nat.le_of_not_lt hc
        have hclass := Bool.eq_false_iff.mp (hp.eq_false hhigh)
        rcases letters_cons_of_ge hhigh cs with ⟨l, ls, hcons, _, hl, _⟩
        rw [List.takeWhile_cons_of_neg hclass, List.dropWhile_cons_of_neg hclass, hcons,
          List.takeWhile_cons_of_neg (Bool.eq_false_iff.mp (hp.eq_false hl)),
          List.dropWhile_cons_of_neg (Bool.eq_false_iff.mp (hp.eq_false hl))]
        exact ⟨rfl, rfl⟩

theorem takeWhile_letters (cs : List Char) : (letters cs).takeWhile p = cs.takeWhile p :=
  (span_letters hp cs).1

theorem dropWhile_letters (cs : List Char) : (letters cs).dropWhile p = letters (cs.dropWhile p) :=
  (span_letters hp cs).2

end Runs

/-- An ASCII letter is there as often as the character. -/
theorem count_letters (h : c.toNat < 0x80) (cs : List Char) :
    (letters cs).count c = cs.count c := by
  induction cs with
  | nil => rfl
  | cons d cs ih =>
      by_cases hd : d.toNat < 0x80
      · rw [letters_cons_of_lt hd, List.count_cons, List.count_cons, ih]
      · have hhigh := letters_high (Nat.le_of_not_lt hd)
        have hnone : (letters [d]).count c = 0 :=
          List.count_eq_zero.mpr fun hmem => absurd h (Nat.not_lt_of_le (hhigh c hmem))
        have hne : d ≠ c := fun heq => hd (heq ▸ h)
        rw [letters_cons, List.count_append, hnone, ih, Nat.zero_add, List.count_cons_of_ne hne]

/-! ## Parts of a text -/

section Parts

variable {s : String} {before part after : List Char}

/-- The place behind some characters of a text is between two. -/
theorem isValid_of_append (h : s.toList = before ++ after) :
    String.Pos.Raw.IsValid s ⟨(letters before).length⟩ := by
  refine String.Pos.Raw.isValid_iff_exists_append.mpr
    ⟨String.ofList before, String.ofList after, ?_, ?_⟩
  · rw [← String.ofList_append, ← h, String.ofList_toList]
  · rw [length_letters]
    rfl

/-- The line feeds in front of such a place, as bytes and as characters. -/
theorem count_take_of_append (h : s.toList = before ++ after) :
    (s.toByteArray.data.toList.take (letters before).length).count 10 = before.count '\n' := by
  have hinjective : Function.Injective Char.ofUInt8 := by
    intro a b hab
    have hnat : (Char.ofUInt8 a).toNat = (Char.ofUInt8 b).toNat := congrArg Char.toNat hab
    exact UInt8.toNat_inj.mp hnat
  rw [← List.count_map_of_injective _ _ hinjective, List.map_take, ← letters_toList, h,
    letters_append, List.take_left]
  exact count_letters (by decide) before

/-- What is cut out between two such places. -/
theorem slice_of_append (h : s.toList = before ++ part ++ after) :
    Utf8.slice s (letters before).length (letters (before ++ part)).length = String.ofList part := by
  have hlength (cs : List Char) : (letters cs).length = cs.utf8Encode.data.toList.length := by
    rw [length_letters, Array.length_toList]
    rfl
  have hbytes : (s.toUTF8.extract (letters before).length (letters (before ++ part)).length).toList =
      part.utf8Encode.data.toList := by
    have hsplit : s.toByteArray.data.toList = before.utf8Encode.data.toList ++
        (part.utf8Encode.data.toList ++ after.utf8Encode.data.toList) := by
      rw [← String.utf8Encode_toList, h, List.append_assoc, List.utf8Encode_append,
        List.utf8Encode_append, ByteArray.data_append, ByteArray.data_append, Array.toList_append,
        Array.toList_append]
    rw [Utf8.byteList_eq, ByteArray.data_extract, Array.toList_extract,
      String.toUTF8_eq_toByteArray, hsplit, List.extract_eq_take_drop, letters_append,
      List.length_append, Nat.add_sub_cancel_left, hlength, hlength, List.drop_left, List.take_left]
  rw [Utf8.slice, hbytes, Utf8.repair_utf8Encode]

end Parts

end Text

end PixelEffects
