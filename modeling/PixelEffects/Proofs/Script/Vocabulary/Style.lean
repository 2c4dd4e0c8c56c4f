import PixelEffects.Proofs.Number.Numeral
import PixelEffects.Proofs.Script.Vocabulary.Host

/-!
# Styles of Writing

Vocabularies of texts that are not too long.

A text in another case, a part of a text and a format are not checked for their length, so there
have to be other reasons why they are short. Texts of ASCII characters do not grow when their case is
changed or when they are cut, and a format without percent signs is the result. A text with one other
character can be repeated until there is no room left for its growth, and a percent sign in front of
a long text makes it a format that leaves room for what is longer still. So a style of writing allows
either such characters or the functions that they are dangerous to.

## Main definitions

* `Style`: Which characters may occur.
* `Style.text`, `Style.function`: Texts that are not too long, and functions that keep them so.
* `Style.vocabulary`: Both of them as a vocabulary.
* `Style.machine`: A machine with the functions of a style.

## Theorems

* `Style.machine_admitted`: A script can begin in any style.
* `Style.machine_plain`: The plain style goes with the library as it is.
-/

namespace PixelEffects

namespace Script

open Text

/-- Which characters may occur apart from plain ones: those that are not ASCII, and percent signs. -/
structure Style where
  wide : Bool
  percent : Bool
deriving Repr, DecidableEq

namespace Style

/-- ASCII characters other than percent signs. -/
def plain : Style :=
  ⟨false, false⟩

/-- The characters of a style. -/
def char (style : Style) (c : Char) : Bool :=
  (style.wide || c.toNat < 0x80) && (style.percent || c != '%')

/-- The texts of a style that are not too long. -/
def text (style : Style) (s : String) : Bool :=
  s.utf8ByteSize ≤ maxTextLength && s.toList.all style.char

/-- The functions that make no text too long out of texts of a style. -/
def function (style : Style) : Builtin → Bool
  | .lower | .upper | .sub => !style.wide
  | .format => !style.percent
  | _ => true

variable {style : Style}

theorem char_iff {c : Char} :
    style.char c = true ↔
      (style.wide = false → c.toNat < 0x80) ∧ (style.percent = false → c ≠ '%') := by
  unfold char
  cases style.wide <;> cases style.percent <;> simp

theorem text_iff {s : String} :
    style.text s = true ↔
      s.utf8ByteSize ≤ maxTextLength ∧ ∀ c ∈ s.toList, style.char c = true := by
  simp only [text, Bool.and_eq_true, decide_eq_true_eq, List.all_eq_true]

theorem utf8ByteSize_le {s : String} (h : style.text s = true) : s.utf8ByteSize ≤ maxTextLength :=
  (text_iff.mp h).1

theorem isAscii_of_text {s : String} (hwide : style.wide = false) (h : style.text s = true) :
    isAscii s = true :=
  isAscii_iff.mpr fun c hc => (char_iff.mp ((text_iff.mp h).2 c hc)).1 hwide

/-- ASCII characters make up a text of a style unless there are too many of them. -/
theorem text_ofList {cs : List Char} (hcs : ∀ c ∈ cs, style.char c = true ∧ c.toNat < 0x80)
    (hlength : cs.length ≤ maxTextLength) : style.text (String.ofList cs) = true := by
  rw [text_iff, String.toList_ofList]
  refine ⟨?_, fun c hc => (hcs c hc).1⟩
  rw [utf8ByteSize_of_isAscii (isAscii_ofList fun c hc => (hcs c hc).2), String.toList_ofList]
  exact hlength

/-! ## Texts that values are displayed as -/

/-- Plain texts are of every style. -/
theorem text_of_plain {s : String} (h : plain.text s = true) : style.text s = true := by
  rw [text_iff] at h ⊢
  refine ⟨h.1, fun c hc => ?_⟩
  have hplain := char_iff.mp (h.2 c hc)
  exact char_iff.mpr ⟨fun _ => hplain.1 rfl, fun _ => hplain.2 rfl⟩

theorem plain_of_isMark {c : Char} (h : Numeral.isMark c = true) : plain.char c = true := by
  have hmark := Numeral.lt_of_isMark h
  exact char_iff.mpr ⟨fun _ => hmark.1, fun _ => hmark.2⟩

theorem text_scriptText (x : Float) : plain.text (Numeral.scriptText x) = true := by
  refine text_iff.mpr ⟨?_, fun c hc => plain_of_isMark (Numeral.scriptText_isMark x c hc)⟩
  exact Nat.le_trans (Numeral.utf8ByteSize_scriptText x) (by decide)

/-- Numbers of places are those of a machine with 64 bits. -/
theorem text_placeText {label : String} (hlabel : plain.text (label ++ ": 0x") = true)
    (hshort : (label ++ ": 0x").utf8ByteSize ≤ 1000) {n : Nat} (hn : n < 2 ^ 64) :
    plain.text (Value.placeText label n) = true := by
  have hdigits : (Nat.toDigits 16 n).length ≤ 16 :=
    (Nat.length_toDigits_le_iff (by decide) (by decide)).mpr hn
  have hmarks : ∀ c ∈ Nat.toDigits 16 n, plain.char c = true ∧ c.toNat < 0x80 := by
    intro c hc
    have hmark := Numeral.isMark_of_mem_hex hc
    exact ⟨plain_of_isMark hmark, (Numeral.lt_of_isMark hmark).1⟩
  have hnumber : plain.text (String.ofList (Nat.toDigits 16 n)) = true :=
    text_ofList hmarks (Nat.le_trans hdigits (by decide))
  have hsize : (String.ofList (Nat.toDigits 16 n)).utf8ByteSize ≤ 16 := by
    rw [utf8ByteSize_of_isAscii (isAscii_of_text rfl hnumber), String.toList_ofList]
    exact hdigits
  have hcap : 1016 ≤ maxTextLength := by decide
  unfold Value.placeText
  rw [text_iff, String.utf8ByteSize_append, String.toList_append]
  refine ⟨by omega, fun c hc => ?_⟩
  rcases List.mem_append.mp hc with hc | hc
  · exact (text_iff.mp hlabel).2 c hc
  · exact (text_iff.mp hnumber).2 c hc

theorem text_display {address : Addressing} (haddress : ∀ r, address r < 2 ^ 64) {v : Value}
    (h : ∀ s, v = .text s → style.text s = true) : style.text (v.display address) = true := by
  have hnil : plain.text "nil" = true := by decide
  have hbool : ∀ b : Bool, plain.text (if b then "true" else "false") = true := by decide
  have hbuiltin : ∀ b : Builtin, plain.text ("builtin: " ++ b.name) = true := by
    intro b
    cases b <;> decide
  cases v with
  | text s => exact h s rfl
  | nil => exact text_of_plain hnil
  | bool b => exact text_of_plain (hbool b)
  | number x => exact text_of_plain (text_scriptText x)
  | table id => exact text_of_plain (text_placeText (by decide) (by decide) (haddress _))
  | function id => exact text_of_plain (text_placeText (by decide) (by decide) (haddress _))
  | builtin b => exact text_of_plain (hbuiltin b)

/-! ## Texts that are made of others -/

theorem text_append {a b : String} (ha : style.text a = true) (hb : style.text b = true)
    (hfits : (a ++ b).utf8ByteSize ≤ maxTextLength) : style.text (a ++ b) = true := by
  rw [text_iff, String.toList_append]
  refine ⟨hfits, fun c hc => ?_⟩
  rcases List.mem_append.mp hc with hc | hc
  · exact (text_iff.mp ha).2 c hc
  · exact (text_iff.mp hb).2 c hc

/-- ASCII characters that are each replaced by one, with no percent sign among the new ones. -/
theorem text_map (hwide : style.wide = false) {f : Char → Char}
    (hf : ∀ c : Char, c.toNat < 0x80 → (f c).toNat < 0x80 ∧ (f c = '%' → c = '%')) {s : String}
    (h : style.text s = true) : style.text (String.ofList (s.toList.map f)) = true := by
  have hascii := isAscii_of_text hwide h
  refine text_ofList (fun c hc => ?_) ?_
  · rcases List.mem_map.mp hc with ⟨d, hd, rfl⟩
    have hnew := hf d (isAscii_iff.mp hascii d hd)
    have hchar := char_iff.mp ((text_iff.mp h).2 d hd)
    refine ⟨char_iff.mpr ⟨fun _ => hnew.1, fun hpercent heq => ?_⟩, hnew.1⟩
    exact hchar.2 hpercent (hnew.2 heq)
  · rw [List.length_map, ← utf8ByteSize_of_isAscii hascii]
    exact utf8ByteSize_le h

theorem text_sub (hwide : style.wide = false) {s : String} (i : Float) (j : Option Float)
    (h : style.text s = true) : style.text (Texts.sub s i j) = true := by
  rcases Texts.sub_cases s i j with hnone | ⟨first, last, hslice⟩
  · rw [hnone]
    exact text_of_plain (by decide)
  · have hascii := isAscii_of_text hwide h
    rw [hslice, Utf8.slice_of_isAscii hascii]
    refine text_ofList (fun c hc => ?_) ?_
    · have hmem := List.mem_of_mem_drop (List.mem_of_mem_take hc)
      exact ⟨(text_iff.mp h).2 c hmem, isAscii_iff.mp hascii c hmem⟩
    · have hsize := utf8ByteSize_le h
      rw [utf8ByteSize_of_isAscii hascii] at hsize
      rw [List.length_take, List.length_drop]
      omega

/-- Without percent signs there are no conversions. -/
theorem text_format? {address : Addressing} (hpercent : style.percent = false)
    {args : List Value} {r : String} (hargs : ∀ v ∈ args, ∀ s, v = .text s → style.text s = true)
    (h : Texts.format? address args = .ok r) : style.text r = true := by
  cases hformat : Argument.text? .format args 0 with
  | error cause =>
      unfold Texts.format? at h
      rw [hformat] at h
      cases h
  | ok format =>
      have htext : style.text format = true := by
        rcases Texts.text?_cases hformat with harg | ⟨x, rfl⟩
        · exact hargs _ harg format rfl
        · exact text_of_plain (text_scriptText x)
      have hplain : '%' ∉ format.toList := fun hmem =>
        (char_iff.mp ((text_iff.mp htext).2 '%' hmem)).2 hpercent rfl
      rw [Texts.format?_of_plain hformat hplain] at h
      cases h
      exact htext

/-- The texts and functions of a style are a vocabulary. -/
def vocabulary (style : Style) {address : Addressing} (haddress : ∀ r, address r < 2 ^ 64) :
    Vocabulary address where
  text := style.text
  function := style.function
  empty := text_of_plain (by decide)
  typeName := by
    have hplain : ∀ t : TypeName, plain.text t.text = true := by
      intro t
      cases t <;> decide
    exact fun t => text_of_plain (hplain t)
  display := text_display haddress
  append := text_append
  lower hlower s hs := by
    have hwide : style.wide = false := Bool.not_eq_true' _ ▸ hlower
    rw [Case.toLower_of_isAscii (isAscii_of_text hwide hs)]
    exact text_map hwide (fun _ => Case.toLower_of_lt) hs
  upper hupper s hs := by
    have hwide : style.wide = false := Bool.not_eq_true' _ ▸ hupper
    rw [Case.toUpper_of_isAscii (isAscii_of_text hwide hs)]
    exact text_map hwide (fun _ => Case.toUpper_of_lt) hs
  sub hsub _ i j hs := text_sub (Bool.not_eq_true' _ ▸ hsub) i j hs
  format hformat := text_format? (Bool.not_eq_true' _ ▸ hformat)
  next := rfl
  ipairsStep := rfl

end Style

/-! ## The library -/

open Vocabulary

variable {address : Addressing} {V : Vocabulary address}

/-- The entries of a table of functions are these functions, and its keys are their names. -/
theorem functionTable_admitted {functions : List (String × Builtin)}
    (h : ∀ f ∈ functions, V.text f.1 = true ∧ V.function f.2 = true) :
    V.AdmitsTable (Library.functionTable functions) := by
  have hfold : ∀ (functions : List (String × Builtin)) (t : Table), V.AdmitsTable t →
      (∀ f ∈ functions, V.text f.1 = true ∧ V.function f.2 = true) →
        V.AdmitsTable (functions.foldl (fun t f => t.set (.text f.1) (.builtin f.2)) t) := by
    intro functions
    induction functions with
    | nil => exact fun t ht _ => ht
    | cons f functions ih =>
        intro t ht h
        rcases h f List.mem_cons_self with ⟨hname, hfunction⟩
        have hkey : V.Admits (Key.text f.1).toValue := hname
        have hvalue : V.Admits (.builtin f.2) := hfunction
        exact ih _ (ht.set hkey hvalue) fun g hg => h g (List.mem_cons_of_mem f hg)
  exact hfold functions .empty .empty h

theorem AdmitsHeap.of_tables {tables : List Table} (htables : tables ≠ [])
    (h : ∀ t ∈ tables, V.AdmitsTable t) : V.AdmitsHeap tables.toArray := by
  have hall : ∀ id, V.AdmitsTable (Heap.table tables.toArray id) := by
    intro id
    unfold Heap.table
    rw [Array.getD_eq_getD_getElem?, List.getElem?_toArray]
    cases hentry : tables[id.index]? with
    | none => exact .empty
    | some t => exact h t (List.mem_of_getElem? hentry)
  refine ⟨?_, fun k => (hall _).entries k, fun id _ => hall id⟩
  rw [List.size_toArray]
  exact List.length_pos_iff.mpr htables

namespace Style

/-- The tables of a script with no functions but those of a style. -/
def tables (style : Style) : Heap :=
  #[Library.globalTable, Library.mathTable,
    Library.functionTable (Builtin.string.filter fun f => style.function f.2),
    Library.functionTable Builtin.table]

/-- A machine that has run nothing, with these tables in place. -/
def machine (style : Style) : Machine :=
  { Machine.initial with tables := style.tables }

/-- The plain style goes with the library as it is. -/
theorem machine_plain : plain.machine = .initial :=
  rfl

variable {style : Style} {address : Addressing} (haddress : ∀ r, address r < 2 ^ 64)

theorem tables_admitted : (style.vocabulary haddress).AdmitsHeap style.tables := by
  have hentries : ∀ functions : List (String × Builtin),
      (∀ f ∈ functions, plain.text f.1 = true) → (∀ f ∈ functions, style.function f.2 = true) →
        (style.vocabulary haddress).AdmitsTable (Library.functionTable functions) :=
    fun _ hnames hfunctions => functionTable_admitted fun f hf =>
      ⟨text_of_plain (hnames f hf), hfunctions f hf⟩
  -- All functions that make no texts of texts, or look how long these are, go with every style.
  have hsafe : (∀ f ∈ Builtin.globals, style.function f.2 = true) ∧
      (∀ f ∈ Builtin.math, style.function f.2 = true) ∧
      ∀ f ∈ Builtin.table, style.function f.2 = true := by
    rcases style with ⟨_ | _, _ | _⟩ <;> decide
  have hnames : ∀ f ∈ Builtin.string, plain.text f.1 = true := by decide
  have hglobals := hentries Builtin.globals (by decide) hsafe.1
  have hmath := hentries Builtin.math (by decide) hsafe.2.1
  have hstring := hentries (Builtin.string.filter fun f => style.function f.2)
    (fun f hf => hnames f (List.mem_filter.mp hf).1) fun f hf => (List.mem_filter.mp hf).2
  have htable := hentries Builtin.table (by decide) hsafe.2.2
  have hkey : ∀ name, plain.text name = true →
      (style.vocabulary haddress).Admits (Key.text name).toValue :=
    fun _ hname => text_of_plain hname
  have hplace : ∀ n, (style.vocabulary haddress).Admits (.table ⟨n + 1⟩) := by
    intro n heq
    cases heq
  refine AdmitsHeap.of_tables (List.cons_ne_nil _ _) fun t ht => ?_
  simp only [List.mem_cons, List.not_mem_nil, or_false] at ht
  rcases ht with rfl | rfl | rfl | rfl
  · exact ((hglobals.set (hkey "math" (by decide)) (hplace 0)).set (hkey "string" (by decide))
      (hplace 1)).set (hkey "table" (by decide)) (hplace 2)
  · exact (hmath.set (hkey "pi" (by decide)) (admits_number _)).set (hkey "huge" (by decide))
      (admits_number _)
  · exact hstring
  · exact htable

/-- A script can begin in any style. -/
theorem machine_admitted : (style.vocabulary haddress).AdmitsMachine style.machine :=
  ⟨tables_admitted haddress, fun scope hscope => (Array.not_mem_empty scope hscope).elim,
    fun c hc => (Array.not_mem_empty c hc).elim⟩

end Style

end Script

end PixelEffects
