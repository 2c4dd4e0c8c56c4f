import Mathlib.Data.List.Forall2
import PixelEffects.Proofs.Package.Metadata

/-!
# Ways to Write Lists

Four ways to write a list in metadata that come to the same.

A list stands behind its key on one line, with brackets or without; or it is spread over several
lines, which have the key each, or a dash each under a line with the key alone. An item may be in
quotes in all of them. Lines that say nothing may stand between the others.

What comes of a way to write a list is a draft with the items at the end of one of its lists. The
only trace of the way is the list that is open behind it, and that is seen by items alone. If the
next line that says something is not one of these, it is the same for all that follows.

## Main definitions

* `IsItem`, `WritesItem`: Items, and the texts that write them.
* `KeyLine`, `DashLine`, `isSilent`: The lines that lists are made of.
* `Spells`: The lines that write a list.
* `NoItemNext`: Lines of which the first that says something is not an item.
* `Draft.closed`: What was read so far, without the list that is open.

## Theorems

* `Metadata.items_commas`, `Metadata.items_brackets`: The items on one line.
* `Draft.addAll?_each`: Lines with one item each.
* `Draft.addAll?_spells`: A list, however it is written.
* `Draft.addAll?_closed`: What follows does not see whether a list was left open.
* `Metadata.parse_of_spells`: A list with nothing around it.
* `Metadata.parse_spells`: Lists that are written in two ways.
-/

namespace PixelEffects

/-- The text that a key for a list is written with. -/
def ListKey.text : ListKey → String
  | preload => "preload"
  | files => "files"

/-- A text that can be an item in each of the ways to write a list. -/
structure IsItem (item : List Char) : Prop where
  nonempty : item ≠ []
  trimmed : Text.trim item = item
  plain : ∀ c ∈ [',', '\n', '[', ']', '"', '\''], c ∉ item

/-- A text writes an item, in quotes or without them, and there may be blanks around. -/
def WritesItem (item text : List Char) : Prop :=
  Text.trim text = item ∨ Text.trim text = '"' :: (item ++ ['"']) ∨
    Text.trim text = '\'' :: (item ++ ['\''])

/-- A line with a key and a value, where the key may be in any letter case. -/
def KeyLine (key : ListKey) (value raw : List Char) : Prop :=
  ∃ name, raw = name ++ ':' :: value ∧ (Text.trim name).map Char.toLower = key.text.toList

/-- A line with a dash and a text. -/
def DashLine (text raw : List Char) : Prop :=
  ∃ front, Text.AllBlank front ∧ raw = front ++ '-' :: text

/-- Whether a line is blank or a comment. -/
def isSilent (raw : List Char) : Bool :=
  match Text.trim raw with
  | [] => true
  | c :: _ => c == '#'

/-- The lines that write a list of items. -/
inductive Spells (key : ListKey) (items : List (List Char)) : List (List Char) → Prop
  /-- One line with commas. -/
  | commas {texts : List (List Char)} {raw : List Char}
      (hraw : KeyLine key ([','].intercalate texts) raw)
      (htexts : List.Forall₂ WritesItem items texts) : Spells key items [raw]
  /-- One line with brackets around the same. -/
  | brackets {texts : List (List Char)} {front back raw : List Char}
      (hfront : Text.AllBlank front) (hback : Text.AllBlank back)
      (hraw : KeyLine key (front ++ ('[' :: ([','].intercalate texts ++ [']'])) ++ back) raw)
      (htexts : List.Forall₂ WritesItem items texts) : Spells key items [raw]
  /-- One line with the key for each item. -/
  | repeated {raws : List (List Char)}
      (hraws : List.Forall₂ (fun item raw => ∃ text, KeyLine key text raw ∧ WritesItem item text)
        items (raws.filter (!isSilent ·))) : Spells key items raws
  /-- A line with the key alone, then one with a dash for each item. -/
  | dashes {value raw : List Char} {raws : List (List Char)}
      (hraw : KeyLine key value raw) (hvalue : Text.AllBlank value)
      (hraws : List.Forall₂ (fun item raw => ∃ text, DashLine text raw ∧ WritesItem item text)
        items (raws.filter (!isSilent ·))) : Spells key items (raw :: raws)

/-- The first line that says something is not an item. -/
def NoItemNext (lines : List (List Char)) : Prop :=
  ∀ raw, lines.find? (!isSilent ·) = some raw → (Text.trim raw).head? ≠ some '-'

/-! ## Items on one line -/

namespace Metadata

theorem between?_append (first last : Char) (inner : List Char) :
    between? first last (first :: (inner ++ [last])) = some inner := by
  simp [between?]

theorem between?_of_not_mem {first : Char} {text : List Char} (h : first ∉ text) (last : Char) :
    between? first last text = none := by
  cases text with
  | nil => rfl
  | cons c rest =>
      have hne : (c == first) = false := beq_false_of_ne fun heq => h (heq ▸ List.mem_cons_self)
      unfold between?
      dsimp only
      split
      · rw [hne]
        rfl
      · rfl

/-- Quotes are taken off, and an item is what is left. -/
theorem unquote_of_writesItem {item text : List Char} (hitem : IsItem item)
    (h : WritesItem item text) : unquote (Text.trim text) = item := by
  unfold unquote
  rcases h with h | h | h
  · rw [h, between?_of_not_mem (hitem.plain '"' (by decide)),
      between?_of_not_mem (hitem.plain '\'' (by decide))]
    rfl
  · rw [h, between?_append]
  · have hnot : '"' ∉ '\'' :: (item ++ ['\'']) := by
      simpa using hitem.plain '"' (by decide)
    rw [h, between?_of_not_mem hnot, between?_append]
    rfl

/-- A text that writes an item has no other signs in it than the item, except for quotes. -/
theorem not_mem_of_writesItem {item text : List Char} (h : WritesItem item text) {c : Char}
    (hblank : Text.isBlank c = false) (hitem : c ∉ item) (hdouble : c ≠ '"') (hsingle : c ≠ '\'') :
    c ∉ text := by
  rw [← Text.mem_trim hblank]
  rcases h with h | h | h
  · rwa [h]
  · rw [h]
    simpa [hdouble] using hitem
  · rw [h]
    simpa [hsingle] using hitem

variable {key : ListKey} {items texts : List (List Char)}

theorem not_mem_of_forall₂ (hitems : ∀ item ∈ items, IsItem item)
    (h : List.Forall₂ WritesItem items texts) {c : Char} (hblank : Text.isBlank c = false)
    (hplain : c ∈ [',', '[']) : ∀ text ∈ texts, c ∉ text := by
  have hcases : c = ',' ∨ c = '[' := by simpa using hplain
  induction h with
  | nil => exact fun _ htext => (List.not_mem_nil htext).elim
  | cons hwrites _ ih =>
      rcases List.forall_mem_cons.mp hitems with ⟨hitem, hothers⟩
      refine List.forall_mem_cons.mpr ⟨?_, ih hothers⟩
      rcases hcases with rfl | rfl
      · exact not_mem_of_writesItem hwrites hblank (hitem.plain _ (by decide)) (by decide)
          (by decide)
      · exact not_mem_of_writesItem hwrites hblank (hitem.plain _ (by decide)) (by decide)
          (by decide)

/-- The texts between commas, if they write items. -/
theorem items_of_forall₂ (hitems : ∀ item ∈ items, IsItem item)
    (h : List.Forall₂ WritesItem items texts) :
    (texts.map Text.trim).map unquote = items ∧ items.filter (!·.isEmpty) = items := by
  induction h with
  | nil => exact ⟨rfl, rfl⟩
  | cons hwrites _ ih =>
      rcases List.forall_mem_cons.mp hitems with ⟨hitem, hothers⟩
      rcases ih hothers with ⟨htexts, hkept⟩
      constructor
      · rw [List.map_cons, List.map_cons, unquote_of_writesItem hitem hwrites, htexts]
      · rw [List.filter_cons_of_pos (by simpa using hitem.nonempty), hkept]

/-- The items of a line, if the texts between the commas on it write items. -/
theorem items_of_splitAll {value : List Char} (hitems : ∀ item ∈ items, IsItem item)
    (h : List.Forall₂ WritesItem items texts) (inner : List Char)
    (hinner : (between? '[' ']' (Text.trim value)).getD (Text.trim value) = inner)
    (hparts : (Text.splitAll ',' inner).map Text.trim = texts.map Text.trim) :
    Metadata.items value = items.map String.ofList := by
  rcases items_of_forall₂ hitems h with ⟨htexts, hkept⟩
  have hunquoted :
      (Text.splitAll ',' inner).map (fun part => unquote (Text.trim part)) = items := by
    rw [← htexts, ← hparts, List.map_map]
    rfl
  unfold Metadata.items
  dsimp only
  rw [hinner, hunquoted, hkept]

theorem items_congr {value value' : List Char} (h : Text.trim value = Text.trim value') :
    Metadata.items value = Metadata.items value' := by
  unfold Metadata.items
  rw [h]

/-- The texts are there again if what was put together with commas is taken apart. -/
theorem splitAll_of_forall₂ (hsome : items ≠ []) (hitems : ∀ item ∈ items, IsItem item)
    (h : List.Forall₂ WritesItem items texts) :
    Text.splitAll ',' ([','].intercalate texts) = texts := by
  refine Text.splitAll_intercalate (fun hnil => ?_)
    (not_mem_of_forall₂ hitems h (by decide) (by decide))
  rw [hnil] at h
  exact hsome (List.forall₂_nil_right_iff.mp h)

/-- Items with commas between them. -/
theorem items_commas (hsome : items ≠ []) (hitems : ∀ item ∈ items, IsItem item)
    (h : List.Forall₂ WritesItem items texts) :
    Metadata.items ([','].intercalate texts) = items.map String.ofList := by
  -- Without an opening bracket there is none to be taken off.
  have hbracket : '[' ∉ Text.trim ([','].intercalate texts) := by
    rw [Text.mem_trim (by decide)]
    intro hmem
    rcases Text.mem_of_mem_intercalate hmem with heq | ⟨text, htext, hmem⟩
    · exact absurd heq (by decide)
    · exact not_mem_of_forall₂ hitems h (by decide) (by decide) text htext hmem
  refine items_of_splitAll hitems h (Text.trim ([','].intercalate texts)) ?_ ?_
  · rw [between?_of_not_mem hbracket]
    rfl
  · rw [Text.splitAll_trim (by decide), splitAll_of_forall₂ hsome hitems h]

/-- Items with commas between them and brackets around. -/
theorem items_brackets (hsome : items ≠ []) (hitems : ∀ item ∈ items, IsItem item)
    (h : List.Forall₂ WritesItem items texts) {front back : List Char}
    (hfront : Text.AllBlank front) (hback : Text.AllBlank back) :
    Metadata.items (front ++ ('[' :: ([','].intercalate texts ++ [']'])) ++ back) =
      items.map String.ofList := by
  have htrim : Text.trim ('[' :: ([','].intercalate texts ++ [']'])) =
      '[' :: ([','].intercalate texts ++ [']']) := by
    have hopen := Text.trim_append_cons (c := '[') (by decide) []
      ([','].intercalate texts ++ [']'])
    rw [List.nil_append] at hopen
    rw [hopen, Text.trimEnd_append_cons (by decide)]
    rfl
  refine items_of_splitAll hitems h ([','].intercalate texts) ?_ ?_
  · rw [Text.trim_append hfront hback, htrim, between?_append]
    rfl
  · rw [splitAll_of_forall₂ hsome hitems h]

/-- An item that is alone. -/
theorem items_single {item text : List Char} (hitem : IsItem item) (h : WritesItem item text) :
    Metadata.items text = [String.ofList item] := by
  have hitems : Metadata.items ([','].intercalate [text]) = [item].map String.ofList :=
    items_commas (List.cons_ne_nil _ _) (fun _ hmem => List.mem_singleton.mp hmem ▸ hitem)
      (.cons h .nil)
  rwa [List.intercalate_singleton] at hitems

end Metadata

/-! ## Lines -/

/-- What a key is written with has no sign in it that has a meaning on a line. -/
theorem ListKey.not_mem_text (key : ListKey) {name : List Char}
    (h : (Text.trim name).map Char.toLower = key.text.toList) {c : Char}
    (hc : c = ':' ∨ c = '#' ∨ c = '-') : c ∉ Text.trim name := by
  intro hmem
  have hlower : c.toLower ∈ key.text.toList := by
    rw [← h]
    exact List.mem_map_of_mem hmem
  rcases hc with rfl | rfl | rfl <;> cases key <;> exact absurd hlower (by decide)

theorem MetadataKey.ofText_listKey {key : ListKey} {text : List Char}
    (h : text.map Char.toLower = key.text.toList) : ofText text = .list key := by
  unfold ofText
  rw [h, String.ofList_toList]
  cases key <;> rfl

namespace MetadataLine

theorem read_keyLine {key : ListKey} {value raw : List Char} (h : KeyLine key value raw) :
    read raw = .entry (.list key) (Text.trim value) := by
  rcases h with ⟨name, rfl, hname⟩
  rcases Text.exists_trimStart name with ⟨back, hback, hstart⟩
  have hcolon : ':' ∉ Text.trimStart name := by
    rw [hstart, List.mem_append, not_or]
    exact ⟨key.not_mem_text hname (.inl rfl), Text.not_mem_of_allBlank (by decide) hback⟩
  cases htrim : Text.trim name with
  | nil =>
      rw [htrim] at hname
      cases key <;> cases hname
  | cons c rest =>
      have hhash : c ≠ '#' := fun heq =>
        key.not_mem_text hname (.inr (.inl heq)) (htrim ▸ List.mem_cons_self)
      have hdash : c ≠ '-' := fun heq =>
        key.not_mem_text hname (.inr (.inr heq)) (htrim ▸ List.mem_cons_self)
      have hline : Text.trim (name ++ ':' :: value) =
          c :: (rest ++ back ++ ':' :: Text.trimEnd value) := by
        rw [Text.trim_append_cons (by decide), hstart, htrim]
        rfl
      have hsplit : Text.splitOnce ':' (c :: (rest ++ back ++ ':' :: Text.trimEnd value)) =
          some (Text.trimStart name, Text.trimEnd value) := by
        have hfirst := Text.splitOnce_append hcolon (Text.trimEnd value)
        rw [hstart, htrim] at hfirst ⊢
        exact hfirst
      have hkey : MetadataKey.ofText (Text.trim (Text.trimStart name)) = .list key := by
        rw [Text.trim_trimStart]
        exact MetadataKey.ofText_listKey hname
      unfold read
      rw [hline]
      split
      · next heq => cases heq
      · next heq => exact absurd (List.cons.inj heq).1 hhash
      · next heq => exact absurd (List.cons.inj heq).1 hdash
      · rw [hsplit]
        dsimp only
        rw [hkey, Text.trim_trimEnd]

theorem read_dashLine {text raw : List Char} (h : DashLine text raw) :
    read raw = .item (Text.trimEnd text) := by
  rcases h with ⟨front, hfront, rfl⟩
  have hline : Text.trim (front ++ '-' :: text) = '-' :: Text.trimEnd text := by
    rw [Text.trim_append_cons (by decide), Text.trimStart_allBlank hfront]
    rfl
  unfold read
  rw [hline]
  rfl

theorem isSilent_iff {raw : List Char} : isSilent raw = true ↔ read raw = .nothing := by
  unfold isSilent read
  constructor
  · intro h
    split at h
    · next hnil => rw [hnil]
    · next c rest hcons =>
        rw [hcons, beq_iff_eq.mp h]
        rfl
  · intro h
    split at h
    · next hnil => rw [hnil]
    · next hhash => rw [hhash]; rfl
    · cases h
    · split at h <;> cases h

theorem read_ne_item {raw : List Char} (h : (Text.trim raw).head? ≠ some '-') (text : List Char) :
    read raw ≠ .item text := by
  unfold read
  split
  · nofun
  · nofun
  · next hdash =>
      rw [hdash] at h
      exact absurd rfl h
  · split <;> nofun

end MetadataLine

/-! ## Drafts -/

namespace Draft

/-- What was read so far, without the list that is open. -/
def closed (d : Draft) : Draft :=
  { d with openList := none }

variable {d d' : Draft} {key : ListKey}

theorem closed_extend (d : Draft) (key : ListKey) (items : List String) :
    (d.extend key items).closed = d.closed.extend key items := by
  cases key <;> rfl

theorem openList_extend (d : Draft) (key : ListKey) (items : List String) :
    (d.extend key items).openList = d.openList := by
  cases key <;> rfl

theorem extend_extend (d : Draft) (key : ListKey) (items more : List String) :
    (d.extend key items).extend key more = d.extend key (items ++ more) := by
  cases key with
  | preload => simp [extend]
  | files => simp [extend]

/-- Items that are added one by one. -/
theorem foldl_extend (d : Draft) (key : ListKey) (start : List String)
    (items : List (List Char)) :
    items.foldl (fun d item => d.extend key [String.ofList item]) (d.extend key start) =
      d.extend key (start ++ items.map String.ofList) := by
  induction items generalizing start with
  | nil => rw [List.foldl_nil, List.map_nil, List.append_nil]
  | cons item items ih =>
      rw [List.foldl_cons, extend_extend, ih, List.map_cons, List.append_assoc,
        List.singleton_append]

theorem add?_of_isSilent {raw : List Char} (h : isSilent raw = true) (d : Draft) (number : Nat) :
    d.add? number raw = .ok d := by
  unfold add?
  rw [MetadataLine.isSilent_iff.mp h]

/-- A line with a key and items adds them, and no list is open behind it. -/
theorem add?_keyLine {value raw : List Char} {items : List String} (h : KeyLine key value raw)
    (hvalue : Metadata.items value = items) (hsome : items ≠ []) (d : Draft) (number : Nat) :
    d.add? number raw = .ok (d.closed.extend key items) := by
  have hitems : Metadata.items (Text.trim value) = items :=
    (Metadata.items_congr (Text.trim_trim value)).trans hvalue
  have hnonempty : (Text.trim value).isEmpty = false := by
    cases htrim : Text.trim value with
    | nil =>
        rw [htrim] at hitems
        exact absurd hitems.symm hsome
    | cons => rfl
  unfold add?
  rw [MetadataLine.read_keyLine h]
  simp only [addEntry, hnonempty, Bool.false_eq_true, if_false, hitems]
  rfl

/-- A line with a key alone opens the list. -/
theorem add?_keyLine_alone {value raw : List Char} (h : KeyLine key value raw)
    (hvalue : Text.AllBlank value) (d : Draft) (number : Nat) :
    d.add? number raw = .ok { d.closed.extend key [] with openList := some key } := by
  unfold add?
  rw [MetadataLine.read_keyLine h, Text.trim_allBlank hvalue]
  rfl

theorem add?_dashLine {text raw : List Char} (h : DashLine text raw)
    (hopen : d.openList = some key) (number : Nat) :
    d.add? number raw = .ok (d.extend key (Metadata.items text)) := by
  unfold add?
  rw [MetadataLine.read_dashLine h, hopen, ← Metadata.items_congr (Text.trim_trimEnd text)]

/-- Lines that each add one item, with silent lines between them. Before each there is a draft with
    the property that they rely on. -/
theorem addAll?_each (key : ListKey) (Ready : Draft → Prop)
    {Adds : List Char → List Char → Prop} {items raws : List (List Char)}
    (hadd : ∀ item ∈ items, ∀ raw d number, Adds item raw → Ready d → ∃ d',
      d.add? number raw = .ok d' ∧ Ready d' ∧ d'.closed = d.closed.extend key [String.ofList item])
    (hraws : List.Forall₂ Adds items (raws.filter (!isSilent ·))) (d : Draft) (hready : Ready d)
    (number : Nat) : ∃ d', d.addAll? number raws = .ok d' ∧
      d'.closed = items.foldl (fun d item => d.extend key [String.ofList item]) d.closed := by
  induction raws generalizing d items number with
  | nil =>
      cases hraws
      exact ⟨d, rfl, rfl⟩
  | cons raw raws ih =>
      by_cases hsilent : isSilent raw = true
      · rw [List.filter_cons_of_neg (by simp [hsilent])] at hraws
        rw [addAll?, add?_of_isSilent hsilent]
        exact ih hadd hraws d hready (number + 1)
      · rw [List.filter_cons_of_pos (by simpa using hsilent)] at hraws
        cases hraws with
        | @cons item _ items _ hfirst hothers =>
            rcases List.forall_mem_cons.mp hadd with ⟨haddFirst, haddOthers⟩
            rcases haddFirst raw d number hfirst hready with ⟨between, hbetween, hready', hclosed⟩
            rcases ih haddOthers hothers between hready' (number + 1) with ⟨d', hd', hclosed'⟩
            refine ⟨d', ?_, ?_⟩
            · rw [addAll?, hbetween]
              exact hd'
            · rw [hclosed', hclosed, List.foldl_cons]

/-- A list adds its items, however it is written. -/
theorem addAll?_spells {items raws : List (List Char)} (hsome : items ≠ [])
    (hitems : ∀ item ∈ items, IsItem item) (h : Spells key items raws) (d : Draft)
    (number : Nat) : ∃ d', d.addAll? number raws = .ok d' ∧
      d'.closed = d.closed.extend key (items.map String.ofList) := by
  have hsome' : items.map String.ofList ≠ [] := fun hnil => hsome (List.map_eq_nil_iff.mp hnil)
  cases h with
  | commas hraw htexts =>
      have hadd := add?_keyLine hraw (Metadata.items_commas hsome hitems htexts) hsome' d number
      refine ⟨_, ?_, closed_extend d.closed key _⟩
      rw [addAll?, hadd]
      rfl
  | brackets hfront hback hraw htexts =>
      have hadd := add?_keyLine hraw (Metadata.items_brackets hsome hitems htexts hfront hback)
        hsome' d number
      refine ⟨_, ?_, closed_extend d.closed key _⟩
      rw [addAll?, hadd]
      rfl
  | repeated hraws =>
      have hadd := addAll?_each key (fun _ => True) ?_ hraws d trivial number
      · rcases hadd with ⟨d', hd', hclosed⟩
        refine ⟨d', hd', ?_⟩
        -- There is a first item, and with it the list is there to which the others are added.
        cases items with
        | nil => exact absurd rfl hsome
        | cons item items =>
            rw [hclosed, List.foldl_cons, foldl_extend, List.map_cons, List.singleton_append]
      · rintro item hmem raw d number ⟨text, hraw, hwrites⟩ -
        exact ⟨_, add?_keyLine hraw (Metadata.items_single (hitems item hmem) hwrites)
          (List.cons_ne_nil _ _) d number, trivial, closed_extend d.closed key _⟩
  | @dashes value raw raws hraw hvalue hraws =>
      -- The key alone adds nothing, but the list is there from then on, and it is open.
      have hadd := addAll?_each key (fun d => d.openList = some key) ?_ hraws
        { d.closed.extend key [] with openList := some key } rfl (number + 1)
      · rcases hadd with ⟨d', hd', hclosed⟩
        refine ⟨d', ?_, ?_⟩
        · rw [addAll?, add?_keyLine_alone hraw hvalue]
          exact hd'
        · have hstart : ({ d.closed.extend key [] with openList := some key } : Draft).closed =
              d.closed.extend key [] := closed_extend d.closed key []
          rw [hclosed, hstart, foldl_extend, List.nil_append]
      · rintro item hmem raw d number ⟨text, hraw, hwrites⟩ hopen
        rw [← Metadata.items_single (hitems item hmem) hwrites]
        exact ⟨_, add?_dashLine hraw hopen number, (openList_extend ..).trans hopen,
          closed_extend d key _⟩

/-! ## What follows -/

/-- Lines are counted for the sake of errors alone. -/
theorem toOption_addAll? (d : Draft) (number number' : Nat) (lines : List (List Char)) :
    (d.addAll? number lines).toOption = (d.addAll? number' lines).toOption := by
  induction lines generalizing d number number' with
  | nil => rfl
  | cons raw lines ih =>
      have hfirst : (d.add? number raw).toOption = (d.add? number' raw).toOption := by
        unfold add?
        cases MetadataLine.read raw with
        | item => cases d.openList <;> rfl
        | _ => rfl
      rw [addAll?, addAll?]
      cases hadd : d.add? number raw with
      | ok between =>
          cases hadd' : d.add? number' raw with
          | ok between' =>
              rw [hadd, hadd'] at hfirst
              cases hfirst
              exact ih between (number + 1) (number' + 1)
          | error cause =>
              rw [hadd, hadd'] at hfirst
              cases hfirst
      | error cause =>
          cases hadd' : d.add? number' raw with
          | ok between' =>
              rw [hadd, hadd'] at hfirst
              cases hfirst
          | error cause' => rfl

/-- A line that is not an item does not see the list that is open. -/
theorem add?_closed (h : d.closed = d'.closed) {raw : List Char} (hsilent : isSilent raw = false)
    (hitem : (Text.trim raw).head? ≠ some '-') (number : Nat) :
    d.add? number raw = d'.add? number raw := by
  unfold add?
  cases hread : MetadataLine.read raw with
  | nothing =>
      rw [MetadataLine.isSilent_iff.mpr hread] at hsilent
      cases hsilent
  | item text => exact absurd hread (MetadataLine.read_ne_item hitem text)
  | entry key value =>
      have hentry : d.addEntry key value = d'.addEntry key value := by
        unfold addEntry
        rw [show ({ d with openList := none } : Draft) = { d' with openList := none } from h]
      exact congrArg Except.ok hentry
  | other text => rfl

/-- If the first line that says something is not an item, what follows does not see the list that is
    open. -/
theorem addAll?_closed (h : d.closed = d'.closed) {lines : List (List Char)}
    (hlines : NoItemNext lines) (number number' : Nat) :
    (d.addAll? number lines).toOption.map closed =
      (d'.addAll? number' lines).toOption.map closed := by
  induction lines generalizing number number' with
  | nil => exact congrArg some h
  | cons raw lines ih =>
      by_cases hsilent : isSilent raw = true
      · have hrest : NoItemNext lines := by
          unfold NoItemNext at hlines
          rwa [List.find?_cons_of_neg (by simp [hsilent])] at hlines
        rw [addAll?, addAll?, add?_of_isSilent hsilent, add?_of_isSilent hsilent]
        exact ih hrest (number + 1) (number' + 1)
      · -- An entry closes the list in both, and from there on they are the same draft.
        have hitem := hlines raw (List.find?_cons_of_pos (by simpa using hsilent))
        rw [toOption_addAll? d' number' number, addAll?, addAll?,
          add?_closed h (Bool.not_eq_true _ ▸ hsilent) hitem]

end Draft

namespace Metadata

theorem toOption_parse (id text : String) : (parse id text).toOption =
    ((Draft.empty.addAll? 1 (Text.lines text.toList)).toOption.map Draft.closed).map
      (Draft.finish · id) := by
  unfold parse
  cases Draft.empty.addAll? 1 (Text.lines text.toList) <;> rfl

/-- A text with nothing in it but a list has the items of the list. -/
theorem parse_of_spells (id : String) {key : ListKey} {items raws : List (List Char)}
    (hsome : items ≠ []) (hitems : ∀ item ∈ items, IsItem item) (h : Spells key items raws)
    {text : String} (htext : Text.lines text.toList = raws) :
    parse id text = .ok ((Draft.empty.extend key (items.map String.ofList)).finish id) := by
  rcases Draft.addAll?_spells hsome hitems h Draft.empty 1 with ⟨d, hd, hclosed⟩
  have hfinish :
      d.closed.finish id = (Draft.empty.extend key (items.map String.ofList)).finish id :=
    congrArg (Draft.finish · id) hclosed
  unfold parse
  rw [htext, hd, ← hfinish]
  rfl

/-- What a text says with a list in it does not depend on how the list is written, if the first line
    behind it that says something is not an item. -/
theorem parse_spells (id : String) {key : ListKey} {items : List (List Char)}
    (hsome : items ≠ []) (hitems : ∀ item ∈ items, IsItem item) {raws raws' : List (List Char)}
    (h : Spells key items raws) (h' : Spells key items raws') {before after : List (List Char)}
    (hafter : NoItemNext after) {text text' : String}
    (htext : Text.lines text.toList = before ++ raws ++ after)
    (htext' : Text.lines text'.toList = before ++ raws' ++ after) :
    (parse id text).toOption = (parse id text').toOption := by
  rw [toOption_parse, toOption_parse, htext, htext', List.append_assoc, List.append_assoc]
  cases hbefore : Draft.empty.addAll? 1 before with
  | error cause =>
      rw [Draft.addAll?_append_error hbefore, Draft.addAll?_append_error hbefore]
  | ok d =>
      rcases Draft.addAll?_spells hsome hitems h d (1 + before.length) with ⟨d₁, hd₁, hclosed₁⟩
      rcases Draft.addAll?_spells hsome hitems h' d (1 + before.length) with ⟨d₂, hd₂, hclosed₂⟩
      rw [Draft.addAll?_append hbefore, Draft.addAll?_append hbefore, Draft.addAll?_append hd₁,
        Draft.addAll?_append hd₂]
      exact congrArg (Option.map (Draft.finish · id))
        (Draft.addAll?_closed (hclosed₁.trans hclosed₂.symm) hafter _ _)

/-- Items with signs in them that mean something elsewhere, with commas and with dashes. -/
theorem parse_spells_commas_dashes :
    (parse "p" "files: x\npreload: a:b , '-c'\nauthor: y\n").toOption =
        (parse "p" "files: x\nPreload :\n- a:b\n# more\n\n  --c\nauthor: y\n").toOption ∧
      parse "p" "files: x\npreload: a:b , '-c'\nauthor: y\n" =
        .ok ⟨"p", "p", "0.0.0", "y", "", ["a:b", "-c"], some ["x"]⟩ := by
  have hitems : ∀ item ∈ ["a:b".toList, "-c".toList], IsItem item := by
    intro item hitem
    rw [List.mem_cons, List.mem_singleton] at hitem
    rcases hitem with rfl | rfl
    · exact ⟨by decide, rfl, by simp⟩
    · exact ⟨by decide, rfl, by simp⟩
  have htexts : List.Forall₂ WritesItem ["a:b".toList, "-c".toList]
      [" a:b ".toList, " '-c'".toList] :=
    .cons (.inl rfl) (.cons (.inr (.inr rfl)) .nil)
  have hcommas : Spells .preload ["a:b".toList, "-c".toList] ["preload: a:b , '-c'".toList] :=
    .commas ⟨"preload".toList, rfl, rfl⟩ htexts
  have hdashes : Spells .preload ["a:b".toList, "-c".toList]
      ("Preload :".toList :: ["- a:b".toList, "# more".toList, [], "  --c".toList]) :=
    .dashes ⟨"Preload ".toList, rfl, rfl⟩ Text.allBlank_nil
      (.cons ⟨" a:b".toList, ⟨[], Text.allBlank_nil, rfl⟩, .inl rfl⟩
        (.cons ⟨"-c".toList, ⟨"  ".toList, List.all_eq_true.mp rfl, rfl⟩, .inl rfl⟩ .nil))
  have hafter : NoItemNext ["author: y".toList] := by
    intro raw hraw
    cases hraw
    decide
  have hlines : Text.lines "files: x\npreload: a:b , '-c'\nauthor: y\n".toList =
      ["files: x".toList] ++ ["preload: a:b , '-c'".toList] ++ ["author: y".toList] := rfl
  exact ⟨parse_spells "p" (List.cons_ne_nil _ _) hitems hcommas hdashes hafter hlines rfl, rfl⟩

end Metadata

end PixelEffects
