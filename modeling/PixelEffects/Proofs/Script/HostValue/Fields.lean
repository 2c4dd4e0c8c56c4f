import PixelEffects.Proofs.Number.Numeral
import PixelEffects.Proofs.Script.Table
import PixelEffects.Script.HostValue

/-!
# Fields of Records

Which entry of a table a field of its record comes from.

Every key of a table becomes the name of a field, and two keys can become the same name: the number 1
and the text "1" do. Then the later one counts. A name that is no numeral and neither "true" nor "false"
is out of that. Only the text key itself becomes such a name, so the field holds what the table has under
that key, and nothing else in the table has a part in it.

## Main definitions

* `HostValue.TextOnly`: A name that only its own text becomes.

## Theorems

* `HostValue.lookup_collect`: Of two fields with one name the later counts.
* `HostValue.field?_ofScript`: Where a field with such a name comes from.
* `Numeral.scriptText_ne_letter`: A letter alone is no numeral.
-/

namespace PixelEffects

/-! ## Numerals that are a letter -/

namespace Numeral

theorem isAlpha_of_isDigit {c : Char} (h : c.isDigit = true) : c.isAlpha = false := by
  have halpha : c.isAlpha = (decide ('A' ≤ c ∧ c ≤ 'Z') || (decide ('a' ≤ c) && decide (c ≤ 'z'))) :=
    rfl
  have hdigit : c.isDigit = (decide ('0' ≤ c) && decide (c ≤ '9')) := rfl
  have hle {a b : Char} (hab : a ≤ b) : a.toNat ≤ b.toNat := UInt32.le_iff_toNat_le.mp hab
  simp only [hdigit, Bool.and_eq_true, decide_eq_true_eq] at h
  have hnine : c.toNat ≤ 57 := hle h.2
  refine Bool.eq_false_iff.mpr fun hc => ?_
  simp only [halpha, Bool.or_eq_true, Bool.and_eq_true, decide_eq_true_eq] at hc
  rcases hc with ⟨hupper, _⟩ | ⟨hlower, _⟩
  · have hfrom : 65 ≤ c.toNat := hle hupper
    omega
  · have hfrom : 97 ≤ c.toNat := hle hlower
    omega

/-- A letter alone is no numeral. The names of special values have several. -/
theorem scriptText_ne_letter (x : Float) {c : Char} (hc : c.isAlpha = true) :
    scriptText x ≠ String.singleton c := by
  have hspecial : ∀ s ∈ ["nan", "0", "-inf", "inf"], s.toList ≠ [c] := by
    intro s hs heq
    have hall : ∀ s ∈ ["nan", "0", "-inf", "inf"], s.toList.length = 1 → s = "0" := by decide
    cases hall s hs (by rw [heq]; rfl)
    cases heq
    cases hc
  have hlayout : ∀ d : Decimal, layout d ≠ [c] := by
    intro d hd
    have hplain : c.isAlpha = false :=
      of_mem_layout (fun _ => isAlpha_of_isDigit) rfl (hd ▸ List.mem_singleton_self c)
    rw [hc] at hplain
    cases hplain
  suffices (scriptText x).toList ≠ [c] from fun h => this (by rw [h, String.toList_singleton])
  unfold scriptText positional withSign
  split
  · exact hspecial "nan" (by decide)
  · split
    · exact hspecial "0" (by decide)
    · split
      · split
        · exact hspecial "-inf" (by decide)
        · exact hspecial "inf" (by decide)
      · rw [String.toList_ofList]
        dsimp only
        split
        · intro h
          cases List.head_eq_of_cons_eq h
          cases hc
        · exact hlayout _

end Numeral

namespace Script

namespace HostValue

/-! ## Lookup in a record -/

theorem getElem?_foldl_insert {β : Type} (fields : List (String × β)) (m : Std.TreeMap String β)
    (name : String) : (fields.foldl (fun m f => m.insert f.1 f.2) m)[name]? =
      (fields.reverse.lookup name).or m[name]? := by
  induction fields generalizing m with
  | nil => rfl
  | cons f fields ih =>
      have hlast : [f].lookup name = if f.1 = name then some f.2 else none := by
        rw [List.lookup_cons]
        by_cases hname : f.1 = name
        · rw [if_pos hname, beq_iff_eq.mpr hname.symm]
        · rw [if_neg hname, beq_eq_false_iff_ne.mpr (Ne.symm hname)]
          rfl
      rw [List.foldl_cons, ih, List.reverse_cons, List.lookup_append, Option.or_assoc,
        Std.TreeMap.getElem?_insert, hlast]
      simp only [Std.LawfulEqCmp.compare_eq_iff_eq]
      split <;> rfl

/-- A lookup finds an entry if there is no other with its name. -/
theorem lookup_of_unique {β : Type} {entries : List (String × β)} {name : String} {v : β}
    (h : (name, v) ∈ entries) (hunique : ∀ v', (name, v') ∈ entries → v' = v) :
    entries.lookup name = some v := by
  cases hfound : entries.lookup name with
  | none => exact absurd rfl (bne_iff_ne.mp (List.lookup_eq_none_iff.mp hfound _ h))
  | some v' =>
      rcases List.lookup_eq_some_iff.mp hfound with ⟨before, after, rfl, _⟩
      rw [hunique v' (List.mem_append_right _ List.mem_cons_self)]

theorem lookup_toList {β : Type} (m : Std.TreeMap String β) (name : String) :
    m.toList.lookup name = m[name]? := by
  cases hentry : m[name]? with
  | none =>
      refine List.lookup_eq_none_iff.mpr fun e he => bne_iff_ne.mpr fun hname => ?_
      have hsome : m[e.1]? = some e.2 := Std.TreeMap.mem_toList_iff_getElem?_eq_some.mp he
      rw [← hname, hentry] at hsome
      cases hsome
  | some v =>
      refine lookup_of_unique (Std.TreeMap.mem_toList_iff_getElem?_eq_some.mpr hentry) fun v' hv' => ?_
      have hsome := Std.TreeMap.mem_toList_iff_getElem?_eq_some.mp hv'
      rw [hentry] at hsome
      exact (Option.some.inj hsome).symm

/-- Of two fields with one name the later counts. -/
theorem lookup_collect (fields : List (String × HostValue)) (name : String) :
    (collect fields).lookup name = fields.reverse.lookup name := by
  rw [collect, lookup_toList, getElem?_foldl_insert, Std.TreeMap.getElem?_emptyc, Option.or_none]

/-! ## Where a field comes from -/

/-- A name that only its own text becomes. -/
def TextOnly (name : String) : Prop :=
  ∀ k, fieldName k = name → k = .text name

theorem textOnly_of_letter {c : Char} (hc : c.isAlpha = true) : TextOnly (String.singleton c) := by
  intro k hk
  cases k with
  | bool b =>
      have hchars := congrArg String.toList hk
      rw [String.toList_singleton] at hchars
      cases b <;> cases hchars
  | number x => exact absurd hk (Numeral.scriptText_ne_letter x hc)
  | text s => exact congrArg Key.text hk

/-- A field with such a name is what the table has under that name, taken out. -/
theorem field?_ofScript {name : String} (hname : TextOnly name) (heap : Heap) (depth : Nat)
    (id : TableId) : (ofScriptWithin heap (depth + 1) (.table id)).field? name =
      ((heap.table id).entries[Key.text name]?).map (ofScriptWithin heap depth) := by
  show (collect _).lookup name = _
  rw [lookup_collect]
  have hentry : ∀ {k : Key} {v : Value}, (k, v) ∈ (heap.table id).toList ↔
      (heap.table id).entries[k]? = some v := Std.TreeMap.mem_toList_iff_getElem?_eq_some
  -- An entry that becomes a field of that name is the one under the text.
  have hfield : ∀ v, (name, v) ∈ ((heap.table id).toList.map fun e =>
      (fieldName e.1, ofScriptWithin heap depth e.2)).reverse ↔
        ((heap.table id).entries[Key.text name]?).map (ofScriptWithin heap depth) = some v := by
    intro v
    rw [List.mem_reverse, List.mem_map, Option.map_eq_some_iff]
    constructor
    · rintro ⟨⟨k, value⟩, he, heq⟩
      cases heq
      rw [← hname k rfl]
      exact ⟨value, hentry.mp he, rfl⟩
    · rintro ⟨value, hvalue, rfl⟩
      exact ⟨(.text name, value), hentry.mpr hvalue, rfl⟩
  cases hfound : ((heap.table id).entries[Key.text name]?).map (ofScriptWithin heap depth) with
  | none =>
      refine List.lookup_eq_none_iff.mpr fun e he => bne_iff_ne.mpr fun heq => ?_
      have hsome := (hfield e.2).mp (heq ▸ he)
      rw [hfound] at hsome
      cases hsome
  | some v =>
      refine lookup_of_unique ((hfield v).mpr hfound) fun v' hv' => ?_
      have hsome := (hfield v').mp hv'
      rw [hfound] at hsome
      exact (Option.some.inj hsome).symm

end HostValue

end Script

end PixelEffects
