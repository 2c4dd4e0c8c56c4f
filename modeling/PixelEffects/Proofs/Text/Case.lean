import PixelEffects.Text.Case

/-!
# Lower Case is Final

A text in lower case stays as it is when it is put in lower case once more.

Ids are compared in lower case, and the id of a package is the name of its directory in lower case.
So it matters that this is done with after one time: otherwise a package could have an id that finds
another package.

Every character that a lower case is made of is left alone by the mapping. For the runs of the table
that is a statement about pairs: what one run gives lies outside of every run, or between the code
points of a run that takes every second one. The pairs are checked by evaluation, and everything
else is arithmetic.

## Main definitions

* `Case.Run.holds`, `Case.Run.clears`: The code points of a run, and that one run gives none of
  another.
* `Case.lowerCodes`: The code points that are in a table.
* `Case.untouched`: A code point that is in no table.

## Theorems

* `Case.mem_lowerAt`: What a lower case is made of has no other lower case.
* `Case.toLower_toLower`: Lower case is final.
* `Case.nul_not_mem_toLower`: No lower case brings in a NUL.
* `Case.mem_of_mem_toLower`, `Case.mem_toLower_of_mem`: Signs stay, and none is brought in.
* `Case.toLower_eq_self`: A lower case without letters was there before.
-/

namespace PixelEffects

namespace Case

/-- A run of a table: its first and last code point, its step, and its offset. -/
abbrev Run := Nat × Nat × Nat × Int

namespace Run

/-- Whether a code point is one of a run. -/
def holds (r : Run) (n : Nat) : Bool :=
  r.1 ≤ n && n ≤ r.2.1 && (n - r.1) % r.2.2.1 == 0

/-- What the first code point of a run is mapped to. -/
def low (r : Run) : Nat :=
  (r.1 + r.2.2.2).toNat

/-- What the last code point of a run is mapped to. -/
def high (r : Run) : Nat :=
  (r.2.1 + r.2.2.2).toNat

/-- What a run gives are characters, and none of them is the NUL. -/
def givesChars (r : Run) : Bool :=
  0 < r.low && (r.high < 0xD800 || 0xDFFF < r.low && r.high < 0x110000)

/-- Nothing that the run `r` gives is a code point of the run `t`: it lies before or behind it, or, if
    both take every second code point, between them. -/
def clears (r t : Run) : Bool :=
  r.high.blt t.1 || t.2.1.blt r.low ||
    ((r.2.2.1 == 2 || r.low == r.high) && t.2.2.1 == 2 && (r.low + t.1) % 2 == 1)

end Run

/-- All code points that are in a table for lower case, as runs. -/
def lowerCodes : List Run :=
  lowerRuns.toList ++ lowerExpansions.toList.map fun e => (e.1, e.1, 2, 0)

/-- Whether a code point is in no table for lower case. -/
def untouched (n : Nat) : Bool :=
  lowerCodes.all fun r => !Run.holds r n

/-! ## Tables -/

/-- What is checked of the tables by evaluation: what becomes of the characters before all of them, and
    of a capital sigma; where the code points are that are in a table; and that no expansion and no
    run gives one of these. -/
theorem lower_checked :
    (∀ n < 0x80, (Char.ofNat n).toLower.toNat < 0x80 ∧
      ¬(0x41 ≤ (Char.ofNat n).toLower.toNat ∧ (Char.ofNat n).toLower.toNat ≤ 0x5A) ∧
      (n ≠ 0 → (Char.ofNat n).toLower.toNat ≠ 0) ∧
      ((Char.ofNat n).toLower = Char.ofNat n ∨ 0x61 ≤ (Char.ofNat n).toLower.toNat)) ∧
    lowerOf 'Σ' = ['σ'] ∧
    (lowerCodes.all fun r => (r == (0x41, 0x5A, 1, 32) || Nat.ble 0x80 r.1) &&
      !Run.holds r 'ς'.toNat) = true ∧
    (lowerExpansions.toList.all fun e => !e.2.isEmpty &&
      e.2.all fun n => (Char.ofNat n).toNat == n && Nat.ble 0x61 n && untouched n) = true ∧
    (lowerRuns.toList.all fun r => Run.givesChars r && Nat.ble 0x61 (Run.low r) &&
      lowerCodes.all fun t => Run.clears r t) = true := by
  decide +kernel

theorem lowerOf_sigma : lowerOf 'Σ' = ['σ'] :=
  lower_checked.2.1

/-- The first run holds the capital letters, and all others are further up. -/
theorem ascii_of_mem_lowerCodes {r : Run} (h : r ∈ lowerCodes) :
    r = (0x41, 0x5A, 1, 32) ∨ 0x80 ≤ r.1 := by
  have hchecked := List.all_eq_true.mp lower_checked.2.2.1 r h
  rw [Bool.and_eq_true, Bool.or_eq_true, beq_iff_eq, Nat.ble_eq] at hchecked
  exact hchecked.1

theorem capitals_mem_lowerCodes : (0x41, 0x5A, 1, 32) ∈ lowerCodes :=
  List.mem_append_left _ List.mem_cons_self

/-- What a character becomes that is mapped to several. -/
theorem of_mem_lowerExpansions {e : Nat × List Nat} (h : e ∈ lowerExpansions.toList) :
    e.2 ≠ [] ∧
      ∀ n ∈ e.2, (Char.ofNat n).toNat = n ∧ 0x61 ≤ n ∧ untouched n = true := by
  have hchecked := List.all_eq_true.mp lower_checked.2.2.2.1 e h
  rw [Bool.and_eq_true, Bool.not_eq_true', List.isEmpty_eq_false_iff] at hchecked
  refine ⟨hchecked.1, fun n hn => ?_⟩
  have hn' := List.all_eq_true.mp hchecked.2 n hn
  rw [Bool.and_eq_true, Bool.and_eq_true, beq_iff_eq, Nat.ble_eq] at hn'
  exact ⟨hn'.1.1, hn'.1.2, hn'.2⟩

/-- What a run gives are small letters or come after them, and no other run has them. -/
theorem of_mem_lowerRuns {r : Run} (h : r ∈ lowerRuns.toList) :
    Run.givesChars r = true ∧ 0x61 ≤ Run.low r ∧
      ∀ t ∈ lowerCodes, Run.clears r t = true := by
  have hchecked := List.all_eq_true.mp lower_checked.2.2.2.2 r h
  rw [Bool.and_eq_true, Bool.and_eq_true, Nat.ble_eq] at hchecked
  exact ⟨hchecked.1.1, hchecked.1.2, List.all_eq_true.mp hchecked.2⟩

theorem untouched_sigma : untouched 'ς'.toNat = true := by
  refine List.all_eq_true.mpr fun r hr => ?_
  have hchecked := List.all_eq_true.mp lower_checked.2.2.1 r hr
  rw [Bool.and_eq_true] at hchecked
  exact hchecked.2

theorem untouched_of_ascii {n : Nat} (hascii : n < 0x80) (hcapital : ¬(0x41 ≤ n ∧ n ≤ 0x5A)) :
    untouched n = true := by
  refine List.all_eq_true.mpr fun r hr => ?_
  rw [Bool.not_eq_true', Run.holds, Bool.and_eq_false_iff, Bool.and_eq_false_iff,
    decide_eq_false_iff_not, decide_eq_false_iff_not]
  rcases ascii_of_mem_lowerCodes hr with rfl | hplace
  · dsimp only
    omega
  · omega

/-- No code point of another run can be found where a run leads. -/
theorem Run.not_holds_of_clears {r t : Run} (hpos : 0 < Run.low r) (h : Run.clears r t = true)
    {n : Nat} (hn : Run.holds r n = true) : Run.holds t (n + r.2.2.2).toNat = false := by
  rcases r with ⟨first, last, step, offset⟩
  rcases t with ⟨first', last', step', offset'⟩
  simp only [clears, Bool.or_eq_true, Bool.and_eq_true, beq_iff_eq, Nat.blt_eq] at h
  simp only [low, high] at h hpos
  simp only [holds, Bool.and_eq_true, beq_iff_eq, decide_eq_true_eq] at hn
  cases hholds : holds (first', last', step', offset') (n + offset).toNat with
  | false => rfl
  | true =>
      simp only [holds, Bool.and_eq_true, beq_iff_eq, decide_eq_true_eq] at hholds
      rcases h with (h | h) | ⟨⟨h | h, rfl⟩, hodd⟩
      · omega
      · omega
      · subst h
        omega
      · omega

theorem Run.toNat_ofNat {r : Run} (h : Run.givesChars r = true) {n : Nat}
    (hn : Run.holds r n = true) :
    (Char.ofNat (n + r.2.2.2).toNat).toNat = (n + r.2.2.2).toNat ∧ (n + r.2.2.2).toNat ≠ 0 := by
  rcases r with ⟨first, last, step, offset⟩
  simp only [givesChars, Bool.or_eq_true, Bool.and_eq_true, decide_eq_true_eq] at h
  simp only [low, high] at h
  simp only [holds, Bool.and_eq_true, beq_iff_eq, decide_eq_true_eq] at hn
  have hvalid : Nat.isValidChar (n + offset).toNat := by
    unfold Nat.isValidChar
    omega
  dsimp only
  refine ⟨?_, by omega⟩
  rw [Char.ofNat, dif_pos hvalid]
  rfl

/-! ## Characters -/

/-- An entry of a table that is not the default stands somewhere in it. -/
theorem mem_of_getD {α : Type} {table : Array α} {i : Nat} {default entry : α}
    (h : table.getD i default = entry) (hne : entry ≠ default) : entry ∈ table.toList := by
  rw [Array.getD_eq_getD_getElem?] at h
  by_cases hi : i < table.size
  · rw [Array.getElem?_eq_getElem hi, Option.getD_some] at h
    rw [← h]
    exact Array.mem_toList_iff.mpr (Array.getElem_mem hi)
  · rw [Array.getElem?_eq_none (Nat.le_of_not_lt hi), Option.getD_none] at h
    exact (hne h.symm).elim

theorem holds_of_mapRun {runs : Array Run} {n m : Nat} (h : mapRun runs n = some m) (hn : n ≠ 0) :
    ∃ r ∈ runs.toList, Run.holds r n = true ∧ m = (n + r.2.2.2).toNat := by
  have hentry : ∃ i, mapRun runs n = match runs.getD i (0, 0, 1, 0) with
      | (first, last, step, offset) =>
        if first ≤ n && n ≤ last && (n - first) % step == 0 then some (n + offset).toNat else none :=
    ⟨_, rfl⟩
  rcases hentry with ⟨i, hi⟩
  rw [hi] at h
  rcases hr : runs.getD i (0, 0, 1, 0) with ⟨first, last, step, offset⟩
  rw [hr] at h
  dsimp only at h
  split at h
  · next hholds =>
      refine ⟨_, mem_of_getD hr ?_, hholds, (Option.some.inj h).symm⟩
      intro hdefault
      cases hdefault
      simp only [Bool.and_eq_true, decide_eq_true_eq] at hholds
      omega
  · cases h

theorem mem_of_mapExpansion {table : Array (Nat × List Nat)} {n : Nat} {ns : List Nat}
    (h : mapExpansion table n = some ns) (hn : n ≠ 0) : (n, ns) ∈ table.toList := by
  have hentry : ∃ i, mapExpansion table n =
      if (table.getD i (0, [])).1 == n then some (table.getD i (0, [])).2 else none :=
    ⟨_, rfl⟩
  rcases hentry with ⟨i, hi⟩
  rw [hi] at h
  rcases hr : table.getD i (0, []) with ⟨code, expansion⟩
  rw [hr] at h
  dsimp only at h
  split at h
  · next hcode =>
      cases beq_iff_eq.mp hcode
      cases h
      refine mem_of_getD hr fun hdefault => hn ?_
      exact congrArg Prod.fst hdefault
  · cases h

theorem lowerOf_of_untouched {c : Char} (h : untouched c.toNat = true) : lowerOf c = [c] := by
  have hcodes : ∀ r ∈ lowerCodes, Run.holds r c.toNat = false := by
    intro r hr
    have hnot := List.all_eq_true.mp h r hr
    rw [Bool.not_eq_true'] at hnot
    exact hnot
  unfold lowerOf
  by_cases hascii : c.toNat < 0x80
  · rw [if_pos hascii]
    -- The first run holds the capital letters.
    have hfirst := hcodes (0x41, 0x5A, 1, 32) capitals_mem_lowerCodes
    have hsame : c.toLower = c := by
      unfold Char.toLower
      rw [dif_neg]
      intro hcapital
      have hlow : 0x41 ≤ c.toNat := hcapital.1
      have hhigh : c.toNat ≤ 0x5A := hcapital.2
      simp only [Run.holds, Nat.mod_one, beq_self_eq_true, Bool.and_true, Bool.and_eq_false_iff,
        decide_eq_false_iff_not] at hfirst
      omega
    rw [hsame]
  · rw [if_neg hascii]
    have hpos : c.toNat ≠ 0 := by omega
    unfold mapChar
    cases hrun : mapRun lowerRuns c.toNat with
    | some m =>
        rcases holds_of_mapRun hrun hpos with ⟨r, hr, hholds, _⟩
        rw [hcodes r (List.mem_append_left _ hr)] at hholds
        cases hholds
    | none =>
        cases hexpansion : mapExpansion lowerExpansions c.toNat with
        | some ns =>
            have hentry := List.mem_map_of_mem (f := fun e : Nat × List Nat => (e.1, e.1, 2, (0 : Int)))
              (mem_of_mapExpansion hexpansion hpos)
            have hnot := hcodes _ (List.mem_append_right _ hentry)
            simp only [Run.holds, Nat.le_refl, Nat.sub_self, Nat.zero_mod, beq_self_eq_true,
              decide_true, Bool.and_self, Bool.true_eq_false] at hnot
        | none => rfl

/-- What the lower case of a character is made of has no other lower case, and it is not the NUL if
    the character was not. -/
theorem mem_lowerOf {c d : Char} (h : d ∈ lowerOf c) :
    lowerOf d = [d] ∧ (c.toNat ≠ 0 → d.toNat ≠ 0) := by
  by_cases hascii : c.toNat < 0x80
  · have hd : d = c.toLower := by
      unfold lowerOf at h
      rw [if_pos hascii, List.mem_singleton] at h
      exact h
    have hc := lower_checked.1 c.toNat hascii
    rw [Char.ofNat_toNat, ← hd] at hc
    exact ⟨lowerOf_of_untouched (untouched_of_ascii hc.1 hc.2.1), hc.2.2.1⟩
  · have hpos : c.toNat ≠ 0 := by omega
    cases hrun : mapRun lowerRuns c.toNat with
    | some m =>
        rcases holds_of_mapRun hrun hpos with ⟨r, hr, hholds, rfl⟩
        have hd : d = Char.ofNat (c.toNat + r.2.2.2).toNat := by
          unfold lowerOf mapChar at h
          rw [if_neg hascii, hrun, List.mem_singleton] at h
          exact h
        rcases of_mem_lowerRuns hr with ⟨hgives, _, hall⟩
        rcases Run.toNat_ofNat hgives hholds with ⟨hnat, hne⟩
        rw [← hd] at hnat
        refine ⟨lowerOf_of_untouched (List.all_eq_true.mpr fun t ht => ?_), fun _ => ?_⟩
        · have hclears := hall t ht
          rw [Run.givesChars, Bool.and_eq_true, decide_eq_true_eq] at hgives
          rw [hnat, Run.not_holds_of_clears hgives.1 hclears hholds]
          rfl
        · rw [hnat]
          exact hne
    | none =>
        cases hexpansion : mapExpansion lowerExpansions c.toNat with
        | some ns =>
            have hd : d ∈ ns.map Char.ofNat := by
              unfold lowerOf mapChar at h
              rw [if_neg hascii, hrun, hexpansion] at h
              exact h
            rcases List.mem_map.mp hd with ⟨m, hm, rfl⟩
            rcases (of_mem_lowerExpansions (mem_of_mapExpansion hexpansion hpos)).2 m hm with
              ⟨hnat, hsmall, huntouched⟩
            rw [hnat]
            refine ⟨lowerOf_of_untouched ?_, fun _ => by omega⟩
            rw [hnat]
            exact huntouched
        | none =>
            -- A character without an entry is its own lower case.
            have hself : lowerOf c = [c] := by
              unfold lowerOf mapChar
              rw [if_neg hascii, hrun, hexpansion]
            rw [hself, List.mem_singleton] at h
            rw [h]
            exact ⟨hself, id⟩

/-- The rule for a sigma gives small sigmas, which are left alone like all other small letters. -/
theorem mem_lowerAt {before after : List Char} {c d : Char} (h : d ∈ lowerAt before c after) :
    lowerOf d = [d] ∧ (c.toNat ≠ 0 → d.toNat ≠ 0) := by
  unfold lowerAt at h
  split at h
  · have hsigma : d = 'ς' ∨ d = 'σ' := by
      split at h
      · exact .inl (List.mem_singleton.mp h)
      · exact .inr (List.mem_singleton.mp h)
    rcases hsigma with rfl | rfl
    · exact ⟨lowerOf_of_untouched untouched_sigma, fun _ => by decide⟩
    · have hmem : 'σ' ∈ lowerOf 'Σ' := by
        rw [lowerOf_sigma]
        exact List.mem_singleton_self _
      exact ⟨(mem_lowerOf hmem).1, fun _ => by decide⟩
  · exact mem_lowerOf h

/-! ## Texts -/

/-- Every character of a lower case is part of the lower case of a character. -/
theorem mem_lowerFrom {before lowered cs : List Char} {d : Char}
    (h : d ∈ lowerFrom before lowered cs) :
    d ∈ lowered ∨ ∃ c ∈ cs, ∃ before after, d ∈ lowerAt before c after := by
  induction cs generalizing before lowered with
  | nil => exact .inl (List.mem_reverse.mp h)
  | cons c cs ih =>
      rw [lowerFrom] at h
      rcases ih h with h | ⟨c', hc', hat⟩
      · rcases List.mem_append.mp h with h | h
        · exact .inr ⟨c, List.mem_cons_self, before, cs, List.mem_reverse.mp h⟩
        · exact .inl h
      · exact .inr ⟨c', List.mem_cons_of_mem c hc', hat⟩

/-- What the lower case of the rest is does not depend on what came out before. -/
theorem lowerFrom_eq_append (before lowered cs : List Char) :
    lowerFrom before lowered cs = lowered.reverse ++ lowerFrom before [] cs := by
  induction cs generalizing before lowered with
  | nil => rw [lowerFrom, lowerFrom, List.reverse_nil, List.append_nil]
  | cons c cs ih =>
      rw [lowerFrom, lowerFrom, ih, ih _ (_ ++ []), List.append_nil, List.reverse_append,
        List.reverse_reverse, List.append_assoc]

/-- Characters without another lower case stay what they are, whatever stands around them. -/
theorem lowerFrom_of_final {before lowered cs : List Char} (h : ∀ c ∈ cs, lowerOf c = [c]) :
    lowerFrom before lowered cs = lowered.reverse ++ cs := by
  induction cs generalizing before lowered with
  | nil => rw [lowerFrom, List.append_nil]
  | cons c cs ih =>
      have hc := h c List.mem_cons_self
      have hsigma : c ≠ 'Σ' := by
        rintro rfl
        cases lowerOf_sigma.symm.trans hc
      have hat : lowerAt before c cs = [c] := by
        unfold lowerAt
        rw [beq_false_of_ne hsigma, if_neg Bool.false_ne_true]
        exact hc
      rw [lowerFrom, hat, ih fun c' hc' => h c' (List.mem_cons_of_mem c hc')]
      simp only [List.reverse_cons, List.reverse_nil, List.nil_append, List.singleton_append,
        List.append_assoc]

theorem mem_toLower {s : String} {d : Char} (h : d ∈ (toLower s).toList) :
    ∃ c ∈ s.toList, ∃ before after, d ∈ lowerAt before c after := by
  unfold toLower at h
  rw [String.toList_ofList] at h
  rcases mem_lowerFrom h with h | h
  · cases h
  · exact h

/-- A lower case is its own lower case. -/
theorem toLower_toLower (s : String) : toLower (toLower s) = toLower s := by
  have hfinal : ∀ d ∈ (toLower s).toList, lowerOf d = [d] := by
    intro d hd
    rcases mem_toLower hd with ⟨c, _, before, after, hat⟩
    exact (mem_lowerAt hat).1
  rw [toLower, lowerFrom_of_final hfinal, List.reverse_nil, List.nil_append, String.ofList_toList]

/-- The lower case of a text without a NUL has none. -/
theorem nul_not_mem_toLower {s : String} (h : '\x00' ∉ s.toList) : '\x00' ∉ (toLower s).toList := by
  intro hnul
  rcases mem_toLower hnul with ⟨c, hc, before, after, hat⟩
  refine (mem_lowerAt hat).2 (fun hzero => h ?_) rfl
  have hc' : c = '\x00' := by
    rw [← Char.ofNat_toNat c, hzero]
  rw [← hc']
  exact hc

/-! ## Signs -/

/-- A lower case brings in no sign or digit: what is not the character itself is no smaller than the
    first small letter. -/
theorem eq_or_le_of_mem_lowerOf {c d : Char} (h : d ∈ lowerOf c) : d = c ∨ 0x61 ≤ d.toNat := by
  by_cases hascii : c.toNat < 0x80
  · have hd : d = c.toLower := by
      unfold lowerOf at h
      rw [if_pos hascii, List.mem_singleton] at h
      exact h
    have hc := lower_checked.1 c.toNat hascii
    rw [Char.ofNat_toNat, ← hd] at hc
    exact hc.2.2.2
  · have hpos : c.toNat ≠ 0 := by omega
    unfold lowerOf mapChar at h
    rw [if_neg hascii] at h
    split at h
    · next m hrun =>
        rcases holds_of_mapRun hrun hpos with ⟨r, hr, hholds, rfl⟩
        rcases of_mem_lowerRuns hr with ⟨hgives, hlow, _⟩
        have hnat := (Run.toNat_ofNat hgives hholds).1
        rw [Run.low] at hlow
        simp only [Run.holds, Bool.and_eq_true, decide_eq_true_eq] at hholds
        rw [List.mem_singleton.mp h, hnat]
        omega
    · split at h
      · next ns hexpansion =>
          rcases List.mem_map.mp h with ⟨m, hm, rfl⟩
          rcases (of_mem_lowerExpansions (mem_of_mapExpansion hexpansion hpos)).2 m hm with
            ⟨hnat, hlow, _⟩
          rw [hnat]
          exact .inr hlow
      · exact .inl (List.mem_singleton.mp h)

theorem eq_or_le_of_mem_lowerAt {before after : List Char} {c d : Char}
    (h : d ∈ lowerAt before c after) : d = c ∨ 0x61 ≤ d.toNat := by
  unfold lowerAt at h
  split at h
  · have hsigma : d = 'ς' ∨ d = 'σ' := by
      split at h
      · exact .inl (List.mem_singleton.mp h)
      · exact .inr (List.mem_singleton.mp h)
    rcases hsigma with rfl | rfl <;> exact .inr (by decide)
  · exact eq_or_le_of_mem_lowerOf h

/-- No character gets lost. -/
theorem lowerAt_ne_nil (before : List Char) (c : Char) (after : List Char) :
    lowerAt before c after ≠ [] := by
  unfold lowerAt
  split
  · split <;> exact List.cons_ne_nil _ _
  · unfold lowerOf
    split
    · exact List.cons_ne_nil _ _
    · next hascii =>
        have hpos : c.toNat ≠ 0 := by omega
        unfold mapChar
        split
        · exact List.cons_ne_nil _ _
        · split
          · next ns hexpansion =>
              have hne := (of_mem_lowerExpansions (mem_of_mapExpansion hexpansion hpos)).1
              exact fun hnil => hne (List.map_eq_nil_iff.mp hnil)
          · exact List.cons_ne_nil _ _

/-- Every character of a text has a lower case, and all of it is in the lower case of the text. -/
theorem exists_mem_lowerFrom (before lowered cs : List Char) :
    (∀ d ∈ lowered, d ∈ lowerFrom before lowered cs) ∧
      ∀ c ∈ cs, ∃ before' after, ∀ d ∈ lowerAt before' c after,
        d ∈ lowerFrom before lowered cs := by
  induction cs generalizing before lowered with
  | nil => exact ⟨fun d hd => List.mem_reverse.mpr hd, fun c hc => absurd hc List.not_mem_nil⟩
  | cons c cs ih =>
      rw [lowerFrom]
      rcases ih (c :: before) ((lowerAt before c cs).reverse ++ lowered) with
        ⟨hlowered, hothers⟩
      refine ⟨fun d hd => hlowered d (List.mem_append_right _ hd), fun c' hc' => ?_⟩
      rcases List.mem_cons.mp hc' with rfl | hc'
      · exact ⟨before, cs, fun d hd =>
          hlowered d (List.mem_append_left _ (List.mem_reverse.mpr hd))⟩
      · exact hothers c' hc'

theorem exists_mem_toLower {s : String} {c : Char} (h : c ∈ s.toList) :
    ∃ before after, ∀ d ∈ lowerAt before c after, d ∈ (toLower s).toList := by
  unfold toLower
  rw [String.toList_ofList]
  exact (exists_mem_lowerFrom [] [] s.toList).2 c h

theorem toLower_ne_empty {s : String} (h : s ≠ "") : toLower s ≠ "" := by
  intro hempty
  cases hchars : s.toList with
  | nil => exact h (String.toList_eq_nil_iff.mp hchars)
  | cons c cs =>
      have hc : c ∈ s.toList := by
        rw [hchars]
        exact List.mem_cons_self
      rcases exists_mem_toLower hc with ⟨before, after, hmem⟩
      rcases List.exists_mem_of_ne_nil _ (lowerAt_ne_nil before c after) with ⟨d, hd⟩
      have hd' := hmem d hd
      rw [hempty] at hd'
      exact absurd hd' List.not_mem_nil

/-- A sign that stands in a lower case stands in the text. -/
theorem mem_of_mem_toLower {s : String} {d : Char} (h : d ∈ (toLower s).toList)
    (hsmall : d.toNat < 0x61) : d ∈ s.toList := by
  rcases mem_toLower h with ⟨c, hc, before, after, hat⟩
  rcases eq_or_le_of_mem_lowerAt hat with rfl | hlarge
  · exact hc
  · omega

/-- A character that is its own lower case stands in the lower case of every text in which it
    stands. -/
theorem mem_toLower_of_mem {s : String} {c : Char} (h : c ∈ s.toList) (hself : lowerOf c = [c])
    (hsigma : c ≠ 'Σ') : c ∈ (toLower s).toList := by
  rcases exists_mem_toLower h with ⟨before, after, hmem⟩
  refine hmem c ?_
  unfold lowerAt
  rw [beq_false_of_ne hsigma, if_neg Bool.false_ne_true, hself]
  exact List.mem_cons_self

/-- A text whose lower case has only signs and digits is its lower case. -/
theorem toLower_eq_self {s : String} (h : ∀ d ∈ (toLower s).toList, d.toNat < 0x61) :
    toLower s = s := by
  have hfinal : ∀ c ∈ s.toList, lowerOf c = [c] := by
    intro c hc
    rcases exists_mem_toLower hc with ⟨before, after, hmem⟩
    rcases List.exists_mem_of_ne_nil _ (lowerAt_ne_nil before c after) with ⟨d, hd⟩
    rcases eq_or_le_of_mem_lowerAt hd with rfl | hlarge
    · exact (mem_lowerAt hd).1
    · have hsmall := h d (hmem d hd)
      omega
  rw [toLower, lowerFrom_of_final hfinal, List.reverse_nil, List.nil_append, String.ofList_toList]

end Case

end PixelEffects
