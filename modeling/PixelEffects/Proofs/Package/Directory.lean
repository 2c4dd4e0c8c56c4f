import PixelEffects.Proofs.FileTree
import PixelEffects.Proofs.Package

/-!
# Directories of Packages

Where the directory of a package is.

An id is taken only if it is a plain name, and it is the lower case of it that becomes part of a
path. A lower case has no signs that were not there before, so it is a name as well: it has no slash
and does not lead up. A directory that is found by its lower case has such a name too. So the
directory of a package is always listed in the directory of its kind, whatever the id is.

## Theorems

* `LibraryRoot.closed_kindDir`: Names can be joined to the directory of a kind.
* `Package.isName_toLower`, `Package.isPlainName_of_toLower`: Names and their lower case.
* `PackageLibrary.isName_of_findDir`: The directory that an id finds has a name.
* `PackageLibrary.mem_entries_of_findDir`: It is listed in the directory of the kind.
* `sortedNames_ascending`, `sortedNames_congr`: Names are put in one order, however they are
  listed.
-/

namespace PixelEffects

namespace PackageKind

theorem isName_directory (kind : PackageKind) : Path.isName kind.directory = true := by
  cases kind <;> decide

theorem isName_metadataFile (kind : PackageKind) : Path.isName kind.metadataFile = true := by
  cases kind <;> decide

end PackageKind

namespace LibraryRoot

/-- Names can be joined to the directory of a kind, whatever the root is. -/
theorem closed_kindDir (root : LibraryRoot) (kind : PackageKind) : (root.kindDir kind).Closed := by
  have hname := kind.isName_directory
  rcases Path.isName_iff.mp hname with ⟨hempty, _, _, hslash⟩
  have hne : kind.directory.toList ≠ [] := fun h => hempty (String.toList_eq_nil_iff.mp h)
  unfold kindDir Path.join
  rw [Path.isAbsolute_of_isName hname, if_neg Bool.false_ne_true]
  refine ⟨fun h => ?_, ?_⟩
  · have hchars := String.toList_eq_nil_iff.mpr h
    split at hchars
    · rw [String.toList_append, List.append_eq_nil_iff] at hchars
      exact hne hchars.2
    · rw [String.toList_append, List.append_eq_nil_iff] at hchars
      exact hne hchars.2
  · -- What stands at the end is the name, and there is no slash in it.
    unfold Path.endsOpen
    split
    · rw [String.toList_append, List.getLast?_append, List.getLast?_eq_some_getLast hne,
        Option.some_or, ← List.getLast?_eq_some_getLast hne]
      exact Path.endsOpen_of_not_mem hslash
    · rw [String.toList_append, List.getLast?_append, List.getLast?_eq_some_getLast hne,
        Option.some_or, ← List.getLast?_eq_some_getLast hne]
      exact Path.endsOpen_of_not_mem hslash

theorem closed_packageDir (root : LibraryRoot) (kind : PackageKind) {name : String}
    (h : Path.isName name = true) : (root.packageDir kind name).Closed :=
  Path.closed_join (root.closed_kindDir kind) (Path.isPart_of_isName h)

end LibraryRoot

namespace Package

variable {name : String}

theorem isPlainName_iff : isPlainName name = true ↔
    name ≠ "" ∧ name ≠ "." ∧ leadsUp name.toList = false ∧ '/' ∉ name.toList ∧
      '\\' ∉ name.toList := by
  have hdot : name.toList = ['.'] ↔ name = "." := by
    rw [← String.toList_inj]
    rfl
  unfold isPlainName
  simp only [Bool.and_eq_true, bne_iff_ne, Bool.not_eq_true', and_assoc, ← Bool.not_eq_true,
    List.contains_iff_mem, List.isEmpty_iff, String.toList_eq_nil_iff, ne_eq, hdot]

/-- A plain name is a name. -/
theorem isName_of_isPlainName (h : isPlainName name = true) : Path.isName name = true := by
  rcases isPlainName_iff.mp h with ⟨hempty, hdot, hup, hslash, _⟩
  refine Path.isName_iff.mpr ⟨hempty, hdot, ?_, hslash⟩
  rintro rfl
  cases hup

/-- The lower case of a plain name is a name. -/
theorem isName_toLower (h : isPlainName name = true) :
    Path.isName (Case.toLower name) = true := by
  rcases Path.isName_iff.mp (isName_of_isPlainName h) with ⟨hempty, hdot, hdots, hslash⟩
  -- Points have no lower case, so nothing else becomes only points.
  have hpoints : ∀ points : String, (∀ d ∈ points.toList, d = '.') → name ≠ points →
      Case.toLower name ≠ points := by
    intro points hpoint hne hlower
    refine hne ?_
    have hsmall : ∀ d ∈ points.toList, d.toNat < 0x61 := by
      intro d hd
      rw [hpoint d hd]
      decide
    rw [← hlower] at hsmall
    rw [← hlower, Case.toLower_eq_self hsmall]
  refine Path.isName_iff.mpr
    ⟨Case.toLower_ne_empty hempty, hpoints "." (by simp) hdot, hpoints ".." (by simp) hdots,
      fun hmem => hslash ?_⟩
  exact Case.mem_of_mem_toLower hmem (by decide)

theorem lowerOf_point : Case.lowerOf '.' = ['.'] :=
  Case.lowerOf_of_untouched (Case.untouched_of_ascii (by decide) (by decide))

/-- A text whose lower case is a name is a name. -/
theorem isName_of_toLower (h : Path.isName (Case.toLower name) = true) :
    Path.isName name = true := by
  rcases Path.isName_iff.mp h with ⟨hempty, hdot, hdots, hslash⟩
  have hpoint := lowerOf_point
  have hself : ∀ points : String, (∀ c ∈ points.toList, c = '.') →
      Case.toLower points = points := by
    intro points hpoints
    have hkeeps : ∀ c ∈ points.toList, Case.lowerOf c = [c] := by
      intro c hc
      rw [hpoints c hc, hpoint]
    rw [Case.toLower, Case.lowerFrom_of_final hkeeps, List.reverse_nil, List.nil_append,
      String.ofList_toList]
  refine Path.isName_iff.mpr ⟨?_, ?_, ?_, fun hmem => hslash ?_⟩
  · rintro rfl
    exact hempty rfl
  · rintro rfl
    exact hdot (hself "." (by simp))
  · rintro rfl
    exact hdots (hself ".." (by simp))
  · have hsign : Case.lowerOf '/' = ['/'] :=
      Case.lowerOf_of_untouched (Case.untouched_of_ascii (by decide) (by decide))
    exact Case.mem_toLower_of_mem hmem hsign (by decide)

theorem leadsUp_append {cs : List Char} (front : List Char) (h : leadsUp cs = true) :
    leadsUp (front ++ cs) = true := by
  induction front with
  | nil => exact h
  | cons c front ih =>
      rw [List.cons_append]
      unfold leadsUp
      split
      · rfl
      · next heq =>
          cases heq
          exact ih
      · next heq => cases heq

/-- Two points that follow one another do so in the lower case as well. -/
theorem leadsUp_lowerFrom {cs : List Char} (h : leadsUp cs = true) (before lowered : List Char) :
    leadsUp (Case.lowerFrom before lowered cs) = true := by
  have hpoint : ∀ before after, Case.lowerAt before '.' after = ['.'] := fun _ _ => lowerOf_point
  induction cs generalizing before lowered with
  | nil => cases h
  | cons c cs ih =>
      unfold leadsUp at h
      split at h
      · next heq =>
          cases heq
          -- Both points come out behind what has come out already.
          rw [Case.lowerFrom, Case.lowerFrom, hpoint, hpoint, Case.lowerFrom_eq_append]
          change leadsUp (('.' :: '.' :: lowered).reverse ++ _) = true
          rw [List.reverse_cons, List.reverse_cons, List.append_assoc, List.append_assoc]
          exact leadsUp_append lowered.reverse rfl
      · next heq =>
          cases heq
          rw [Case.lowerFrom]
          exact ih h _ _
      · next heq => cases heq

theorem leadsUp_of_toLower (h : leadsUp (Case.toLower name).toList = false) :
    leadsUp name.toList = false := by
  cases hup : leadsUp name.toList with
  | false => rfl
  | true =>
      rw [Case.toLower, String.toList_ofList, leadsUp_lowerFrom hup] at h
      cases h

/-- A text whose lower case is a plain name is a plain name. -/
theorem isPlainName_of_toLower (h : isPlainName (Case.toLower name) = true) :
    isPlainName name = true := by
  rcases isPlainName_iff.mp h with ⟨_, _, hup, _, hback⟩
  rcases Path.isName_iff.mp (isName_of_toLower (isName_of_isPlainName h)) with
    ⟨hempty, hdot, _, hslash⟩
  refine isPlainName_iff.mpr ⟨hempty, hdot, leadsUp_of_toLower hup, hslash, fun hmem => hback ?_⟩
  have hsign : Case.lowerOf '\\' = ['\\'] :=
    Case.lowerOf_of_untouched (Case.untouched_of_ascii (by decide) (by decide))
  exact Case.mem_toLower_of_mem hmem hsign (by decide)

end Package

namespace PackageLibrary

variable {lib : PackageLibrary} {kind : PackageKind} {id name : String}

theorem isPlainName_of_findDir (h : lib.findDir kind id = .ok name) :
    Package.isPlainName id = true := by
  unfold findDir at h
  split at h
  · cases h
  · next hplain => simpa only [Bool.not_eq_true', Bool.not_eq_false] using hplain

/-- The directory that an id finds has a name. -/
theorem isName_of_findDir (h : lib.findDir kind id = .ok name) : Path.isName name = true := by
  refine Package.isName_of_toLower ?_
  rw [toLower_of_findDir h]
  exact Package.isName_toLower (isPlainName_of_findDir h)

/-- What an id finds is a directory. -/
theorem isDir_of_findDir (h : lib.findDir kind id = .ok name) :
    lib.tree.isDir (lib.root.packageDir kind name) = true := by
  rcases findDir_eq_ok h with ⟨hdirect, rfl⟩ | ⟨_, entries, others, _, hsorted⟩
  · exact hdirect
  · have hmem : name ∈ (lib.directories (lib.root.kindDir kind) entries).filter
        (Case.toLower · == Case.toLower id) := by
      rw [← mem_sortedNames, hsorted]
      exact List.mem_cons_self
    exact (List.mem_filter.mp (List.mem_filter.mp hmem).1).2

/-- The directory that an id finds is listed in the directory of the kind. -/
theorem mem_entries_of_findDir (h : lib.findDir kind id = .ok name) :
    ∃ entries, lib.tree.entries (lib.root.kindDir kind) = .ok entries ∧
      name ∈ entries.map (·.1) := by
  have hthere := isDir_of_findDir h
  unfold FileTree.isDir at hthere
  split at hthere
  · next node hnode =>
      exact FileTree.mem_entries_of_join (lib.root.closed_kindDir kind) (isName_of_findDir h) hnode
  · cases hthere

end PackageLibrary

/-! ## Names in order -/

theorem compare_ne_gt {a b : String} : (compare a b != .gt) = (compare a b).isLE := by
  cases compare a b <;> rfl

/-- Sorted names are in ascending order. -/
theorem sortedNames_ascending (names : List String) :
    (sortedNames names).Pairwise fun a b => (compare a b).isLE = true := by
  unfold sortedNames
  simp only [compare_ne_gt]
  refine List.pairwise_mergeSort (fun a b c => Std.TransCmp.isLE_trans) (fun a b => ?_) names
  have hswap : compare b a = (compare a b).swap := Std.OrientedCmp.eq_swap
  rw [hswap]
  cases compare a b <;> rfl

/-- The order in which names are listed does not matter. -/
theorem sortedNames_congr {names names' : List String} (h : names.Perm names') :
    sortedNames names = sortedNames names' := by
  have hperm : (sortedNames names).Perm (sortedNames names') :=
    (List.mergeSort_perm _ _).trans (h.trans (List.mergeSort_perm _ _).symm)
  refine hperm.eq_of_pairwise (fun a b _ _ hab hba => ?_) (sortedNames_ascending names)
    (sortedNames_ascending names')
  exact Std.LawfulEqCmp.eq_of_compare (Std.OrientedCmp.isLE_antisymm hab hba)

end PixelEffects
