import PixelEffects.Proofs.Effect.Failure
import PixelEffects.Proofs.Package.Directory

/-!
# What Is Listed Is Found

How the list of the packages of a kind and the search for one of them go together.

They do not share a computation. The list has the names of all directories, in lower case; the
search looks at one path first, and only if there is no directory filters the names. Both come down
to the same question, which is whether some directory agrees with the id in lower case. The first
path is no exception, since what can be found by its name is listed under this name.

A directory that is listed need not hold a package that can be read. So what the list decides is not
whether there is a package, but whether the search fails because there is nothing to be read.

## Main definitions

* `PackageLibrary.HasVariant`: Some directory of a kind agrees with an id in lower case.

## Theorems

* `pairwise_eraseReps_sortedNames`, `mem_eraseReps_sortedNames`: Names in ascending order, each
  once.
* `PackageLibrary.exists_findDir_iff`: An id finds a directory if there is one.
* `PackageLibrary.findDir_least`: Which one it finds.
* `PackageLibrary.mem_list_iff`: The list has the ids of all directories.
* `PackageLibrary.resolve_ne_notFound_iff`: Why a search fails.
* `PackageLibrary.list_agrees_with_resolve`: What is listed is found.
-/

namespace PixelEffects

/-! ## Repetitions -/

/-- The loop of `List.eraseReps` with a first name that has been read, and names that come after it
    in ascending order. -/
theorem eraseReps_loop {first : String} {names : List String}
    (h : (first :: names).Pairwise fun a b => (compare a b).isLE = true) (before : List String) :
    ∃ others, List.eraseRepsBy.loop (· == ·) first names before =
        before.reverse ++ first :: others ∧
      (first :: others).Pairwise (· < ·) ∧
      ∀ name, name ∈ first :: others ↔ name ∈ first :: names := by
  induction names generalizing first before with
  | nil => exact ⟨[], List.reverse_cons, List.pairwise_singleton _ _, fun _ => Iff.rfl⟩
  | cons next names ih =>
      rcases List.pairwise_cons.mp h with ⟨hfirst, hrest⟩
      unfold List.eraseRepsBy.loop
      split
      · next heq =>
          rw [beq_iff_eq] at heq
          subst heq
          rcases ih hrest before with ⟨others, hloop, hless, hmem⟩
          refine ⟨others, hloop, hless, fun name => ?_⟩
          rw [hmem, List.mem_cons, List.mem_cons, List.mem_cons, or_self_left]
      · next hne =>
          rw [beq_eq_false_iff_ne] at hne
          rcases ih hrest (first :: before) with ⟨others, hloop, hless, hmem⟩
          refine ⟨next :: others, ?_, List.pairwise_cons.mpr ⟨fun name hname => ?_, hless⟩,
            fun name => ?_⟩
          · rw [hloop, List.reverse_cons, List.append_assoc, List.singleton_append]
          · -- The next name is a later one, and all others come after it.
            have hnext : first < next := by
              have hle := hfirst next List.mem_cons_self
              refine compareOfLessAndEq_eq_lt.mp ?_
              change compare first next = .lt
              rcases Ordering.isLE_iff_eq_lt_or_eq_eq.mp hle with hlt | heq
              · exact hlt
              · exact absurd (Std.LawfulEqCmp.eq_of_compare heq) hne
            rcases List.mem_cons.mp hname with rfl | hname
            · exact hnext
            · exact String.lt_trans hnext (List.rel_of_pairwise_cons hless hname)
          · rw [List.mem_cons, hmem name, ← List.mem_cons]

theorem eraseReps_cases {names : List String}
    (h : names.Pairwise fun a b => (compare a b).isLE = true) :
    names.eraseReps.Pairwise (· < ·) ∧ ∀ name, name ∈ names.eraseReps ↔ name ∈ names := by
  cases names with
  | nil => exact ⟨List.Pairwise.nil, fun _ => Iff.rfl⟩
  | cons first names =>
      rcases eraseReps_loop h [] with ⟨others, hloop, hless, hmem⟩
      have heq : (first :: names).eraseReps = first :: others := hloop
      rw [heq]
      exact ⟨hless, hmem⟩

/-- Names in ascending order and each only once are in strictly ascending order. -/
theorem pairwise_eraseReps_sortedNames (names : List String) :
    (sortedNames names).eraseReps.Pairwise (· < ·) :=
  (eraseReps_cases (sortedNames_ascending names)).1

theorem mem_eraseReps_sortedNames {names : List String} {name : String} :
    name ∈ (sortedNames names).eraseReps ↔ name ∈ names := by
  rw [(eraseReps_cases (sortedNames_ascending names)).2, mem_sortedNames]

namespace PackageLibrary

variable {lib : PackageLibrary} {kind : PackageKind} {id id' : String} {ids : List String}

/-! ## Directories -/

/-- The directory of a kind lists a directory whose name agrees with an id in lower case. -/
def HasVariant (lib : PackageLibrary) (kind : PackageKind) (id : String) : Prop :=
  ∃ entries, lib.tree.entries (lib.root.kindDir kind) = .ok entries ∧
    ∃ name ∈ lib.directories (lib.root.kindDir kind) entries, Case.toLower name = Case.toLower id

/-- A name that agrees with a directory in lower case finds one. -/
theorem exists_findDir_iff (hplain : Package.isPlainName id = true) :
    (∃ name, lib.findDir kind id = .ok name) ↔ lib.HasVariant kind id := by
  constructor
  · rintro ⟨name, hname⟩
    rcases mem_entries_of_findDir hname with ⟨entries, hentries, hmem⟩
    exact ⟨entries, hentries, name, List.mem_filter.mpr ⟨hmem, isDir_of_findDir hname⟩,
      toLower_of_findDir hname⟩
  · rintro ⟨entries, hentries, name, hmem, hlower⟩
    have hvariant : name ∈ sortedNames
        ((lib.directories (lib.root.kindDir kind) entries).filter
          (Case.toLower · == Case.toLower id)) :=
      mem_sortedNames.mpr (List.mem_filter.mpr ⟨hmem, beq_iff_eq.mpr hlower⟩)
    unfold findDir
    rw [hplain, Bool.not_true, if_neg Bool.false_ne_true]
    dsimp only
    split
    · exact ⟨_, rfl⟩
    · rw [hentries]
      dsimp only
      split
      · exact ⟨_, rfl⟩
      · next hnone =>
          rw [hnone] at hvariant
          cases hvariant

/-- A directory that is there is listed. -/
theorem mem_directories_of_isDir {name : String} (hname : Path.isName name = true)
    (h : lib.tree.isDir (lib.root.packageDir kind name) = true) :
    ∃ entries, lib.tree.entries (lib.root.kindDir kind) = .ok entries ∧
      name ∈ lib.directories (lib.root.kindDir kind) entries := by
  have hdir := h
  unfold FileTree.isDir at hdir
  split at hdir
  · next node hnode =>
      rcases FileTree.mem_entries_of_join (lib.root.closed_kindDir kind) hname hnode with
        ⟨entries, hentries, hmem⟩
      exact ⟨entries, hentries, List.mem_filter.mpr ⟨hmem, h⟩⟩
  · cases hdir

/-- What an id finds is the least of the directories that agree with it in lower case, if it is not
    the lower case itself. -/
theorem findDir_least {name other : String} (h : lib.findDir kind id = .ok name)
    (hne : name ≠ Case.toLower id) (hother : Path.isName other = true)
    (hdir : lib.tree.isDir (lib.root.packageDir kind other) = true)
    (hlower : Case.toLower other = Case.toLower id) : (compare name other).isLE = true := by
  rcases findDir_eq_ok h with ⟨_, heq⟩ | ⟨_, entries, others, hentries, hsorted⟩
  · exact absurd heq hne
  · rcases mem_directories_of_isDir hother hdir with ⟨entries', hentries', hmem⟩
    rw [hentries] at hentries'
    cases hentries'
    have hvariant : other ∈ name :: others := by
      rw [← hsorted]
      exact mem_sortedNames.mpr (List.mem_filter.mpr ⟨hmem, beq_iff_eq.mpr hlower⟩)
    have hascending := sortedNames_ascending
      ((lib.directories (lib.root.kindDir kind) entries).filter
        (Case.toLower · == Case.toLower id))
    rw [hsorted] at hascending
    rcases List.mem_cons.mp hvariant with rfl | hlater
    · exact Std.ReflCmp.isLE_rfl
    · exact List.rel_of_pairwise_cons hascending hlater

/-- Ids that agree in lower case find the same directory, or none. -/
theorem findDir_eq_ok_congr (hplain : Package.isPlainName id = true)
    (hplain' : Package.isPlainName id' = true) (hlower : Case.toLower id = Case.toLower id')
    (name : String) : lib.findDir kind id = .ok name ↔ lib.findDir kind id' = .ok name := by
  have hsame : (∃ name, lib.findDir kind id = .ok name) ↔
      ∃ name, lib.findDir kind id' = .ok name := by
    rw [exists_findDir_iff hplain, exists_findDir_iff hplain', HasVariant, HasVariant, hlower]
  constructor
  · intro hfind
    rcases hsame.mp ⟨name, hfind⟩ with ⟨name', hfind'⟩
    rw [hfind', findDir_inj hfind hfind' hlower]
  · intro hfind'
    rcases hsame.mpr ⟨name, hfind'⟩ with ⟨name', hfind⟩
    rw [hfind, findDir_inj hfind hfind' hlower]

/-! ## Lists -/

/-- The list has the ids of all directories of the kind. -/
theorem mem_list_iff (h : lib.list kind = .ok ids) :
    Case.toLower id ∈ ids ↔ lib.HasVariant kind id := by
  unfold list at h
  dsimp only at h
  unfold HasVariant
  split at h
  · next hnone =>
      cases h
      rw [hnone]
      simp
  · cases h
  · next entries hentries =>
      cases h
      rw [mem_eraseReps_sortedNames, List.mem_map, hentries]
      constructor
      · rintro ⟨name, hname, hlower⟩
        exact ⟨entries, rfl, name, hname, hlower⟩
      · rintro ⟨_, heq, name, hname, hlower⟩
        cases heq
        exact ⟨name, hname, hlower⟩

/-- The ids of packages are listed in strictly ascending order. -/
theorem pairwise_list (h : lib.list kind = .ok ids) : ids.Pairwise (· < ·) := by
  unfold list at h
  dsimp only at h
  split at h
  · cases h
    exact List.Pairwise.nil
  · cases h
  · cases h
    exact pairwise_eraseReps_sortedNames _

/-! ## Packages -/

/-- Whatever is wrong with a directory that was found, it is not that it was not found. -/
theorem resolve_ne_notFound_of_findDir {name : String} (h : lib.findDir kind id = .ok name)
    (k : PackageKind) (i : String) : lib.resolve kind id ≠ .error (.notFound k i) := by
  intro hresolve
  unfold resolve at hresolve
  rcases bind_eq_error hresolve with hfind | ⟨found, _, hresolve⟩
  · rw [h] at hfind
    cases hfind
  rcases bind_eq_error hresolve with hmetadata | ⟨metadata, _, hresolve⟩
  · unfold readMetadata at hmetadata
    split at hmetadata
    · unfold Metadata.parse at hmetadata
      split at hmetadata <;> cases hmetadata
    · cases hmetadata
  rcases bind_eq_error hresolve with hfiles | ⟨files, _, hresolve⟩
  · unfold scriptsOf at hfiles
    split at hfiles
    · cases hfiles
    · cases hfiles
    · unfold scriptNames orIo at hfiles
      split at hfiles <;> cases hfiles
  rcases bind_eq_error hresolve with hscripts | ⟨scripts, _, hresolve⟩
  · rcases error_of_mapM hscripts with ⟨file, _, hfile⟩
    unfold readScript at hfile
    split at hfile
    · cases hfile
    · split at hfile <;> cases hfile
  · cases hresolve

/-- A search fails because there is nothing only if there is no directory. -/
theorem resolve_ne_notFound_iff (hplain : Package.isPlainName id = true) :
    (∀ k i, lib.resolve kind id ≠ .error (.notFound k i)) ↔ lib.HasVariant kind id := by
  rw [← exists_findDir_iff hplain]
  constructor
  · intro hne
    cases hfind : lib.findDir kind id with
    | ok name => exact ⟨name, rfl⟩
    | error e =>
        refine absurd ?_ (hne kind id)
        unfold resolve
        rw [hfind, eq_of_findDir_error hfind]
        rfl
  · rintro ⟨name, hname⟩
    exact resolve_ne_notFound_of_findDir hname

/-- What is found depends on the directory that the id finds, and not on how the id is written. -/
theorem resolve_eq_ok_congr (hplain : Package.isPlainName id = true)
    (hplain' : Package.isPlainName id' = true) (hlower : Case.toLower id = Case.toLower id')
    (p : Package) : lib.resolve kind id = .ok p ↔ lib.resolve kind id' = .ok p := by
  have hsame : ∀ {a b : String}, (∀ name, lib.findDir kind a = .ok name ↔
      lib.findDir kind b = .ok name) → lib.resolve kind a = .ok p → lib.resolve kind b = .ok p := by
    intro a b hfind ha
    rcases resolve_eq_ok ha with ⟨name, hname, _⟩
    have heq : lib.findDir kind b = lib.findDir kind a := by
      rw [hname, (hfind name).mp hname]
    unfold resolve at ha ⊢
    rwa [heq]
  have hfind : ∀ name, lib.findDir kind id = .ok name ↔ lib.findDir kind id' = .ok name :=
    findDir_eq_ok_congr hplain hplain' hlower
  exact ⟨hsame hfind, hsame fun name => (hfind name).symm⟩

/-- If the packages of a kind can be listed, the list is in strictly ascending order, and an id that
    is a plain name fails for another reason than that nothing was found, or does not fail, if and
    only if the list has it in lower case. Plain names that agree in lower case find one directory,
    and one package if they find any; and a package has the id, in lower case, that it was found
    with. -/
theorem list_agrees_with_resolve (lib : PackageLibrary) (kind : PackageKind) :
    (∀ ids, lib.list kind = .ok ids → ids.Pairwise (· < ·) ∧
      ∀ id, Package.isPlainName id = true →
        ((∀ k i, lib.resolve kind id ≠ .error (.notFound k i)) ↔ Case.toLower id ∈ ids)) ∧
    (∀ id id', Package.isPlainName id = true → Package.isPlainName id' = true →
      Case.toLower id = Case.toLower id' →
        (∀ name, lib.findDir kind id = .ok name ↔ lib.findDir kind id' = .ok name) ∧
        ∀ p, lib.resolve kind id = .ok p ↔ lib.resolve kind id' = .ok p) ∧
    ∀ id p, lib.resolve kind id = .ok p → p.id = Case.toLower id := by
  refine ⟨fun ids hids => ⟨pairwise_list hids, fun id hplain => ?_⟩,
    fun id id' hplain hplain' hlower => ⟨findDir_eq_ok_congr hplain hplain' hlower,
      resolve_eq_ok_congr hplain hplain' hlower⟩, fun id p => id_of_resolve⟩
  rw [resolve_ne_notFound_iff hplain, mem_list_iff hids]

end PackageLibrary

end PixelEffects
