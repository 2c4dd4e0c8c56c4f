import PixelEffects.Package
import PixelEffects.Proofs.Except
import PixelEffects.Proofs.Text.Case

/-!
# What Ids Find

Which packages an id finds, and what is known of a package that was found.

An id is only ever looked at in lower case, and the directory that it finds is one whose name agrees
with it there. Since lower case is final, the id of a package finds the package again, and two
packages that were found and have one id are one package.

A package that was found was read from files, and no path to a file has a NUL in it. So there is none
in the names that faults carry.

## Theorems

* `PackageLibrary.findDir_inj`: Ids that agree in lower case find one directory.
* `PackageLibrary.resolve_inj`: A package is known by its id.
* `PackageLibrary.nul_not_mem_chunkName`: Scripts of packages have names without a NUL.
-/

namespace PixelEffects

theorem mem_sortedNames {names : List String} {name : String} :
    name ∈ sortedNames names ↔ name ∈ names :=
  List.mem_mergeSort

theorem Metadata.id_of_parse {id text : String} {m : Metadata} (h : parse id text = .ok m) :
    m.id = id := by
  unfold parse at h
  split at h
  · cases h
    rfl
  · cases h

namespace PackageLibrary

variable {lib : PackageLibrary} {kind : PackageKind}

/-! ## Directories -/

/-- The name of the first directory of a kind that agrees with a name in lower case. -/
theorem findDir_eq_ok {id name : String} (h : lib.findDir kind id = .ok name) :
    (lib.tree.isDir (lib.root.packageDir kind (Case.toLower id)) = true ∧
        name = Case.toLower id) ∨
      (lib.tree.isDir (lib.root.packageDir kind (Case.toLower id)) = false ∧
        ∃ entries others, lib.tree.entries (lib.root.kindDir kind) = .ok entries ∧
          sortedNames ((lib.directories (lib.root.kindDir kind) entries).filter
            (Case.toLower · == Case.toLower id)) = name :: others) := by
  unfold findDir at h
  split at h
  · cases h
  · dsimp only at h
    split at h
    · next hdirect =>
        cases h
        exact .inl ⟨hdirect, rfl⟩
    · next hdirect =>
        rw [Bool.not_eq_true] at hdirect
        split at h
        · cases h
        · next entries hentries =>
            split at h
            · next hsorted =>
                cases h
                exact .inr ⟨hdirect, entries, _, hentries, hsorted⟩
            · cases h

/-- The directory that an id finds agrees with it in lower case. -/
theorem toLower_of_findDir {id name : String} (h : lib.findDir kind id = .ok name) :
    Case.toLower name = Case.toLower id := by
  rcases findDir_eq_ok h with ⟨_, rfl⟩ | ⟨_, entries, others, _, hsorted⟩
  · exact Case.toLower_toLower id
  · have hmem : name ∈ (lib.directories (lib.root.kindDir kind) entries).filter
        (Case.toLower · == Case.toLower id) := by
      rw [← mem_sortedNames, hsorted]
      exact List.mem_cons_self
    exact beq_iff_eq.mp (List.mem_filter.mp hmem).2

/-- Ids that agree in lower case do not find different directories. -/
theorem findDir_inj {id id' name name' : String} (h : lib.findDir kind id = .ok name)
    (h' : lib.findDir kind id' = .ok name') (hlower : Case.toLower id = Case.toLower id') :
    name = name' := by
  have hcases := findDir_eq_ok h
  have hcases' := findDir_eq_ok h'
  rw [← hlower] at hcases'
  rcases hcases with ⟨hdirect, rfl⟩ | ⟨hdirect, entries, others, hentries, hsorted⟩
  · rcases hcases' with ⟨_, rfl⟩ | ⟨hdirect', _⟩
    · rfl
    · rw [hdirect] at hdirect'
      cases hdirect'
  · rcases hcases' with ⟨hdirect', _⟩ | ⟨_, entries', others', hentries', hsorted'⟩
    · rw [hdirect] at hdirect'
      cases hdirect'
    · rw [hentries] at hentries'
      cases hentries'
      rw [hsorted] at hsorted'
      exact (List.cons.inj hsorted').1

/-! ## Packages -/

/-- A package as it was read from the directory that its id has found. -/
structure ReadFrom (lib : PackageLibrary) (kind : PackageKind) (name : String) (p : Package) :
    Prop where
  metadata : lib.readMetadata kind (Case.toLower name) (lib.root.packageDir kind name) =
    .ok p.metadata
  kind_eq : p.kind = kind
  dir_eq : p.dir = lib.root.packageDir kind name
  scripts : ∃ files, lib.scriptsOf p.metadata kind (lib.root.packageDir kind name) = .ok files ∧
    files.mapM (lib.readScript (Case.toLower name) (lib.root.packageDir kind name)) =
      .ok p.scripts

theorem resolve_eq_ok {id : String} {p : Package} (h : lib.resolve kind id = .ok p) :
    ∃ name, lib.findDir kind id = .ok name ∧ lib.ReadFrom kind name p := by
  unfold resolve at h
  rcases bind_eq_ok h with ⟨name, hname, h⟩
  rcases bind_eq_ok h with ⟨metadata, hmetadata, h⟩
  rcases bind_eq_ok h with ⟨files, hfiles, h⟩
  rcases bind_eq_ok h with ⟨scripts, hscripts, h⟩
  cases h
  exact ⟨name, hname, hmetadata, rfl, rfl, files, hfiles, hscripts⟩

namespace ReadFrom

variable {name : String} {p p' : Package}

theorem id_eq (h : lib.ReadFrom kind name p) : p.id = Case.toLower name := by
  have hmetadata := h.metadata
  unfold readMetadata at hmetadata
  split at hmetadata
  · exact Metadata.id_of_parse hmetadata
  · cases hmetadata

/-- What is read from one directory is one package. -/
theorem unique (h : lib.ReadFrom kind name p) (h' : lib.ReadFrom kind name p') : p = p' := by
  have hmetadata : p.metadata = p'.metadata :=
    Except.ok.inj (h.metadata.symm.trans h'.metadata)
  have hkind : p.kind = p'.kind := h.kind_eq.trans h'.kind_eq.symm
  have hdir : p.dir = p'.dir := h.dir_eq.trans h'.dir_eq.symm
  have hscripts : p.scripts = p'.scripts := by
    rcases h.scripts with ⟨files, hfiles, hscripts⟩
    rcases h'.scripts with ⟨files', hfiles', hscripts'⟩
    rw [← hmetadata, hfiles] at hfiles'
    cases hfiles'
    exact Except.ok.inj (hscripts.symm.trans hscripts')
  cases p
  cases p'
  rw [Package.mk.injEq]
  exact ⟨hmetadata, hkind, hdir, hscripts⟩

end ReadFrom

/-- The id of a package is what finds it, in lower case. -/
theorem id_of_resolve {id : String} {p : Package} (h : lib.resolve kind id = .ok p) :
    p.id = Case.toLower id := by
  rcases resolve_eq_ok h with ⟨name, hname, hread⟩
  rw [hread.id_eq, toLower_of_findDir hname]

/-- Packages of a kind that were found and have the same id are the same. -/
theorem resolve_inj {id id' : String} {p p' : Package} (h : lib.resolve kind id = .ok p)
    (h' : lib.resolve kind id' = .ok p') (hid : p.id = p'.id) : p = p' := by
  rw [id_of_resolve h, id_of_resolve h'] at hid
  rcases resolve_eq_ok h with ⟨name, hname, hread⟩
  rcases resolve_eq_ok h' with ⟨name', hname', hread'⟩
  have hsame := findDir_inj hname hname' hid
  rw [← hsame] at hread'
  exact hread.unique hread'

/-! ## Names without a NUL -/

theorem nul_not_mem_of_readText {tree : FileTree} {path : Path} {text : String}
    (h : tree.readText path = .ok text) : '\x00' ∉ path.toList := by
  unfold FileTree.readText at h
  rcases bind_eq_ok h with ⟨content, hread, _⟩
  unfold FileTree.read at hread
  rcases bind_eq_ok hread with ⟨node, hnode, _⟩
  unfold FileTree.node? at hnode
  rcases bind_eq_ok hnode with ⟨_, hcheck, _⟩
  unfold FileTree.checkPath at hcheck
  split at hcheck
  · cases hcheck
  · next hnul =>
      intro hmem
      exact hnul (List.contains_iff_mem.mpr hmem)

/-- Everything that a path is joined to is part of the joint path. -/
theorem mem_join {p q : Path} {c : Char} (h : c ∈ q.toList) : c ∈ (Path.join p q).toList := by
  unfold Path.join
  split
  · exact h
  · split
    · rw [String.toList_append]
      exact List.mem_append_right _ h
    · rw [String.toList_append]
      exact List.mem_append_right _ h

/-- The paths of the files in a directory have all of the path of the directory, unless they are
    absolute. -/
theorem mem_join_left {p q : Path} {c : Char} (hq : Path.isAbsolute q = false) (h : c ∈ p.toList) :
    c ∈ (Path.join p q).toList := by
  unfold Path.join
  rw [hq, if_neg Bool.false_ne_true]
  split
  · rw [String.toList_append]
    exact List.mem_append_left _ h
  · rw [String.toList_append, String.toList_append]
    exact List.mem_append_left _ (List.mem_append_left _ h)

namespace ReadFrom

variable {name : String} {p : Package}

theorem nul_not_mem_name (h : lib.ReadFrom kind name p) : '\x00' ∉ name.toList := by
  have hmetadata := h.metadata
  unfold readMetadata at hmetadata
  split at hmetadata
  · next text htext =>
      intro hnul
      refine nul_not_mem_of_readText htext (mem_join_left ?_ (mem_join hnul))
      cases kind <;> rfl
  · cases hmetadata

theorem nul_not_mem_file (h : lib.ReadFrom kind name p) {s : ScriptFile} (hs : s ∈ p.scripts) :
    '\x00' ∉ s.file.toList := by
  rcases h.scripts with ⟨files, _, hscripts⟩
  rcases mem_of_mapM hscripts hs with ⟨file, _, hread⟩
  unfold readScript at hread
  split at hread
  · cases hread
  · split at hread
    · next source hsource =>
        cases hread
        intro hnul
        exact nul_not_mem_of_readText hsource (mem_join hnul)
    · cases hread
    · cases hread

end ReadFrom

/-- No script of a package has a name with a NUL in it. -/
theorem nul_not_mem_chunkName {id : String} {p : Package} (h : lib.resolve kind id = .ok p)
    {s : ScriptFile} (hs : s ∈ p.scripts) : '\x00' ∉ (p.chunkName s).toList := by
  rcases resolve_eq_ok h with ⟨name, _, hread⟩
  have hid : '\x00' ∉ p.id.toList := by
    rw [hread.id_eq]
    exact Case.nul_not_mem_toLower hread.nul_not_mem_name
  have hfile := hread.nul_not_mem_file hs
  have hkind : '\x00' ∉ p.kind.directory.toList := by
    cases p.kind <;> decide
  have hslash : '\x00' ∉ "/".toList := by decide
  have hempty : '\x00' ∉ "".toList := by decide
  unfold Package.chunkName
  simp only [String.toList_append, List.mem_append, not_or, toString]
  exact ⟨⟨⟨⟨hkind, hslash⟩, hid⟩, hslash⟩, hfile⟩

end PackageLibrary

end PixelEffects
