import PixelEffects.Proofs.Effect.Client
import PixelEffects.Proofs.Package.Directory

/-!
# Packages Stay in Their Directories

Which files decide what an id finds.

Ids, names of scripts and names of libs come from anywhere, and all of them become parts of paths.
That none of them leads out of the directory of packages is said by what they cannot notice. When
two trees list the same directories there, and agree under the one directory that an id finds, then
the id finds the same in both, whatever else is different. To load an effect takes many ids, but all
are looked up in two directories. So where two trees agree under both, there is no difference at
all.

Agreement is about what can be seen, so it does not matter in which order the entries of a directory
are listed, nor what leads to the root of the library. The trees must be well named: if a file could
be called like a path upward, a listing would lead out.

## Main definitions

* `PackageLibrary.onTree`: The same library with other files.
* `FileTree.SameListing`: Two trees in which a directory lists the same directories.

## Theorems

* `PackageLibrary.findDir_congr`: The directory that an id finds depends on the listing.
* `PackageLibrary.resolve_congr`: The package depends on that directory.
* `EffectLoader.load_contained`: What packages and effects depend on.
-/

namespace PixelEffects

namespace FileTree

/-- Two trees in which a directory lists the same names, of which the same are those of
    directories. -/
structure SameListing (t t' : FileTree) (dir : Path) : Prop where
  names : (t.names? dir).toOption = (t'.names? dir).toOption
  dirs : ∀ name, Path.isName name = true →
    t.isDir (Path.join dir name) = t'.isDir (Path.join dir name)

variable {t t' : FileTree} {dir : Path}

/-- Trees that agree under a directory list the same there. -/
theorem AgreeUnder.sameListing (h : AgreeUnder t t' dir) (hdir : dir.Closed) :
    SameListing t t' dir := by
  refine ⟨?_, fun name hname => ?_⟩
  · rw [toOption_names?, toOption_names?, h.toOption_sight?_eq]
  · rw [isDir_eq, isDir_eq, (h.join hdir hname).toOption_sight?_eq]

end FileTree

namespace PackageLibrary

/-- The same library with other files. -/
def onTree (lib : PackageLibrary) (tree : FileTree) : PackageLibrary :=
  { lib with tree := tree }

variable {lib : PackageLibrary} {tree : FileTree} {kind : PackageKind} {id : String} {dir : Path}

/-- Where the same is listed, the directory that an id finds is the same. -/
theorem findDir_congr (hnamed : lib.tree.WellNamed)
    (h : FileTree.SameListing lib.tree tree (lib.root.kindDir kind)) (id : String) :
    (lib.onTree tree).findDir kind id = lib.findDir kind id := by
  unfold findDir onTree
  dsimp only
  cases hplain : Package.isPlainName id with
  | false => rw [Bool.not_false, if_pos rfl, if_pos rfl]
  | true =>
      have hdirect := h.dirs _ (Package.isName_toLower hplain)
      unfold LibraryRoot.packageDir
      rw [← hdirect]
      rcases FileTree.entries_cases h.names with
        ⟨e, e', hentries, hentries'⟩ | ⟨entries, entries', hentries, hentries', hperm⟩
      · rw [hentries, hentries']
      · rw [hentries, hentries']
        dsimp only
        have hdirs : (directories ⟨tree, lib.root⟩ (lib.root.kindDir kind) entries').Perm
            (lib.directories (lib.root.kindDir kind) entries) := by
          have hsame : ∀ name ∈ entries.map (·.1),
              lib.tree.isDir (Path.join (lib.root.kindDir kind) name) =
                tree.isDir (Path.join (lib.root.kindDir kind) name) :=
            fun name hname => h.dirs name (hnamed.isName_of_entries hentries name hname)
          unfold directories
          rw [List.filter_congr hsame]
          exact (hperm.filter _).symm
        rw [sortedNames_congr (hdirs.filter _)]

/-- Below the directory of a package, metadata are the same where trees agree. -/
theorem readMetadata_congr (h : FileTree.AgreeUnder lib.tree tree dir) (hdir : dir.Closed)
    (hthere : lib.tree.isDir dir = true) (kind : PackageKind) (id : String) :
    (lib.onTree tree).readMetadata kind id dir = lib.readMetadata kind id dir := by
  have hsame := h.sight?_join hdir kind.isName_metadataFile hthere
  unfold readMetadata onTree
  dsimp only
  rw [FileTree.readText_eq, FileTree.readText_eq, hsame]

theorem readScript_congr (h : FileTree.AgreeUnder lib.tree tree dir) (hdir : dir.Closed)
    (hthere : lib.tree.isDir dir = true) (id : String) :
    (lib.onTree tree).readScript id dir = lib.readScript id dir := by
  funext file
  unfold readScript onTree
  dsimp only
  cases hplain : Package.isPlainName file with
  | false => rw [Bool.not_false, if_pos rfl, if_pos rfl]
  | true =>
      have hsame := h.sight?_join hdir (Package.isName_of_isPlainName hplain) hthere
      rw [FileTree.readText_eq, FileTree.readText_eq, hsame]

theorem scriptNames_congr (hnamed : lib.tree.WellNamed)
    (h : FileTree.AgreeUnder lib.tree tree dir) (hdir : dir.Closed)
    (hthere : lib.tree.isDir dir = true) :
    (lib.onTree tree).scriptNames dir = lib.scriptNames dir := by
  unfold scriptNames onTree
  dsimp only
  rcases FileTree.entries_cases (h.sameListing hdir).names with
    ⟨e, e', hentries, _⟩ | ⟨entries, entries', hentries, hentries', hperm⟩
  · rcases FileTree.entries_of_isDir hthere with ⟨entries, hok⟩
    rw [hok] at hentries
    cases hentries
  · have hsame : ∀ name ∈ entries.map (·.1),
        (lib.tree.isFile (Path.join dir name) &&
            Path.nameExtension? name == some Package.scriptExtension) =
          (tree.isFile (Path.join dir name) &&
            Path.nameExtension? name == some Package.scriptExtension) := by
      intro name hname
      have hsight := h.sight?_join hdir (hnamed.isName_of_entries hentries name hname) hthere
      rw [FileTree.isFile_eq, FileTree.isFile_eq, hsight]
    rw [hentries, hentries']
    simp only [orIo, bind, Except.bind, pure, Except.pure]
    rw [List.filter_congr hsame, sortedNames_congr (hperm.filter _)]

theorem scriptsOf_congr (hnamed : lib.tree.WellNamed)
    (h : FileTree.AgreeUnder lib.tree tree dir) (hdir : dir.Closed)
    (hthere : lib.tree.isDir dir = true) (metadata : Metadata) (kind : PackageKind) :
    (lib.onTree tree).scriptsOf metadata kind dir = lib.scriptsOf metadata kind dir := by
  unfold scriptsOf
  split
  · rfl
  · rfl
  · exact scriptNames_congr hnamed h hdir hthere

/-- Where the same is listed, and trees agree under the one directory that an id finds, the id finds
    the same. -/
theorem resolve_congr (hnamed : lib.tree.WellNamed)
    (hlisting : FileTree.SameListing lib.tree tree (lib.root.kindDir kind))
    (hunder : ∀ name, lib.findDir kind id = .ok name →
      FileTree.AgreeUnder lib.tree tree (lib.root.packageDir kind name)) :
    (lib.onTree tree).resolve kind id = lib.resolve kind id := by
  unfold resolve
  rw [findDir_congr hnamed hlisting]
  cases hfind : lib.findDir kind id with
  | error e => rfl
  | ok name =>
      have hagree := hunder name hfind
      have hdir := lib.root.closed_packageDir kind (isName_of_findDir hfind)
      have hthere := isDir_of_findDir hfind
      have hroot : (lib.onTree tree).root = lib.root := rfl
      simp only [bind, Except.bind]
      rw [hroot, readMetadata_congr hagree hdir hthere]
      cases lib.readMetadata kind (Case.toLower name) (lib.root.packageDir kind name) with
      | error e => rfl
      | ok metadata =>
          dsimp only
          rw [scriptsOf_congr hnamed hagree hdir hthere, readScript_congr hagree hdir hthere]

/-- Where trees agree under the directory of a kind, every id finds the same. -/
theorem resolve_eq_of_agreeUnder (hnamed : lib.tree.WellNamed)
    (h : FileTree.AgreeUnder lib.tree tree (lib.root.kindDir kind)) (id : String) :
    (lib.onTree tree).resolve kind id = lib.resolve kind id := by
  have hclosed := lib.root.closed_kindDir kind
  refine resolve_congr hnamed (h.sameListing hclosed) fun name hfind => ?_
  exact h.join hclosed (isName_of_findDir hfind)

/-- There is one directory that an id can have to do with, apart from what is listed beside it. -/
theorem exists_resolve_congr (hnamed : lib.tree.WellNamed) (kind : PackageKind) (id : String) :
    ∃ child, Path.isName child = true ∧
      (∀ p, lib.resolve kind id = .ok p → p.dir = lib.root.packageDir kind child) ∧
      ∀ tree, FileTree.SameListing lib.tree tree (lib.root.kindDir kind) →
        FileTree.AgreeUnder lib.tree tree (lib.root.packageDir kind child) →
        (lib.onTree tree).resolve kind id = lib.resolve kind id := by
  cases hfind : lib.findDir kind id with
  | ok name =>
      refine ⟨name, isName_of_findDir hfind, fun p hp => ?_, fun tree hlisting hunder => ?_⟩
      · rcases resolve_eq_ok hp with ⟨name', hname', hread⟩
        rw [hfind] at hname'
        cases hname'
        exact hread.dir_eq
      · refine resolve_congr hnamed hlisting fun name' hname' => ?_
        rw [hfind] at hname'
        cases hname'
        exact hunder
  | error e =>
      -- Nothing is found, so nothing but the listing matters.
      refine ⟨kind.directory, kind.isName_directory, fun p hp => ?_, fun tree hlisting _ => ?_⟩
      · rcases resolve_eq_ok hp with ⟨name', hname', _⟩
        rw [hfind] at hname'
        cases hname'
      · refine resolve_congr hnamed hlisting fun name' hname' => ?_
        rw [hfind] at hname'
        cases hname'

theorem entryCount_congr (h : (lib.tree.names? (lib.root.kindDir kind)).toOption =
    (tree.names? (lib.root.kindDir kind)).toOption) :
    (lib.onTree tree).entryCount kind = lib.entryCount kind := by
  unfold entryCount onTree
  dsimp only
  rcases FileTree.entries_cases h with
    ⟨e, e', hentries, hentries'⟩ | ⟨entries, entries', hentries, hentries', hperm⟩
  · rw [hentries, hentries']
  · rw [hentries, hentries']
    have hlength := hperm.length_eq
    rw [List.length_map, List.length_map] at hlength
    exact hlength.symm

theorem preloads_congr (hnamed : lib.tree.WellNamed)
    (h : FileTree.AgreeUnder lib.tree tree (lib.root.kindDir .lib)) (shadowing : Shadowing)
    (effect : Package) :
    (lib.onTree tree).preloads shadowing effect = lib.preloads shadowing effect := by
  have hfind : (lib.onTree tree).resolve .lib = lib.resolve .lib :=
    funext fun id => resolve_eq_of_agreeUnder hnamed h id
  unfold preloads
  rw [hfind, entryCount_congr (h.sameListing (lib.root.closed_kindDir .lib)).names]

end PackageLibrary

namespace EffectLoader

theorem load_congr {loader : EffectLoader} {tree : FileTree}
    (hnamed : loader.library.tree.WellNamed)
    (heffects : FileTree.AgreeUnder loader.library.tree tree (loader.library.root.kindDir .effect))
    (hlibs : FileTree.AgreeUnder loader.library.tree tree (loader.library.root.kindDir .lib))
    (id : String) (params : Params) :
    (loader.onTree tree).load id params = loader.load id params := by
  have hlibrary : (loader.onTree tree).library = loader.library.onTree tree := rfl
  have hfind : (loader.onTree tree).find id params = loader.find id params := by
    unfold find
    rw [hlibrary, PackageLibrary.resolve_eq_of_agreeUnder hnamed heffects]
    simp only [PackageLibrary.preloads_congr hnamed hlibs]
    rfl
  unfold load
  rw [hfind]

/-- What an id finds depends on what is listed in the directory of its kind and on what is under one
    directory there, which has a name. So it depends on what is under the directory of its kind; and
    what is loaded depends on what is under the directories of both kinds. -/
theorem load_contained (loader : EffectLoader) (hnamed : loader.library.tree.WellNamed) :
    (∀ kind id, ∃ child, Path.isName child = true ∧
      (∀ p, loader.library.resolve kind id = .ok p →
        p.dir = loader.library.root.packageDir kind child) ∧
      ∀ tree,
        FileTree.SameListing loader.library.tree tree (loader.library.root.kindDir kind) →
        FileTree.AgreeUnder loader.library.tree tree
          (loader.library.root.packageDir kind child) →
        (loader.library.onTree tree).resolve kind id = loader.library.resolve kind id) ∧
    (∀ kind tree,
      FileTree.AgreeUnder loader.library.tree tree (loader.library.root.kindDir kind) →
      ∀ id, (loader.library.onTree tree).resolve kind id = loader.library.resolve kind id) ∧
    ∀ tree,
      FileTree.AgreeUnder loader.library.tree tree (loader.library.root.kindDir .effect) →
      FileTree.AgreeUnder loader.library.tree tree (loader.library.root.kindDir .lib) →
      ∀ id params, (loader.onTree tree).load id params = loader.load id params :=
  ⟨PackageLibrary.exists_resolve_congr hnamed,
    fun _ _ hunder id => PackageLibrary.resolve_eq_of_agreeUnder hnamed hunder id,
    fun _ heffects hlibs id params => load_congr hnamed heffects hlibs id params⟩

/-- The files of a tree, and one beside them at the top. -/
def beside (tree : FileTree) (name content : String) : FileTree :=
  { tree with top := .dir ((name, .file (.text content)) :: tree.top.entries) }

/-- A script beside the directories of packages cannot be reached from there, and makes no
    difference. -/
theorem load_contained_beside :
    (diamond .lastWins).library.tree.WellNamed ∧
      ((diamond .lastWins).library.onTree
          (beside (diamond .lastWins).library.tree "a.lua" "x = 1")).resolve .lib "../a.lua" =
        (diamond .lastWins).library.resolve .lib "../a.lua" ∧
      ((diamond .lastWins).onTree
          (beside (diamond .lastWins).library.tree "a.lua" "x = 1")).load "FX" ∅ =
        (diamond .lastWins).load "FX" ∅ := by
  have hnamed : (diamond .lastWins).library.tree.WellNamed := by
    unfold FileTree.WellNamed
    decide +kernel
  have hunder : ∀ kind, FileTree.AgreeUnder (diamond .lastWins).library.tree
      (beside (diamond .lastWins).library.tree "a.lua" "x = 1")
      ((diamond .lastWins).library.root.kindDir kind) := by
    intro kind
    refine .of_nodeAt ?_
    cases kind <;> rfl
  rcases load_contained (diamond .lastWins) hnamed with ⟨_, hresolve, hload⟩
  exact ⟨hnamed, hresolve .lib _ (hunder .lib) "../a.lua",
    hload _ (hunder .effect) (hunder .lib) "FX" ∅⟩

end EffectLoader

end PixelEffects
