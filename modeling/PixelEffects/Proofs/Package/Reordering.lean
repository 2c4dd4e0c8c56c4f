import PixelEffects.Proofs.FileTree.Change
import PixelEffects.Proofs.Package.Containment
import Mathlib.Data.List.Forall2

/-!
# The Order of Directories

Nothing that a library gives depends on the order in which directories list their entries.

A tree can be listed in many orders, one for every directory in it, and two listings of one tree are
two trees here. Looking up a path goes by names, so it fails in the same way in both, or it leads to
two listings of one node. What can be asked about a path is then the same, except for the entries of
a directory: their names come in another order. Wherever the library takes names from a directory, it
filters them and puts them in order before it takes the first of them, or all.

That is where it matters that no directory lists a name twice. Which of two entries with one name is
found would be a matter of order.

## Main definitions

* `Node.Reordered`, `FileTree.Reordered`: Two listings of one node, and of one tree.
* `Node.distinct`: No directory lists a name twice.
* `Matched`: Two computations that fail in the same way, or have results that go together.

## Theorems

* `FileTree.follow_matched`: Names lead to listings of the same nodes.
* `FileTree.entries_matched`: A directory lists the same names.
* `PackageLibrary.findDir_reordered`, `PackageLibrary.resolve_reordered`,
  `PackageLibrary.preloads_reordered`: What does not depend on the order.
* `EffectLoader.load_reordered`: Nothing depends on the order.
-/

namespace PixelEffects

/-- Two computations that fail with the same error, or both have a result, and these go together. -/
inductive Matched {ε α β : Type} (R : α → β → Prop) : Except ε α → Except ε β → Prop
  | error (e : ε) : Matched R (.error e) (.error e)
  | ok {a : α} {b : β} (h : R a b) : Matched R (.ok a) (.ok b)

theorem Matched.bind {ε α β γ δ : Type} {R : α → β → Prop} {S : γ → δ → Prop} {x : Except ε α}
    {y : Except ε β} {f : α → Except ε γ} {g : β → Except ε δ} (h : Matched R x y)
    (hnext : ∀ a b, R a b → Matched S (f a) (g b)) : Matched S (x >>= f) (y >>= g) := by
  cases h with
  | error e => exact .error e
  | ok hab => exact hnext _ _ hab

namespace Node

/-- Two listings of one node: files that hold the same, or directories whose entries have the same
    names and, under these, listings of the same nodes, and come in some order. -/
inductive Reordered : Node → Node → Prop
  | file (content : Content) : Reordered (.file content) (.file content)
  | dir {entries listed entries' : List (String × Node)}
      (hnames : entries.map (·.1) = listed.map (·.1))
      (hnodes : List.Forall₂ Reordered (entries.map (·.2)) (listed.map (·.2)))
      (horder : listed.Perm entries') : Reordered (.dir entries) (.dir entries')

mutual

/-- Whether no directory lists a name twice. -/
def distinct : Node → Bool
  | file _ => true
  | dir entries => decide (entries.map (·.1)).Nodup && allDistinct entries

/-- Whether no directory among entries, or below them, lists a name twice. -/
def allDistinct : List (String × Node) → Bool
  | [] => true
  | (_, node) :: rest => node.distinct && allDistinct rest

end

theorem distinct_of_mem {entries : List (String × Node)} (h : allDistinct entries = true) :
    ∀ entry ∈ entries, entry.2.distinct = true := by
  induction entries with
  | nil => exact fun _ hentry => absurd hentry List.not_mem_nil
  | cons first rest ih =>
      rw [allDistinct, Bool.and_eq_true] at h
      exact List.forall_mem_cons.mpr ⟨h.1, ih h.2⟩

/-- What is under a name when no other entry has it does not depend on the order. -/
theorem lookup_of_perm {entries entries' : List (String × Node)} (h : entries.Perm entries')
    (hnames : (entries.map (·.1)).Nodup) (name : String) :
    entries.lookup name = entries'.lookup name := by
  induction h with
  | nil => rfl
  | cons first _ ih =>
      rw [List.map_cons, List.nodup_cons] at hnames
      rw [lookup_cons_eq, lookup_cons_eq, ih hnames.2]
  | swap first second rest =>
      rw [List.map_cons, List.map_cons, List.nodup_cons, List.mem_cons, not_or] at hnames
      rw [lookup_cons_eq, lookup_cons_eq, lookup_cons_eq, lookup_cons_eq]
      -- The two entries that change places have different names.
      by_cases hfirst : name = first.1
      · rw [if_pos hfirst, if_pos hfirst,
          if_neg fun hsecond => hnames.1.1 (hsecond.symm.trans hfirst)]
      · rw [if_neg hfirst, if_neg hfirst]
  | trans hleft _ ih ih' => rw [ih hnames, ih' ((hleft.map (·.1)).nodup hnames)]

/-- Where entries have the same names in the same order, a name is found in both or in neither. -/
theorem lookup_of_forall₂ {R : Node → Node → Prop} {entries listed : List (String × Node)}
    (hnames : entries.map (·.1) = listed.map (·.1))
    (hnodes : List.Forall₂ R (entries.map (·.2)) (listed.map (·.2))) (name : String) :
    Option.Rel R (entries.lookup name) (listed.lookup name) := by
  induction entries generalizing listed with
  | nil =>
      rw [List.map_eq_nil_iff.mp hnames.symm]
      exact .none
  | cons first rest ih =>
      cases listed with
      | nil => cases hnames
      | cons first' rest' =>
          rw [List.map_cons, List.map_cons, List.cons.injEq] at hnames
          rw [List.map_cons, List.map_cons, List.forall₂_cons] at hnodes
          rw [lookup_cons_eq, lookup_cons_eq, ← hnames.1]
          by_cases hfirst : name = first.1
          · rw [if_pos hfirst, if_pos hfirst]
            exact .some hnodes.1
          · rw [if_neg hfirst, if_neg hfirst]
            exact ih hnames.2 hnodes.2

/-- Two listings of a directory list the same names. -/
theorem names_of_reordered {entries entries' : List (String × Node)}
    (h : (dir entries).Reordered (dir entries')) :
    (entries.map (·.1)).Perm (entries'.map (·.1)) := by
  cases h with
  | dir hnames _ horder =>
      rw [hnames]
      exact horder.map _

/-- A name is found in both listings of a directory or in neither, and where it is found there are
    listings of one node. -/
theorem lookup_of_reordered {entries entries' : List (String × Node)}
    (h : (dir entries).Reordered (dir entries')) (hdistinct : (entries.map (·.1)).Nodup)
    (name : String) : Option.Rel Reordered (entries.lookup name) (entries'.lookup name) := by
  cases h with
  | dir hnames hnodes horder =>
      rw [← lookup_of_perm horder (hnames ▸ hdistinct)]
      exact lookup_of_forall₂ hnames hnodes name

end Node

/-! ## Trees -/

namespace FileTree

/-- Two listings of one tree. -/
structure Reordered (t t' : FileTree) : Prop where
  top : t.top.Reordered t'.top
  start : t.start = t'.start

/-- Two listings of one node in which no directory lists a name twice. -/
def SameNode (node node' : Node) : Prop :=
  node.Reordered node' ∧ node.distinct = true

/-- Steps on the way along names that lead to listings of the same nodes. -/
abbrev SameWay (stack stack' : List (String × Node)) : Prop :=
  List.Forall₂ (fun e e' => e.1 = e'.1 ∧ SameNode e.2 e'.2) stack stack'

variable {t t' : FileTree}

/-- Names lead to listings of the same nodes, or fail to lead anywhere for the same reason. -/
theorem follow_matched {stack stack' : List (String × Node)} (h : SameWay stack stack')
    (names : List String) : Matched SameWay (follow stack names) (follow stack' names) := by
  induction names generalizing stack stack' with
  | nil =>
      cases h with
      | nil => exact .ok .nil
      | cons htop habove => exact .ok (.cons htop habove)
  | cons name names ih =>
      cases h with
      | nil => exact .error _
      | @cons top top' above above' htop habove =>
          rcases top with ⟨n, node⟩
          rcases top' with ⟨n', node'⟩
          rcases htop with ⟨rfl, hnode, hdistinct⟩
          cases node with
          | file content =>
              cases hnode with
              | file content => exact .error _
          | dir entries =>
              cases node' with
              | file content => cases hnode
              | dir entries' =>
                  have hhere : SameWay ((n, .dir entries) :: above) ((n, .dir entries') :: above') :=
                    .cons ⟨rfl, hnode, hdistinct⟩ habove
                  rw [Node.distinct, Bool.and_eq_true, decide_eq_true_eq] at hdistinct
                  rw [follow, follow]
                  split
                  · exact ih hhere
                  split
                  · cases habove with
                    | nil => exact ih hhere
                    | cons hnext hrest => exact ih (.cons hnext hrest)
                  split
                  · exact .error _
                  · -- A name is found in both directories or in neither.
                    have hchild := Node.lookup_of_reordered hnode hdistinct.1 name
                    generalize hfound : entries.lookup name = found at hchild
                    generalize entries'.lookup name = found' at hchild
                    cases hchild with
                    | none => exact .error _
                    | @some child child' hsame =>
                        refine ih (.cons ⟨rfl, hsame, ?_⟩ hhere)
                        rcases List.lookup_eq_some_iff.mp hfound with ⟨front, back, rfl, _⟩
                        exact Node.distinct_of_mem hdistinct.2 (name, child)
                          (List.mem_append_right front List.mem_cons_self)

/-- What is at a path is listed in two ways, or it fails to be there for the same reason. -/
theorem node?_matched (h : Reordered t t') (hdistinct : t.top.distinct = true) (p : Path) :
    Matched SameNode (t.node? p) (t'.node? p) := by
  have htop : SameWay [("", t.top)] [("", t'.top)] := .cons ⟨rfl, h.top, hdistinct⟩ .nil
  have hroute : t'.route p = t.route p := by
    unfold route
    rw [h.start]
  unfold node? nodeAt walk
  rw [hroute]
  cases checkPath p with
  | error e => exact .error e
  | ok u =>
      refine (follow_matched htop (t.route p)).bind fun stack stack' hstack => ?_
      cases hstack with
      | nil => exact .error _
      | cons hlast habove => exact .ok hlast.2

/-! ## What can be asked about a path -/

variable (h : Reordered t t') (hdistinct : t.top.distinct = true) (p : Path)
include h hdistinct

theorem isDir_reordered : t'.isDir p = t.isDir p := by
  have hnode := node?_matched h hdistinct p
  unfold isDir
  generalize t.node? p = found at hnode
  generalize t'.node? p = found' at hnode
  cases hnode with
  | error e => rfl
  | ok hsame => cases hsame.1 <;> rfl

theorem isFile_reordered : t'.isFile p = t.isFile p := by
  have hnode := node?_matched h hdistinct p
  unfold isFile
  generalize t.node? p = found at hnode
  generalize t'.node? p = found' at hnode
  cases hnode with
  | error e => rfl
  | ok hsame => cases hsame.1 <;> rfl

theorem readText_reordered : t'.readText p = t.readText p := by
  have hnode := node?_matched h hdistinct p
  unfold readText read
  generalize t.node? p = found at hnode
  generalize t'.node? p = found' at hnode
  cases hnode with
  | error e => rfl
  | ok hsame => cases hsame.1 <;> rfl

/-- A directory lists the same names, or fails to list any for the same reason. -/
theorem entries_matched :
    Matched (fun entries entries' => (entries.map (·.1)).Perm (entries'.map (·.1)))
      (t.entries p) (t'.entries p) := by
  unfold entries
  refine (node?_matched h hdistinct p).bind fun node node' hsame => ?_
  cases node with
  | file content =>
      cases hsame.1 with
      | file content => exact .error _
  | dir entries =>
      cases node' with
      | file content => cases hsame.1
      | dir entries' => exact .ok (Node.names_of_reordered hsame.1)

end FileTree

/-! ## Packages -/

namespace PackageLibrary

/-- The first of several directories in the order of their names is found. -/
theorem findDir_of_variants {lib : PackageLibrary} {kind : PackageKind} {id name : String}
    {entries : List (String × Node)} {others : List String} (hplain : Package.isPlainName id = true)
    (hdirect : lib.tree.isDir (lib.root.packageDir kind (Case.toLower id)) = false)
    (hentries : lib.tree.entries (lib.root.kindDir kind) = .ok entries)
    (hsorted : sortedNames ((lib.directories (lib.root.kindDir kind) entries).filter
      (Case.toLower · == Case.toLower id)) = name :: others) : lib.findDir kind id = .ok name := by
  unfold findDir
  rw [hplain, Bool.not_true, if_neg Bool.false_ne_true]
  dsimp only
  rw [hdirect, if_neg Bool.false_ne_true, hentries]
  dsimp only
  rw [hsorted]

variable {lib : PackageLibrary} {tree : FileTree} (h : FileTree.Reordered lib.tree tree)
  (hdistinct : lib.tree.top.distinct = true)
include h hdistinct

theorem directories_reordered (dir : Path) {entries entries' : List (String × Node)}
    (hnames : (entries.map (·.1)).Perm (entries'.map (·.1))) :
    ((lib.onTree tree).directories dir entries').Perm (lib.directories dir entries) := by
  unfold directories onTree
  simp only [FileTree.isDir_reordered h hdistinct]
  exact (hnames.filter _).symm

/-- The packages of a kind are listed alike. -/
theorem list_reordered (kind : PackageKind) : (lib.onTree tree).list kind = lib.list kind := by
  have hroot : (lib.onTree tree).root = lib.root := rfl
  have htree : (lib.onTree tree).tree = tree := rfl
  have hentries := FileTree.entries_matched h hdistinct (lib.root.kindDir kind)
  unfold list
  rw [hroot, htree]
  dsimp only
  generalize lib.tree.entries (lib.root.kindDir kind) = entries at hentries
  generalize tree.entries (lib.root.kindDir kind) = entries' at hentries
  cases hentries with
  | error e => cases e <;> rfl
  | ok hnames =>
      dsimp only
      rw [sortedNames_congr ((directories_reordered h hdistinct _ hnames).map _)]

/-- Of the directories that agree with an id, the same one is chosen. -/
theorem findDir_reordered (kind : PackageKind) (id : String) :
    (lib.onTree tree).findDir kind id = lib.findDir kind id := by
  have hroot : (lib.onTree tree).root = lib.root := rfl
  have htree : (lib.onTree tree).tree = tree := rfl
  have hentries := FileTree.entries_matched h hdistinct (lib.root.kindDir kind)
  unfold findDir
  simp only [hroot, htree, FileTree.isDir_reordered h hdistinct]
  generalize lib.tree.entries (lib.root.kindDir kind) = entries at hentries
  generalize tree.entries (lib.root.kindDir kind) = entries' at hentries
  cases hentries with
  | error e => rfl
  | ok hnames =>
      dsimp only
      rw [sortedNames_congr ((directories_reordered h hdistinct _ hnames).filter _)]

/-- Scripts that no list names come in the same order. -/
theorem scriptNames_reordered (dir : Path) :
    (lib.onTree tree).scriptNames dir = lib.scriptNames dir := by
  have htree : (lib.onTree tree).tree = tree := rfl
  have hentries := FileTree.entries_matched h hdistinct dir
  unfold scriptNames
  simp only [htree, FileTree.isFile_reordered h hdistinct]
  generalize lib.tree.entries dir = entries at hentries
  generalize tree.entries dir = entries' at hentries
  cases hentries with
  | error e => rfl
  | ok hnames =>
      simp only [orIo, bind, Except.bind]
      rw [sortedNames_congr (hnames.symm.filter _)]

theorem scriptsOf_reordered (metadata : Metadata) (kind : PackageKind) (dir : Path) :
    (lib.onTree tree).scriptsOf metadata kind dir = lib.scriptsOf metadata kind dir := by
  unfold scriptsOf
  split
  · rfl
  · rfl
  · exact scriptNames_reordered h hdistinct dir

theorem readScript_reordered (id : String) (dir : Path) :
    (lib.onTree tree).readScript id dir = lib.readScript id dir := by
  funext file
  unfold readScript onTree
  simp only [FileTree.readText_reordered h hdistinct]

theorem readMetadata_reordered (kind : PackageKind) (id : String) (dir : Path) :
    (lib.onTree tree).readMetadata kind id dir = lib.readMetadata kind id dir := by
  unfold readMetadata onTree
  simp only [FileTree.readText_reordered h hdistinct]

/-- An id finds the same package. -/
theorem resolve_reordered (kind : PackageKind) (id : String) :
    (lib.onTree tree).resolve kind id = lib.resolve kind id := by
  have hroot : (lib.onTree tree).root = lib.root := rfl
  unfold resolve
  simp only [hroot, findDir_reordered h hdistinct, readMetadata_reordered h hdistinct,
    scriptsOf_reordered h hdistinct, readScript_reordered h hdistinct]

theorem entryCount_reordered (kind : PackageKind) :
    (lib.onTree tree).entryCount kind = lib.entryCount kind := by
  have hroot : (lib.onTree tree).root = lib.root := rfl
  have htree : (lib.onTree tree).tree = tree := rfl
  have hentries := FileTree.entries_matched h hdistinct (lib.root.kindDir kind)
  unfold entryCount
  rw [hroot, htree]
  generalize lib.tree.entries (lib.root.kindDir kind) = entries at hentries
  generalize tree.entries (lib.root.kindDir kind) = entries' at hentries
  cases hentries with
  | error e => rfl
  | ok hnames =>
      have hlength := hnames.length_eq
      rw [List.length_map, List.length_map] at hlength
      exact hlength.symm

/-- The same libs are run before an effect, in the same order. -/
theorem preloads_reordered (shadowing : Shadowing) (effect : Package) :
    (lib.onTree tree).preloads shadowing effect = lib.preloads shadowing effect := by
  have hfind : (lib.onTree tree).resolve .lib = lib.resolve .lib :=
    funext fun id => resolve_reordered h hdistinct .lib id
  unfold preloads
  rw [hfind, entryCount_reordered h hdistinct]

end PackageLibrary

/-! ## Effects -/

namespace EffectLoader

/-- For a tree in which no directory lists a name twice and any two orders in which its directories
    list their entries: the packages of a kind are listed alike; an id finds the same directory, and
    a directory has the same scripts, in one order; an id resolves to the same package, and an effect
    has the same libs before it, in one order; and to load an effect gives the same, whatever was
    kept of earlier operations. What fails in one order fails with the same error in the other. -/
theorem load_reordered (loader : EffectLoader) (tree : FileTree)
    (hdistinct : loader.library.tree.top.distinct = true)
    (h : FileTree.Reordered loader.library.tree tree) :
    (∀ kind, (loader.library.onTree tree).list kind = loader.library.list kind) ∧
    (∀ kind id, (loader.library.onTree tree).findDir kind id = loader.library.findDir kind id) ∧
    (∀ dir, (loader.library.onTree tree).scriptNames dir = loader.library.scriptNames dir) ∧
    (∀ kind id, (loader.library.onTree tree).resolve kind id = loader.library.resolve kind id) ∧
    (∀ shadowing effect, (loader.library.onTree tree).preloads shadowing effect =
      loader.library.preloads shadowing effect) ∧
    ∀ id params, (loader.onTree tree).load id params = loader.load id params := by
  have hresolve := PackageLibrary.resolve_reordered h hdistinct
  have hpreloads := PackageLibrary.preloads_reordered h hdistinct
  refine ⟨PackageLibrary.list_reordered h hdistinct, PackageLibrary.findDir_reordered h hdistinct,
    PackageLibrary.scriptNames_reordered h hdistinct, hresolve, hpreloads, fun id params => ?_⟩
  have hlibrary : (loader.onTree tree).library = loader.library.onTree tree := rfl
  have hfind : (loader.onTree tree).find id params = loader.find id params := by
    unfold find
    rw [hlibrary, hresolve]
    simp only [hpreloads]
    rfl
  unfold load
  rw [hfind]

/-- A tree with an effect in two letter cases and a lib with two scripts, in which directories list
    their entries in some order. -/
def caseVariants (order : List (String × Node) → List (String × Node)) : FileTree :=
  let effect (file : Node) : Node :=
    .dir (order [(PackageKind.effect.metadataFile, .file (.text "preload: base")),
      (Package.effectScript, file)])
  let lib : Node :=
    .dir (order [(PackageKind.lib.metadataFile, .file (.text "")), ("a.lua", .file (.text "x = 1")),
      ("b.lua", .file (.text "x = 2"))])
  let script : Node := .file (.text "function effect(p) return {r = x} end")
  ⟨.dir (order [("effects", .dir (order [("Fx", effect script), ("FX", effect script)])),
    ("libs", .dir (order [("base", lib)]))]), []⟩

theorem reordered_caseVariants {order : List (String × Node) → List (String × Node)}
    (h : ∀ entries : List (String × Node), entries.Perm (order entries)) :
    (caseVariants id).Reordered (caseVariants order) := by
  have hfile (text : String) : (Node.file (.text text)).Reordered (.file (.text text)) := .file _
  have hdir {entries listed : List (String × Node)}
      (hnames : entries.map (·.1) = listed.map (·.1))
      (hnodes : List.Forall₂ Node.Reordered (entries.map (·.2)) (listed.map (·.2))) :
      (Node.dir entries).Reordered (.dir (order listed)) := .dir hnames hnodes (h listed)
  refine ⟨hdir rfl (.cons (hdir rfl ?_) (.cons (hdir rfl ?_) .nil)), rfl⟩
  · -- The two effects hold the same.
    have heffect := List.Forall₂.cons (hfile "preload: base")
      (.cons (hfile "function effect(p) return {r = x} end") .nil)
    exact .cons (hdir rfl heffect) (.cons (hdir rfl heffect) .nil)
  · exact .cons (hdir rfl (.cons (hfile "") (.cons (hfile "x = 1") (.cons (hfile "x = 2") .nil))))
      .nil

/-- Whichever of the two is listed first, the directory in capitals is found. -/
theorem load_reordered_caseVariants :
    (caseVariants id).top.distinct = true ∧
      (caseVariants id).Reordered (caseVariants List.reverse) ∧
      PackageLibrary.findDir ⟨caseVariants List.reverse, ⟨"/"⟩⟩ .effect "fx" = .ok "FX" ∧
      ((ofLibrary ⟨caseVariants id, ⟨"/"⟩⟩ {} false .spaced).onTree
          (caseVariants List.reverse)).load "fx" ∅ =
        (ofLibrary ⟨caseVariants id, ⟨"/"⟩⟩ {} false .spaced).load "fx" ∅ := by
  have hdistinct : (caseVariants id).top.distinct = true := by decide +kernel
  have hreordered : (caseVariants id).Reordered (caseVariants List.reverse) :=
    reordered_caseVariants fun entries => entries.reverse_perm.symm
  rcases load_reordered (ofLibrary ⟨caseVariants id, ⟨"/"⟩⟩ {} false .spaced) _ hdistinct hreordered
    with ⟨_, hfind, _, _, _, hload⟩
  refine ⟨hdistinct, hreordered, ?_, hload "fx" ∅⟩
  have hsorted : sortedNames ["Fx", "FX"] = ["FX", "Fx"] :=
    (sortedNames_congr (.swap "FX" "Fx" [])).trans
      (List.mergeSort_of_pairwise (by decide +kernel))
  have hfound : PackageLibrary.findDir ⟨caseVariants id, ⟨"/"⟩⟩ .effect "fx" = .ok "FX" :=
    PackageLibrary.findDir_of_variants rfl rfl rfl hsorted
  exact (hfind .effect "fx").trans hfound

end EffectLoader

end PixelEffects
