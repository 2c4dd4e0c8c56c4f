import PixelEffects.CommandLine.Run
import PixelEffects.Proofs.FileTree.Change
import PixelEffects.Proofs.Package.Listing

/-!
# Making Effects

What the command that makes an effect does to the effects that are there.

The command looks at one path only, where the directory of the new effect is to be: the id in lower
case. If something is there, it fails and changes nothing. Otherwise the directory is made, and
whatever fails after that, the directory stays. But an id also finds a directory with capital
letters in its name, if there is none in lower case. So the command can make an effect whose id
finds another one, and as the lower case comes first, the other one is not found any more.

What is left of it that ids are unique: a directory with a name in lower case is never hidden, and
no directory is made beside it whose name agrees with it. Any other one can be hidden once.

## Main definitions

* `Action.treeAfter`, `Action.treeAfterAll`: What one command and several commands leave behind.
* `Action.Grown`: How the directories of effects change.

## Theorems

* `Action.initEffect_eq`: The steps of the command.
* `Action.initEffect_cases`: What the command does where effects are listed.
* `Action.grown_initEffect`, `Action.grown_treeAfterAll`: One new effect, and any number of them.
* `Action.findDir_of_grown`: What ids find when effects were made.
* `Action.initEffect_keeps_ids`: Which effects are hidden.
-/

namespace PixelEffects

namespace CommandLine

namespace Action

/-- The tree that an action leaves behind, whether it fails or not. -/
def treeAfter {α : Type} (action : Action α) (t : FileTree) : FileTree :=
  match action t with
  | .ok _ t => t
  | .error _ t => t

variable {context : Context} {id : String} {template : Bool} {t t' : FileTree}

/-- The files that a new effect has. -/
def filesOf (template : Bool) : EffectTemplate :=
  if template then .starter else .blank

/-- The steps of making an effect, each on the tree that the one before has left. -/
theorem initEffect_eq (h : isNewId (Case.toLower id) = true) :
    initEffect context id template t =
      match t.makeDirs (context.root.kindDir .effect) with
      | .error e => .error (.createDir (context.root.kindDir .effect) e) t
      | .ok t =>
        let dir := context.root.packageDir .effect (Case.toLower id)
        match t.makeDir dir with
        | .error e => .error (.createEffectDir dir e) t
        | .ok t =>
          let script := Path.join dir Package.effectScript
          match t.write script (.text (filesOf template).script) with
          | .error e => .error (.writeFile script e) t
          | .ok t =>
            let metadata := Path.join dir PackageKind.effect.metadataFile
            match t.write metadata (.text (filesOf template).metadata) with
            | .error e => .error (.writeFile metadata e) t
            | .ok t => .ok (.finished s!"View your effect in: {dir}\n" []) t := by
  unfold initEffect
  simp only [h, if_true]
  unfold change writeText change
  simp only [bind, EStateM.bind, pure, EStateM.pure]
  cases t.makeDirs (context.root.kindDir .effect) with
  | error e => rfl
  | ok t₁ =>
  dsimp only
  cases t₁.makeDir (context.root.packageDir .effect (Case.toLower id)) with
  | error e => rfl
  | ok t₂ =>
  dsimp only
  unfold filesOf
  cases t₂.write
      (Path.join (context.root.packageDir .effect (Case.toLower id)) Package.effectScript)
      (.text (if template then EffectTemplate.starter else .blank).script) with
  | error e => rfl
  | ok t₃ =>
  dsimp only
  cases t₃.write (Path.join (context.root.packageDir .effect (Case.toLower id))
      PackageKind.effect.metadataFile)
      (.text (if template then EffectTemplate.starter else .blank).metadata) <;> rfl

/-! ## New ids -/

theorem isNewId_iff {s : String} : isNewId s = true ↔
    s ≠ "" ∧ (∀ c ∈ s.toList, Stage.isIdCharacter c = true) ∧ Package.leadsUp s.toList = false := by
  unfold isNewId
  simp only [Bool.and_eq_true, Bool.not_eq_true', and_assoc, ← Bool.not_eq_true, List.isEmpty_iff,
    String.toList_eq_nil_iff, List.all_eq_true, ne_eq]

theorem isPart_of_isNewId {s : String} (h : isNewId s = true) : Path.IsPart s := by
  rcases isNewId_iff.mp h with ⟨hempty, hchars, _⟩
  refine ⟨hempty, fun hslash => ?_⟩
  have hsign := hchars '/' hslash
  revert hsign
  decide

theorem isName_effectScript : Path.isName Package.effectScript = true := by
  decide

/-! ## What is there afterwards -/

/-- Making an effect changes nothing but that a directory is gained, which has the id in lower case
    as its name. If none is gained, it fails. -/
theorem initEffect_cases {entries : List (String × Node)}
    (hthere : t.node? (context.root.kindDir .effect) = .ok (.dir entries)) (id : String)
    (template : Bool) :
    ((∃ f, initEffect context id template t = .error f t) ∧
      (isNewId (Case.toLower id) = true →
        ∀ t', t.makeDir (context.root.packageDir .effect (Case.toLower id)) ≠ .ok t')) ∨
      isNewId (Case.toLower id) = true ∧ Path.isName (Case.toLower id) = true ∧
        t.node? (context.root.packageDir .effect (Case.toLower id)) = .error .notFound ∧
        ∃ files, (treeAfter (initEffect context id template) t).Gained
          (context.root.kindDir .effect) entries (Case.toLower id) files := by
  have hclosed := context.root.closed_kindDir .effect
  by_cases hnew : isNewId (Case.toLower id) = true
  · have hpart := isPart_of_isNewId hnew
    unfold treeAfter
    rw [initEffect_eq hnew, FileTree.makeDirs_of_node? hclosed hthere]
    dsimp only
    cases hmade : t.makeDir (context.root.packageDir .effect (Case.toLower id)) with
    | error e => exact .inl ⟨⟨_, rfl⟩, fun _ _ hok => by cases hok⟩
    | ok t₁ =>
        have hname := FileTree.isName_of_makeDir hclosed hpart hmade
        rcases FileTree.Gained.of_makeDir hclosed hname hmade with
          ⟨entries', hnode, _, hshort, hgained⟩
        rw [FileTree.nodeAt_of_node? hthere] at hnode
        cases hnode
        refine .inr ⟨hnew, hname,
          (FileTree.exists_makeDir_iff hclosed hname hthere).mp ⟨_, hmade⟩, ?_⟩
        -- Whether the files can be written or not, they are written there.
        dsimp only
        cases hscript : t₁.write (Path.join (context.root.packageDir .effect (Case.toLower id))
            Package.effectScript) (.text (filesOf template).script) with
        | error e => exact ⟨_, hgained⟩
        | ok t₂ =>
            have hgained₂ := (hgained.write hclosed hname hshort isName_effectScript hscript).1
            dsimp only
            cases hmetadata : t₂.write (Path.join (context.root.packageDir .effect
                (Case.toLower id)) PackageKind.effect.metadataFile)
                (.text (filesOf template).metadata) with
            | error e => exact ⟨_, hgained₂⟩
            | ok t₃ =>
                exact ⟨_, (hgained₂.write hclosed hname hshort
                  (PackageKind.isName_metadataFile .effect) hmetadata).1⟩
  · refine .inl ⟨⟨.invalidId id, ?_⟩, fun h => absurd h hnew⟩
    unfold initEffect
    dsimp only
    rw [if_neg hnew]
    rfl

/-! ## Directories of effects -/

/-- What a tree has become in which effects were made: it has all directories of effects that it
    had, and new ones only with names in lower case. -/
structure Grown (context : Context) (t t' : FileTree) : Prop where
  listed : ∃ entries, t'.node? (context.root.kindDir .effect) = .ok (.dir entries)
  kept : ∀ name, Path.isName name = true →
    t.isDir (context.root.packageDir .effect name) = true →
      t'.isDir (context.root.packageDir .effect name) = true
  lower : ∀ name, Path.isName name = true →
    t'.isDir (context.root.packageDir .effect name) = true →
      t.isDir (context.root.packageDir .effect name) = true ∨ Case.toLower name = name

namespace Grown

theorem refl {entries : List (String × Node)}
    (h : t.node? (context.root.kindDir .effect) = .ok (.dir entries)) : Grown context t t :=
  ⟨⟨entries, h⟩, fun _ _ => id, fun _ _ => .inl⟩

theorem trans {t'' : FileTree} (h : Grown context t t') (h' : Grown context t' t'') :
    Grown context t t'' := by
  refine ⟨h'.listed, fun name hname hdir => h'.kept name hname (h.kept name hname hdir),
    fun name hname hdir => ?_⟩
  rcases h'.lower name hname hdir with hbefore | hlower
  · exact h.lower name hname hbefore
  · exact .inr hlower

end Grown

/-- The tree in front of an effect that was made, and the one after it. -/
theorem node?_of_gained {entries files : List (String × Node)}
    (hthere : t.node? (context.root.kindDir .effect) = .ok (.dir entries))
    (h : t'.Gained (context.root.kindDir .effect) entries (Case.toLower id) files) :
    t'.node? (context.root.kindDir .effect) =
      .ok (.dir (entries ++ [(Case.toLower id, .dir files)])) := by
  unfold FileTree.node? at hthere ⊢
  rcases bind_eq_ok hthere with ⟨_, hcheck, _⟩
  rw [hcheck]
  exact h.nodeAt

/-- To make one effect. -/
theorem grown_initEffect {entries : List (String × Node)}
    (hthere : t.node? (context.root.kindDir .effect) = .ok (.dir entries)) (id : String)
    (template : Bool) : Grown context t (treeAfter (initEffect context id template) t) := by
  rcases initEffect_cases hthere id template with
    ⟨⟨f, hfailed⟩, _⟩ | ⟨_, hname, hfree, files, hgained⟩
  · unfold treeAfter
    rw [hfailed]
    exact .refl hthere
  · have hclosed := context.root.closed_kindDir .effect
    have hafter := node?_of_gained hthere hgained
    -- Only the new name is looked up in another way.
    have hsame : ∀ name, Path.isName name = true → name ≠ Case.toLower id →
        (treeAfter (initEffect context id template) t).isDir
            (context.root.packageDir .effect name) =
          t.isDir (context.root.packageDir .effect name) := by
      intro name hname hne
      unfold FileTree.isDir LibraryRoot.packageDir
      rw [FileTree.node?_join_of_node? hclosed hname hthere hafter
        (FileTree.Gained.lookup_of_ne hne)]
    refine ⟨⟨_, hafter⟩, fun name hname hdir => ?_, fun name hname hdir => ?_⟩
    · rw [hsame name hname ?_]
      · exact hdir
      · rintro rfl
        unfold FileTree.isDir at hdir
        rw [hfree] at hdir
        cases hdir
    · by_cases heq : name = Case.toLower id
      · rw [heq]
        exact .inr (Case.toLower_toLower id)
      · rw [hsame name hname heq] at hdir
        exact .inl hdir

/-- The tree that is left after effects were made one after the other, whether one fails or not. -/
def treeAfterAll (context : Context) (runs : List (String × Bool)) (t : FileTree) : FileTree :=
  runs.foldl (fun t run => treeAfter (initEffect context run.1 run.2) t) t

/-- To make any number of effects. -/
theorem grown_treeAfterAll {entries : List (String × Node)}
    (hthere : t.node? (context.root.kindDir .effect) = .ok (.dir entries))
    (runs : List (String × Bool)) : Grown context t (treeAfterAll context runs t) := by
  induction runs generalizing t entries with
  | nil => exact .refl hthere
  | cons run runs ih =>
      have hfirst := grown_initEffect hthere run.1 run.2
      rcases hfirst.listed with ⟨entries', hthere'⟩
      exact hfirst.trans (ih hthere')

/-! ## Ids -/

/-- The packages in a tree. -/
abbrev packages (context : Context) (t : FileTree) : PackageLibrary :=
  ⟨t, context.root⟩

/-- Where an effect is found, effects are listed. -/
theorem exists_node?_of_findDir {name : String}
    (h : (packages context t).findDir .effect id = .ok name) :
    ∃ entries, t.node? (context.root.kindDir .effect) = .ok (.dir entries) := by
  rcases PackageLibrary.mem_entries_of_findDir h with ⟨entries, hentries, _⟩
  refine ⟨entries, ?_⟩
  unfold FileTree.entries at hentries
  rcases bind_eq_ok hentries with ⟨node, hnode, hentries⟩
  cases node with
  | file content => cases hentries
  | dir entries' =>
      cases hentries
      exact hnode

theorem isDir_of_found {name : String} (h : (packages context t).findDir .effect id = .ok name) :
    t.isDir (context.root.packageDir .effect name) = true := by
  have hdir := PackageLibrary.isDir_of_findDir h
  exact hdir

/-- A directory whose name is an id in lower case is what the id finds. -/
theorem findDir_of_isDir (hplain : Package.isPlainName id = true)
    (h : t.isDir (context.root.packageDir .effect (Case.toLower id)) = true) :
    (packages context t).findDir .effect id = .ok (Case.toLower id) := by
  unfold PackageLibrary.findDir
  rw [hplain, Bool.not_true, if_neg Bool.false_ne_true]
  exact if_pos h

/-- Where effects were made, an id finds what it has found, or a new directory that hides it. -/
theorem findDir_of_grown {name : String} (hgrown : Grown context t t')
    (h : (packages context t).findDir .effect id = .ok name) :
    (packages context t').findDir .effect id = .ok name ∨
      (packages context t').findDir .effect id = .ok (Case.toLower id) := by
  have hplain := PackageLibrary.isPlainName_of_findDir h
  have hname := PackageLibrary.isName_of_findDir h
  have hlower := PackageLibrary.toLower_of_findDir h
  have hkept := hgrown.kept name hname (isDir_of_found h)
  by_cases hdirect : t'.isDir (context.root.packageDir .effect (Case.toLower id)) = true
  · exact .inr (findDir_of_isDir hplain hdirect)
  · -- What is found now was there before, and each of both is the least one.
    have hlisted : (packages context t').HasVariant .effect id := by
      rcases @PackageLibrary.mem_directories_of_isDir (packages context t') .effect name hname
        hkept with ⟨entries, hentries, hmem⟩
      exact ⟨entries, hentries, name, hmem, hlower⟩
    rcases (PackageLibrary.exists_findDir_iff hplain).mpr hlisted with ⟨name', hfind'⟩
    have hname' := PackageLibrary.isName_of_findDir hfind'
    have hlower' := PackageLibrary.toLower_of_findDir hfind'
    have hdir' := isDir_of_found hfind'
    have hne : name ≠ Case.toLower id := fun heq => hdirect (heq ▸ hkept)
    have hne' : name' ≠ Case.toLower id := fun heq => hdirect (heq ▸ hdir')
    have hold : t.isDir (context.root.packageDir .effect name') = true := by
      rcases hgrown.lower name' hname' hdir' with hold | hself
      · exact hold
      · exact absurd (hself.symm.trans hlower') hne'
    have hle := PackageLibrary.findDir_least h hne hname' hold hlower'
    have hle' := PackageLibrary.findDir_least hfind' hne' hname hkept hlower
    rw [Std.LawfulEqCmp.eq_of_compare (Std.OrientedCmp.isLE_antisymm hle hle')]
    exact .inl hfind'

/-- To make an effect with an id that finds one already fails and changes nothing, unless there is
    nothing yet at the path that the new effect will have; then a directory is made there, which
    hides the one that was found. -/
theorem initEffect_of_findDir {name : String}
    (h : (packages context t).findDir .effect id = .ok name) (template : Bool) :
    ((∃ f, initEffect context id template t = .error f t) ↔
      isNewId (Case.toLower id) = false ∨
        t.node? (context.root.packageDir .effect (Case.toLower id)) ≠ .error .notFound) ∧
    ((∃ f, initEffect context id template t = .error f t) ∨ name ≠ Case.toLower id ∧
      (packages context (treeAfter (initEffect context id template) t)).findDir .effect id =
        .ok (Case.toLower id)) := by
  have hplain := PackageLibrary.isPlainName_of_findDir h
  have hclosed := context.root.closed_kindDir .effect
  rcases exists_node?_of_findDir h with ⟨entries, hthere⟩
  rcases initEffect_cases hthere id template with
    ⟨hfailed, htaken⟩ | ⟨hnew, hname, hfree, files, hgained⟩
  · refine ⟨iff_of_true hfailed ?_, .inl hfailed⟩
    by_cases hnew : isNewId (Case.toLower id) = true
    · refine .inr fun hfree => ?_
      rcases (FileTree.exists_makeDir_iff hclosed (Package.isName_toLower hplain) hthere).mpr hfree
        with ⟨t', hmade⟩
      exact htaken hnew t' hmade
    · exact .inl (Bool.eq_false_iff.mpr hnew)
  · have hhidden := hgained.node?_eq hclosed hname hthere hfree
    refine ⟨iff_of_false ?_ ?_, .inr ⟨?_, findDir_of_isDir hplain ?_⟩⟩
    · rintro ⟨f, hfailed⟩
      unfold treeAfter at hgained
      rw [hfailed] at hgained
      exact hgained.nodeAt_ne (FileTree.nodeAt_of_node? hthere)
    · rintro (hold | hthere)
      · rw [hnew] at hold
        cases hold
      · exact hthere hfree
    · rintro rfl
      have hdir := isDir_of_found h
      unfold FileTree.isDir at hdir
      rw [hfree] at hdir
      cases hdir
    · unfold FileTree.isDir LibraryRoot.packageDir
      rw [hhidden]
      rfl

/-- An id that finds a directory can be the id of a new effect only if nothing is at the path that
    this would have; then the new effect hides the other one, and otherwise nothing changes. A
    directory whose name is in lower case cannot be hidden: however many effects are made, it is
    found, to make an effect with its id fails and changes nothing, and no other directory is made
    whose name agrees with it in lower case. Any other one is found as well, or is hidden by the one
    new directory that can be made, which has its name in lower case. -/
theorem initEffect_keeps_ids (context : Context) :
    (∀ t id name template, (packages context t).findDir .effect id = .ok name →
      ((∃ f, initEffect context id template t = .error f t) ↔
        isNewId (Case.toLower id) = false ∨
          t.node? (context.root.packageDir .effect (Case.toLower id)) ≠ .error .notFound) ∧
      ((∃ f, initEffect context id template t = .error f t) ∨ name ≠ Case.toLower id ∧
        (packages context (treeAfter (initEffect context id template) t)).findDir .effect id =
          .ok (Case.toLower id))) ∧
    (∀ t id runs, (packages context t).findDir .effect id = .ok (Case.toLower id) →
      (packages context (treeAfterAll context runs t)).findDir .effect id =
        .ok (Case.toLower id) ∧
      (∀ id' template, Case.toLower id' = Case.toLower id →
        ∃ f, initEffect context id' template (treeAfterAll context runs t) =
          .error f (treeAfterAll context runs t)) ∧
      ∀ other, Case.toLower other = Case.toLower id →
        (treeAfterAll context runs t).isDir (context.root.packageDir .effect other) =
          t.isDir (context.root.packageDir .effect other)) ∧
    ∀ t id name runs, (packages context t).findDir .effect id = .ok name →
      ((packages context (treeAfterAll context runs t)).findDir .effect id = .ok name ∨
        (packages context (treeAfterAll context runs t)).findDir .effect id =
          .ok (Case.toLower id)) ∧
      ∀ other, Case.toLower other = Case.toLower id →
        (treeAfterAll context runs t).isDir (context.root.packageDir .effect other) = true →
          t.isDir (context.root.packageDir .effect other) = true ∨ other = Case.toLower id := by
  have hgrown : ∀ {t id name} (runs : List (String × Bool)),
      (packages context t).findDir .effect id = .ok name →
        Grown context t (treeAfterAll context runs t) := by
    intro t id name runs h
    rcases exists_node?_of_findDir h with ⟨entries, hthere⟩
    exact grown_treeAfterAll hthere runs
  have hisName : ∀ {t : FileTree} {id name other : String},
      (packages context t).findDir .effect id = .ok name →
        Case.toLower other = Case.toLower id → Path.isName other = true := by
    intro t id name other h hlower
    refine Package.isName_of_toLower ?_
    rw [hlower]
    exact Package.isName_toLower (PackageLibrary.isPlainName_of_findDir h)
  refine ⟨fun t id name template h => initEffect_of_findDir h template,
    fun t id runs h => ?_, fun t id name runs h => ⟨findDir_of_grown (hgrown runs h) h, ?_⟩⟩
  · have hkept : (packages context (treeAfterAll context runs t)).findDir .effect id =
        .ok (Case.toLower id) := by
      rcases findDir_of_grown (hgrown runs h) h with hkept | hkept <;> exact hkept
    refine ⟨hkept, fun id' template hlower => ?_, fun other hlower => ?_⟩
    · rcases (hgrown runs h).listed with ⟨entries, hthere⟩
      rcases initEffect_cases hthere id' template with
        ⟨hfailed, _⟩ | ⟨_, _, hfree, _⟩
      · exact hfailed
      · have hdir := isDir_of_found hkept
        unfold FileTree.isDir at hdir
        rw [hlower] at hfree
        rw [hfree] at hdir
        cases hdir
    · have hname := hisName h hlower
      rw [Bool.eq_iff_iff]
      refine ⟨fun hafter => ?_, (hgrown runs h).kept other hname⟩
      rcases (hgrown runs h).lower other hname hafter with hbefore | hself
      · exact hbefore
      · rw [← hself, hlower]
        exact isDir_of_found h
  · intro other hlower hafter
    rcases (hgrown runs h).lower other (hisName h hlower) hafter with hbefore | hself
    · exact .inl hbefore
    · exact .inr (hself.symm.trans hlower)

/-- A library with one effect, whose directory has a capital letter. -/
def capitalized : FileTree where
  top := .dir [("lib", .dir [("effects", .dir [("Foo", .emptyDir)])])]
  start := []

/-- An effect is made beside the one that its id finds, and is found from then on. -/
theorem initEffect_hides_capitalized :
    (packages ⟨⟨"lib"⟩, {}, .spaced⟩ capitalized).findDir .effect "foo" = .ok "Foo" ∧
      ∃ outcome t, initEffect ⟨⟨"lib"⟩, {}, .spaced⟩ "foo" true capitalized = .ok outcome t ∧
        (packages ⟨⟨"lib"⟩, {}, .spaced⟩ t).findDir .effect "foo" = .ok "foo" := by
  have hfound : ((packages ⟨⟨"lib"⟩, {}, .spaced⟩ capitalized).findDir .effect "foo").toOption =
      some "Foo" := by
    decide +kernel
  have hdone : (EStateM.run' (initEffect ⟨⟨"lib"⟩, {}, .spaced⟩ "foo" true)
      capitalized).isSome = true := by
    decide +kernel
  have hafter : ((packages ⟨⟨"lib"⟩, {}, .spaced⟩ (treeAfter
      (initEffect ⟨⟨"lib"⟩, {}, .spaced⟩ "foo" true) capitalized)).findDir .effect
        "foo").toOption = some "foo" := by
    decide +kernel
  refine ⟨toOption_eq_some.mp hfound, ?_⟩
  unfold EStateM.run' EStateM.run at hdone
  unfold treeAfter at hafter
  cases hmade : initEffect ⟨⟨"lib"⟩, {}, .spaced⟩ "foo" true capitalized with
  | ok outcome t =>
      rw [hmade] at hafter
      exact ⟨outcome, t, rfl, toOption_eq_some.mp hafter⟩
  | error f t =>
      rw [hmade] at hdone
      cases hdone

end Action

end CommandLine

end PixelEffects
