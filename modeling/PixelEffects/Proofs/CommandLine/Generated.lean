import PixelEffects.Proofs.Chain.Format
import PixelEffects.Proofs.CommandLine.NewEffect
import PixelEffects.Proofs.CommandLine.Starter
import PixelEffects.Proofs.Effect.Traceless

/-!
# New Effects Work

An effect that was made can be used at once, wherever an effect can be used.

When the command has ended well, the directory of the effect is there, with both files as they were
written. An id finds it in any letter case, because nothing but the lower case is looked at, and a
text whose lower case can be an id is a plain name itself. What is read from the files is a package
without libs that gives back every image. Its id has only characters that an id in a chain may have,
so it can stand there, and since it changes no image it might as well not stand there.

## Main definitions

* `Action.Made`: What the command leaves behind when it ends well.
* `EffectLoader.Fits`: A loader with room for one statement and one call.

## Theorems

* `Action.made_of_initEffect`: A command that ends well leaves the effect behind.
* `Action.Made.resolve_eq`: What ids find then.
* `EffectLoader.load_made`: The effect can be loaded, and gives back every image.
* `Action.initEffect_works`: A new effect works everywhere.
-/

namespace PixelEffects

namespace CommandLine

namespace Action

variable {context : Context} {id : String} {template : Bool} {t t' : FileTree} {outcome : Outcome}

/-! ## What is there -/

/-- The directory of an effect is there, under a name that can be an id, and so are its files. -/
structure Made (context : Context) (name : String) (files : EffectTemplate) (t : FileTree) :
    Prop where
  isNewId : isNewId name = true
  isName : Path.isName name = true
  isDir : t.isDir (context.root.packageDir .effect name) = true
  script : t.readText (Path.join (context.root.packageDir .effect name) Package.effectScript) =
    .ok files.script
  metadata : t.readText
    (Path.join (context.root.packageDir .effect name) PackageKind.effect.metadataFile) =
      .ok files.metadata

/-- A command that ends well has done all of its steps. -/
theorem steps_of_initEffect (h : initEffect context id template t = .ok outcome t') :
    isNewId (Case.toLower id) = true ∧ ∃ t₁ t₂ t₃,
      t.makeDirs (context.root.kindDir .effect) = .ok t₁ ∧
      t₁.makeDir (context.root.packageDir .effect (Case.toLower id)) = .ok t₂ ∧
      t₂.write (Path.join (context.root.packageDir .effect (Case.toLower id))
        Package.effectScript) (.text (filesOf template).script) = .ok t₃ ∧
      t₃.write (Path.join (context.root.packageDir .effect (Case.toLower id))
        PackageKind.effect.metadataFile) (.text (filesOf template).metadata) = .ok t' := by
  by_cases hnew : isNewId (Case.toLower id) = true
  · rw [initEffect_eq hnew] at h
    dsimp only at h
    split at h
    · cases h
    · next t₁ hdirs =>
        split at h
        · cases h
        · next t₂ hmade =>
            split at h
            · cases h
            · next t₃ hscript =>
                split at h
                · cases h
                · next t₄ hmetadata =>
                    cases h
                    exact ⟨hnew, t₁, t₂, t₃, hdirs, hmade, hscript, hmetadata⟩
  · unfold initEffect at h
    dsimp only at h
    rw [if_neg hnew] at h
    cases h

/-- A command that ends well leaves the effect behind. -/
theorem made_of_initEffect (h : initEffect context id template t = .ok outcome t') :
    Made context (Case.toLower id) (filesOf template) t' := by
  have hclosed := context.root.closed_kindDir .effect
  rcases steps_of_initEffect h with ⟨hnew, t₁, t₂, t₃, _, hmade, hscript, hmetadata⟩
  have hname := FileTree.isName_of_makeDir hclosed (isPart_of_isNewId hnew) hmade
  rcases FileTree.Gained.of_makeDir hclosed hname hmade with ⟨entries, _, hcheck, hshort, hgained⟩
  -- Each file is written into the directory that was gained, so it has both of them at the end.
  rcases hgained.write hclosed hname hshort isName_effectScript hscript with
    ⟨hgained, hcheckScript, hshortScript⟩
  rcases hgained.write hclosed hname hshort (PackageKind.isName_metadataFile .effect) hmetadata with
    ⟨hgained, hcheckMetadata, hshortMetadata⟩
  refine ⟨hnew, hname, ?_, ?_, ?_⟩
  · unfold FileTree.isDir FileTree.node? LibraryRoot.packageDir
    rw [hcheck, hgained.nodeAt_join hclosed hname hshort]
    rfl
  · exact hgained.readText_join hclosed hname hshort isName_effectScript hshortScript hcheckScript
      rfl
  · exact hgained.readText_join hclosed hname hshort (PackageKind.isName_metadataFile .effect)
      hshortMetadata hcheckMetadata rfl

namespace Made

variable {name : String} {files : EffectTemplate}

theorem isIdText (h : Made context name files t) : IsIdText name.toList := by
  rcases isNewId_iff.mp h.isNewId with ⟨hempty, hchars, _⟩
  exact ⟨fun hnil => hempty (String.toList_eq_nil_iff.mp hnil),
    fun c hc => isIdCharacter_iff.mp (hchars c hc)⟩

theorem isPlainName (h : Made context name files t) : Package.isPlainName name = true := by
  rcases isNewId_iff.mp h.isNewId with ⟨_, hchars, hup⟩
  rcases Path.isName_iff.mp h.isName with ⟨hempty, hdot, _, hslash⟩
  refine Package.isPlainName_iff.mpr ⟨hempty, hdot, hup, hslash, fun hmem => ?_⟩
  have hsign := hchars _ hmem
  revert hsign
  decide

/-- The package of a new effect. -/
def package (context : Context) (name : String) : Package :=
  ⟨EffectTemplate.description name, .effect, context.root.packageDir .effect name,
    [⟨Package.effectScript, EffectTemplate.starter.script⟩]⟩

/-- An id finds the new effect in any letter case. -/
theorem resolve_eq (h : Made context (Case.toLower id) .starter t) {id' : String}
    (hid : Case.toLower id' = Case.toLower id) :
    (packages context t).resolve .effect id' = .ok (package context (Case.toLower id)) := by
  have hplain : Package.isPlainName id' = true := by
    refine Package.isPlainName_of_toLower ?_
    rw [hid]
    exact h.isPlainName
  -- The path in lower case is looked at before any other, and there the directory is.
  have hfind : (packages context t).findDir .effect id' = .ok (Case.toLower id) := by
    rw [← hid]
    refine findDir_of_isDir hplain ?_
    rw [hid]
    exact h.isDir
  have hmetadata : (packages context t).readMetadata .effect (Case.toLower id)
      (context.root.packageDir .effect (Case.toLower id)) =
        .ok (EffectTemplate.description (Case.toLower id)) := by
    unfold PackageLibrary.readMetadata
    rw [h.metadata]
    exact EffectTemplate.parse_starter _
  have hscript : (packages context t).readScript (Case.toLower id)
      (context.root.packageDir .effect (Case.toLower id)) Package.effectScript =
        .ok ⟨Package.effectScript, EffectTemplate.starter.script⟩ := by
    unfold PackageLibrary.readScript
    rw [if_neg (by decide), h.script]
  unfold PackageLibrary.resolve
  rw [hfind]
  dsimp only [bind, Except.bind]
  rw [Case.toLower_toLower, hmetadata]
  dsimp only [PackageLibrary.scriptsOf]
  rw [List.mapM_cons, hscript]
  rfl

end Made

end Action

end CommandLine

/-! ## What it does -/

open CommandLine Operation

namespace EffectLoader

/-- A loader for packages in a tree, with room for one statement and one call. -/
structure Fits (loader : EffectLoader) (context : Context) (t : FileTree) : Prop where
  library : loader.library = ⟨t, context.root⟩
  budget : 1 ≤ loader.engines.limits.maxSteps
  calls : 1 ≤ loader.engines.limits.maxCallDepth

variable {loader : EffectLoader} {context : Context} {t : FileTree} {id id' : String}

theorem Fits.uncached (h : loader.Fits context t) : loader.uncached.Fits context t :=
  ⟨h.library, h.budget, h.calls⟩

/-- The effect that is found, with parameters. -/
def starterEffect (loader : EffectLoader) (context : Context) (name : String) (params : Params) :
    Effect :=
  ⟨Action.Made.package context name, [], params, loader.engines, loader.config.missing⟩

theorem find_made (hfits : loader.Fits context t)
    (h : Action.Made context (Case.toLower id) .starter t)
    (hid : Case.toLower id' = Case.toLower id) (params : Params) :
    loader.find id' params = .ok (loader.starterEffect context (Case.toLower id) params) := by
  unfold find
  rw [hfits.library, h.resolve_eq hid]
  dsimp only [bind, Except.bind]
  have hnone : PackageLibrary.preloads ⟨t, context.root⟩ loader.config.shadowing
      (Action.Made.package context (Case.toLower id)) = .ok [] := by
    unfold PackageLibrary.preloads
    cases loader.config.shadowing <;> rfl
  rw [hnone]
  rfl

/-- Without a cache, the effect gives back every pixel. -/
theorem givesBack_starterEffect (hfits : loader.Fits context t)
    (huncached : loader.engines.caching = false) (name : String) (params : Params) :
    (loader.starterEffect context name params).GivesBack Sandbox.Copies :=
  Effect.givesBack_starter huncached hfits.budget hfits.calls ⟨rfl, _, rfl⟩ rfl

/-- Without a cache, the effect can be loaded. -/
theorem load_made (hfits : loader.Fits context t) (huncached : loader.engines.caching = false)
    (h : Action.Made context (Case.toLower id) .starter t)
    (hid : Case.toLower id' = Case.toLower id) (params : Params) (session : Session) :
    loader.load id' params session =
      .ok (loader.starterEffect context (Case.toLower id) params) session := by
  rcases (givesBack_starterEffect hfits huncached (Case.toLower id) params).spawns session with
    ⟨sandbox, hspawn, _⟩
  unfold load
  rw [find_made hfits h hid]
  exact (bind_of_ok rfl).trans (bind_of_ok hspawn)

/-- The effect can be loaded in a session with a cache too, and gives back every image. -/
theorem load_made_cached (hfits : loader.Fits context t)
    (h : Action.Made context (Case.toLower id) .starter t)
    (hid : Case.toLower id' = Case.toLower id) (params : Params) {options : ApplyOptions}
    (hoptions : options.Usable) {session : Session} (hsession : session.Faithful)
    (hflag : CancelFlag.Unset session.cancel) :
    ∃ effect session', loader.load id' params session = .ok effect session' ∧
      effect.id = Case.toLower id ∧
      ∀ image, (effect.apply options image).outcome session' = .ok image := by
  have hfits' := hfits.uncached
  have hflag' : CancelFlag.Unset session.uncached.cancel := hflag
  have hrun := loader.load_mirrors id' params session hsession
  rw [load_made hfits' rfl h hid] at hrun
  cases hload : loader.load id' params session with
  | error e session' =>
      rw [hload] at hrun
      cases hrun.1
  | ok effect session' =>
      rw [hload] at hrun
      rcases hrun with ⟨hsame, hsession', hwell⟩
      -- Apart from the cache, this is the effect that is loaded without one, and the flag is the
      -- one from before.
      injection hsame with heffect hafter
      refine ⟨effect, session', rfl, congrArg Effect.id heffect.symm, fun image => ?_⟩
      rw [outcome_of_alike (Effect.apply_mirrors hwell options image) hsession', ← heffect,
        ← hafter]
      exact (givesBack_starterEffect hfits' rfl _ params).apply hflag' hoptions image

/-- Without a cache, a stage with the effect gives back every image. -/
theorem run_made (hfits : loader.Fits context t) (huncached : loader.engines.caching = false)
    (h : Action.Made context (Case.toLower id) .starter t) {stage : Stage}
    (hid : Case.toLower stage.effectId = Case.toLower id) {options : ApplyOptions}
    (hoptions : options.Usable) {session : Session} (hflag : CancelFlag.Unset session.cancel)
    (image : Image) : (stage.run loader options image).outcome session = .ok image := by
  have hload := load_made hfits huncached h hid stage.params session
  exact (outcome_bind hload).trans
    ((givesBack_starterEffect hfits huncached _ _).apply hflag hoptions image)

end EffectLoader

namespace CommandLine

namespace Action

/-- Where an effect was made from the template, it works everywhere. The lower case of its id is an
    id that a chain may have, and by itself a chain with one stage. The effect is found by the id in
    any letter case, and gives back every image, without workers or with workers for which there can
    be a pool of threads, whatever its parameters are. And a stage with this effect, wherever it
    stands in a chain, can be left out: the stages before it and those behind it do what they do
    without it, and those behind it keep their numbers. -/
theorem initEffect_works (context : Context) (id : String) (t : FileTree) (outcome : Outcome)
    (t' : FileTree) (h : initEffect context id true t = .ok outcome t') :
    (IsIdText (Case.toLower id).toList ∧ ∃ chain, Chain.parse (Case.toLower id) = .ok chain ∧
      chain.stages = [⟨Case.toLower id, ∅, Case.toLower id, 1⟩]) ∧
    ∀ (loader : EffectLoader) (options : ApplyOptions) (session : Session),
      loader.Fits context t' → options.Usable → session.Faithful →
      CancelFlag.Unset session.cancel →
      (∀ id' params, Case.toLower id' = Case.toLower id →
        ∃ effect session', loader.load id' params session = .ok effect session' ∧
          effect.id = Case.toLower id ∧
          ∀ image, (effect.apply options image).outcome session' = .ok image) ∧
      ∀ (chain : Chain) (before : List Stage) (stage : Stage) (after : List Stage),
        chain.stages = before ++ stage :: after →
        Case.toLower stage.effectId = Case.toLower id →
        ∀ image, (chain.run loader options image).outcome session =
          (Stage.runAll loader options 1 before image >>= fun mid =>
            Stage.runAll loader options (before.length + 2) after mid).outcome session := by
  have hmade := made_of_initEffect h
  refine ⟨⟨hmade.isIdText, Chain.parse_of_isIdText hmade.isIdText⟩,
    fun loader options session hfits hoptions hsession hflag =>
      ⟨fun id' params hid => EffectLoader.load_made_cached hfits hmade hid params hoptions hsession
        hflag, fun chain before stage after hstages hid image => ?_⟩⟩
  -- Both chains do the same without the cache, and there a stage that changes nothing leaves no
  -- trace in the session.
  have hflag' : CancelFlag.Unset session.uncached.cancel := hflag
  have hnumber : before.length + 2 = 1 + before.length + 1 := by omega
  have hwithout := mirrors_bind (Stage.runAll_mirrors loader options 1 before image)
    fun mid _ => Stage.runAll_mirrors loader options (1 + before.length + 1) after mid
  unfold Chain.run
  rw [hstages, hnumber, outcome_of_alike (Stage.runAll_mirrors loader options 1 _ image) hsession,
    outcome_of_alike hwithout hsession]
  exact Stage.runAll_drop rfl hflag'
    (fun image => EffectLoader.run_made hfits.uncached rfl hmade hid hoptions hflag' image) 1 before
    after image

/-- An effect with a capital letter in its id, in a tree without a library. -/
theorem initEffect_works_capital : ∃ outcome t,
    initEffect ⟨⟨"lib"⟩, {}, .spaced⟩ "Foo" true ⟨.emptyDir, []⟩ = .ok outcome t ∧
      (∃ effect session, (EffectLoader.ofLibrary ⟨t, ⟨"lib"⟩⟩ {} false .spaced).load "fOO" ∅
          ⟨none, none⟩ = .ok effect session ∧ effect.id = "foo" ∧
        ∀ image, (effect.apply ⟨true, some 2, .single⟩ image).outcome session = .ok image) ∧
      ∃ chain, Chain.parse "foo" = .ok chain ∧
        ∀ image, (chain.run (.ofLibrary ⟨t, ⟨"lib"⟩⟩ {} false .spaced) ⟨true, some 2, .single⟩
          image).outcome ⟨none, none⟩ = .ok image := by
  have hdone : (EStateM.run' (initEffect ⟨⟨"lib"⟩, {}, .spaced⟩ "Foo" true)
      ⟨.emptyDir, []⟩).isSome = true := by
    decide +kernel
  have hlower : Case.toLower "Foo" = "foo" := by
    decide +kernel
  have hcapitals : Case.toLower "fOO" = "foo" := by
    decide +kernel
  have hself : Case.toLower "foo" = "foo" := by
    decide +kernel
  unfold EStateM.run' EStateM.run at hdone
  cases hmade : initEffect ⟨⟨"lib"⟩, {}, .spaced⟩ "Foo" true ⟨.emptyDir, []⟩ with
  | error f t =>
      rw [hmade] at hdone
      cases hdone
  | ok outcome t =>
      have hfits : EffectLoader.Fits (.ofLibrary ⟨t, ⟨"lib"⟩⟩ {} false .spaced)
          ⟨⟨"lib"⟩, {}, .spaced⟩ t :=
        ⟨rfl, Nat.le_of_ble_eq_true rfl, Nat.le_of_ble_eq_true rfl⟩
      have husable : ApplyOptions.Usable ⟨true, some 2, .single⟩ :=
        ⟨by decide, fun _ => rfl, fun _ height => by
          rw [Plan.single, Plan.pooled, List.flatten_singleton]⟩
      rcases initEffect_works _ _ _ _ _ hmade with ⟨⟨_, chain, hparse, hstages⟩, hworks⟩
      rcases hworks _ _ ⟨none, none⟩ hfits husable (fun _ hcache => by cases hcache)
        (fun _ hflag => by cases hflag) with ⟨hload, hchain⟩
      rw [hlower] at hload hparse hstages hchain
      exact ⟨outcome, t, rfl, hload "fOO" ∅ hcapitals, chain, hparse, fun image =>
        hchain chain [] ⟨"foo", ∅, "foo", 1⟩ [] hstages hself image⟩

end Action

end CommandLine

end PixelEffects
