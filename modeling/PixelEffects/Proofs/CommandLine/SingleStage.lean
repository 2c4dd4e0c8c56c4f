import PixelEffects.Proofs.CommandLine.Delivery
import PixelEffects.Proofs.CommandLine.Parser
import PixelEffects.Proofs.Effect.Plans

/-!
# Chains of One Stage

An effect that is applied to an image, and a chain with that effect alone.

There are two commands for the same thing. One takes the effect and its parameters from the command
line, and the other one takes them from a line of a file. They read parameters with different functions,
they look at the library and at the image in a different order, and only the second one says in which
stage something went wrong. Apart from that they do the same: what one of them makes of the image, the
other one makes of it too, and it is written to the same place.

With workers there is more to it. The machine may do one thing with the workers of one command and
another thing with those of the other one. What is made of the image is then only the same if the effect
makes no difference between the plans.

Nothing is known of the parser and of the codec but that the one reads operands, and where it matters
that the other one keeps images.

## Theorems

* `CommandLine.applyEffect_eq_singleStage`: The two commands do the same.
-/

namespace PixelEffects

namespace CommandLine

/-- Applying an effect and running a chain that has it as its only stage end well for the same
    words, trees and settings, and they say the same and leave the same tree then. For that, something
    has to be made of the image, and it is in the file for the output then, as the codec writes it. If
    there is a library and the image can be read, both fail if the effect cannot be loaded or applied,
    and the chain says that it was in its first stage. In the end both have left the same tree, whatever
    happened. The parameters that they bind are the same, also if a key is given again or there is an
    equals sign in a value.

    The commands may use workers in different ways as long as that makes no difference to the effect. -/
theorem applyEffect_eq_singleStage (outside : Outside) (plan plan' : Plan) (env : Environment)
    (address : Script.Addressing) (t : FileTree) (settings : Settings)
    (image id chain output ending : String) (params : List String)
    (hparser : outside.parser.ReadsOperands) (hsettings : settings.IsWritable)
    (himage : IsOperand image) (hid : IsIdText id.toList) (hfront : id.toList.head? ≠ some '-')
    (hparams : ∀ p ∈ params, IsParam p) (hchain : IsOperand chain) (houtput : IsOperand output)
    (hending : ending ∈ Text.lineEnds)
    (hfile : t.readText chain = .ok (" ".intercalate (id :: params) ++ ending))
    (hplans : ∀ root effect,
      LibraryRoot.discover settings.root env outside.dataDirectory = .ok root →
      loaded root address t id (Stage.paramsOf (params.map String.toList)) = .ok effect →
      plan.Interchangeable plan' settings.threads effect) :
    let applied := runWith outside plan (settings.words ++ "apply-effect" :: image :: id :: output ::
      paramWords params) env address t
    let chained := runWith outside plan' (settings.words ++ ["apply-chain", image, chain, output])
      env address t
    let found := LibraryRoot.discover settings.root env outside.dataDirectory
    let opened := t.openImage outside.codec image
    ∃ pairs stage, params.mapM readParam = .ok pairs ∧
      Chain.parse (" ".intercalate (id :: params) ++ ending) = .ok (.single stage) ∧
      stage.effectId = id ∧ stage.params = paramsOf pairs ∧
      let make := made (Invocation.applyOptions plan settings) address t id (paramsOf pairs)
      (∀ said written t', applied = (.finished said written, t') ↔
        chained = (.finished said written, t')) ∧
      (∀ said written t', applied = (.finished said written, t') ↔ said = "" ∧ written = [output] ∧
        ∃ root source result content, found = .ok root ∧ opened = .ok source ∧
          make root source = .ok result ∧ t.saveImage outside.codec output result = (.ok (), t') ∧
          outside.codec.encode output result = .ok ⟨content, none⟩ ∧
          t'.read output = .ok content ∧
          (outside.codec.Restores output → t'.openImage outside.codec output = .ok result)) ∧
      (∀ root source e, found = .ok root → opened = .ok source →
        (applied.1 = .failed (.error e) ↔ make root source = .error e) ∧
        (chained.1 = .failed (.error (.stage 1 id e)) ↔ make root source = .error e)) ∧
      applied.2 = chained.2 := by
  intro applied chained found opened
  rcases Chain.parse_of_line hid (fun p hp => (hparams p hp).isWord) hending with
    ⟨⟨stages, nonempty⟩, hline, hstage⟩
  cases hstage
  have hpairs := mapM_readParam hparams
  refine ⟨_, _, hpairs, hline, rfl, (paramsOf_eq params).symm, ?_⟩
  intro make
  have hidOperand : IsOperand id := ⟨fun hempty => hid.1 (by rw [hempty]; rfl),
    fun hdash => absurd hdash hfront⟩
  have heffect := hparser.applyEffect readParam settings image id output params hsettings himage
    hidOperand houtput fun p hp => (hparams p hp).isOperand
  rw [hpairs] at heffect
  have hleft : Delivers outside.codec output t found opened make (fun e => e) applied :=
    applyEffect_delivers heffect
  -- The chain binds the same parameters, and its plan makes no difference.
  have hright : Delivers outside.codec output t found opened make (.stage 1 id) chained := by
    refine (applyChain_delivers (hparser.applyChain readParam settings image chain output hsettings
      himage hchain houtput) hfile hline).congr fun root source hfound => ?_
    show made _ address t id (paramsOf _) root source = made _ address t id _ root source
    rw [paramsOf_eq]
    exact made_congr fun effect hload => (hplans root effect hfound hload).outcome_apply source
  refine ⟨fun said written t' => ?_, fun said written t' => ⟨fun hend => ?_, fun hend => ?_⟩,
    fun root source e hfound hopened => ⟨?_, ?_⟩, hleft.tree_eq hright⟩
  · rw [hleft.finished_iff, hright.finished_iff]
  · rcases (hleft.finished_iff said written t').mp hend with
      ⟨hsaid, hwritten, root, source, result, hfound, hopened, hmade, hsave⟩
    rcases FileTree.read_of_saveImage hsave with ⟨content, hencode, hread⟩
    exact ⟨hsaid, hwritten, root, source, result, content, hfound, hopened, hmade, hsave, hencode,
      hread, fun hcodec => FileTree.openImage_of_saveImage hcodec hsave⟩
  · rcases hend with
      ⟨hsaid, hwritten, root, source, result, _, hfound, hopened, hmade, hsave, _⟩
    exact (hleft.finished_iff said written t').mpr
      ⟨hsaid, hwritten, root, source, result, hfound, hopened, hmade, hsave⟩
  · exact hleft.failed_iff hfound hopened (fun _ _ h => h) e
  · exact hright.failed_iff hfound hopened (fun _ _ h => by injection h) e

/-- A library with one effect, an image, and a chain that gives a key of the effect twice. The effect
    cannot be loaded unless the value that comes last counts, with the equals sign in it. -/
def tinted : FileTree where
  top := .dir [
    ("lib", .dir [("effects", .dir [("tint", .dir [
      (PackageKind.effect.metadataFile, .file (.text "")),
      (Package.effectScript, .file (.text
        "if params.k ~= 'a=b' then error('k') end\nfunction effect(p) return {} end"))])])]),
    ("in.png", .file (.picture (.gradient 2))),
    ("tint.fxc", .file (.text "tint k=1 k=a=b\r\n"))]
  start := []

/-- Whether a command has ended well. -/
def isFinished (r : Outcome × FileTree) : Bool :=
  match r with
  | (.finished _ _, _) => true
  | _ => false

theorem exists_of_isFinished {r : Outcome × FileTree} (h : isFinished r = true) :
    ∃ said written t', r = (.finished said written, t') := by
  unfold isFinished at h
  split at h
  · exact ⟨_, _, _, rfl⟩
  · cases h

/-- A parameter with a key of one letter. -/
theorem isParam_of_letter {text : String} {value : List Char}
    (htext : text.toList = 'k' :: '=' :: value)
    (hvalue : value.all (fun c => !Text.isBlank c) = true) : IsParam text := by
  refine ⟨⟨['k'], value, htext, by simp, by decide⟩, ?_, ?_⟩
  · rw [htext]
    refine List.forall_mem_cons.mpr ⟨rfl, List.forall_mem_cons.mpr ⟨rfl, fun c hc => ?_⟩⟩
    simpa using List.all_eq_true.mp hvalue c hc
  · rw [htext]
    simp

/-- The effect keeps every pixel, once it has been loaded. -/
theorem tinted_steady {root : LibraryRoot} {effect : Effect}
    (hfound : LibraryRoot.discover (some "lib") ⟨none, none, none⟩ Environment.dataDirectory =
      .ok root)
    (hload : loaded root .spaced tinted "tint"
      (Stage.paramsOf (["k=1", "k=a=b"].map String.toList)) = .ok effect) :
    effect.Steady ⟨none, none⟩ := by
  have hkeeps : (LibraryRoot.discover (some "lib") ⟨none, none, none⟩ Environment.dataDirectory >>=
      fun root => loaded root .spaced tinted "tint"
        (Stage.paramsOf (["k=1", "k=a=b"].map String.toList))).toOption.all (fun effect =>
          !effect.engines.caching &&
            (effect.spawn.outcome ⟨none, none⟩).toOption.any Sandbox.keepsPixels) = true := by
    decide +kernel
  have hloaded : (LibraryRoot.discover (some "lib") ⟨none, none, none⟩ Environment.dataDirectory >>=
      fun root => loaded root .spaced tinted "tint"
        (Stage.paramsOf (["k=1", "k=a=b"].map String.toList))) = .ok effect := by
    rw [hfound]
    exact hload
  rw [hloaded] at hkeeps
  rcases Bool.and_eq_true_iff.mp hkeeps with ⟨huncached, hmade⟩
  exact (Effect.givesBack_of_spawn (by simpa using huncached) hmade).steady _

/-- It makes the same image of the one that is there. -/
theorem tinted_made {root : LibraryRoot} {source : Image}
    (hfound : LibraryRoot.discover (some "lib") ⟨none, none, none⟩ Environment.dataDirectory =
      .ok root)
    (hopened : tinted.openImage .png "in.png" = .ok source) :
    made (Invocation.applyOptions .single ⟨some "lib", some 2⟩) .spaced tinted "tint"
      (paramsOf [("k", "1"), ("k", "a=b")]) root source = .ok (.gradient 2) := by
  have hmade : (LibraryRoot.discover (some "lib") ⟨none, none, none⟩ Environment.dataDirectory >>=
      fun root => tinted.openImage .png "in.png" >>= fun source =>
        made (Invocation.applyOptions .single ⟨some "lib", some 2⟩) .spaced tinted "tint"
          (paramsOf [("k", "1"), ("k", "a=b")]) root source) = .ok (.gradient 2) :=
    toOption_eq_some.mp (by decide +kernel)
  rw [hfound] at hmade
  dsimp only [bind, Except.bind] at hmade
  rw [hopened] at hmade
  exact hmade

/-- Both commands end well, with workers that take turns in different ways, and they leave the same. The
    image that went in is in the file for the output then. What they bind is the value that comes last,
    with the equals sign in it. -/
theorem applyEffect_eq_singleStage_tinted :
    (∃ t', runWith .standard .single ["--root", "lib", "--threads", "2", "apply-effect", "in.png",
          "tint", "out.png", "-p", "k=1", "-p", "k=a=b"] ⟨none, none, none⟩ .spaced tinted =
        (.finished "" ["out.png"], t') ∧
      runWith .standard .halves ["--root", "lib", "--threads", "2", "apply-chain", "in.png",
          "tint.fxc", "out.png"] ⟨none, none, none⟩ .spaced tinted =
        (.finished "" ["out.png"], t') ∧
      t'.openImage .png "out.png" = .ok (.gradient 2)) ∧
    ∃ stage, Chain.parse (" ".intercalate ["tint", "k=1", "k=a=b"] ++ "\r\n") =
        .ok (.single stage) ∧ stage.params.toList = [("k", "a=b")] := by
  have hletters : "tint".toList.all Stage.isIdCharacter = true := by decide +kernel
  have hid : IsIdText "tint".toList :=
    ⟨by decide, fun c hc => isIdCharacter_iff.mp (List.all_eq_true.mp hletters c hc)⟩
  have hparams : ∀ p ∈ ["k=1", "k=a=b"], IsParam p := by
    refine List.forall_mem_cons.mpr ⟨isParam_of_letter rfl rfl,
      List.forall_mem_cons.mpr ⟨isParam_of_letter rfl rfl, fun _ h => (List.not_mem_nil h).elim⟩⟩
  have hoperand {text : String} (h : text ≠ "" ∧ text.toList.head? ≠ some '-') : IsOperand text :=
    ⟨h.1, fun hdash => absurd hdash h.2⟩
  have hsettings : Settings.IsWritable ⟨some "lib", some 2⟩ := by
    refine ⟨fun r hr => ?_, fun n hn => ?_⟩
    · cases hr
      exact hoperand (by decide)
    · cases hn
      decide
  have hfile : tinted.readText "tint.fxc" =
      .ok (" ".intercalate ["tint", "k=1", "k=a=b"] ++ "\r\n") :=
    toOption_eq_some.mp (by decide +kernel)
  have hplans : ∀ root effect,
      LibraryRoot.discover (some "lib") ⟨none, none, none⟩ Environment.dataDirectory = .ok root →
      loaded root .spaced tinted "tint" (Stage.paramsOf (["k=1", "k=a=b"].map String.toList)) =
        .ok effect →
      Plan.single.Interchangeable .halves (some 2) effect :=
    fun root effect hfound hload =>
      .steady (tinted_steady hfound hload) rfl Plan.single_divides Plan.halves_divides
  rcases applyEffect_eq_singleStage .standard .single .halves ⟨none, none, none⟩ .spaced tinted
    ⟨some "lib", some 2⟩ "in.png" "tint" "tint.fxc" "out.png" "\r\n" ["k=1", "k=a=b"]
    ArgumentParser.standard_readsOperands hsettings (hoperand (by decide)) hid (by decide) hparams
    (hoperand (by decide)) (hoperand (by decide)) (by decide) hfile hplans with
    ⟨pairs, stage, hpairs, hparse, _, hbound, hfinished, hwritten, _, _⟩
  have hended := exists_of_isFinished (show isFinished (runWith .standard .halves ["--root", "lib",
    "--threads", "2", "apply-chain", "in.png", "tint.fxc", "out.png"] ⟨none, none, none⟩ .spaced
    tinted) = true by decide +kernel)
  rcases hended with ⟨said, written, t', hchained⟩
  have happlied := (hfinished said written t').mpr hchained
  rcases (hwritten said written t').mp happlied with
    ⟨rfl, rfl, root, source, result, content, hfound, hopened, hmade, _, _, _, hthere⟩
  have hread : pairs = [("k", "1"), ("k", "a=b")] := by
    cases hpairs
    decide +kernel
  subst hread
  have hsame : result = .gradient 2 :=
    Except.ok.inj (hmade.symm.trans (tinted_made hfound hopened))
  refine ⟨⟨t', happlied, hchained, ?_⟩, stage, hparse, ?_⟩
  · rw [← hsame]
    exact hthere (ImageCodec.png_restores "out.png")
  · rw [hbound]
    decide +kernel

end CommandLine

end PixelEffects
