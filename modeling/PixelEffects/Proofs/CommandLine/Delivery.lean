import PixelEffects.CommandLine.Run
import PixelEffects.Proofs.Effect.Blame
import PixelEffects.Proofs.Effect.Traceless
import PixelEffects.Proofs.Image.File

/-!
# What Commands Make of Images

How the commands end that open an image, make something of it, and write what came out.

One of them applies an effect and the other one runs a chain. What an effect makes of an image depends on
the library, the effect, its parameters and the image; a chain of one stage makes the same of it. So
each command is described by itself, with what is made of an image as a function that both have in
common, and with its own way to tell an error. They look at the library and at the image in a different
order, which shows only when both are missing.

What follows from such a description does not depend on the command any more: when it ends well, what is
written then, which error it tells, and which tree it leaves.

## Main definitions

* `CommandLine.made`: What is made of an image.
* `CommandLine.Delivers`: How a command ends that writes what is made of an image.

## Theorems

* `Chain.outcome_single`: A chain of one stage.
* `Delivers.finished_iff`, `Delivers.failed_iff`, `Delivers.tree_eq`: What follows for one command, and
  for two of them.
* `applyEffect_delivers`, `applyChain_delivers`: Both commands end like that.
-/

namespace PixelEffects

open Operation

/-! ## Stages -/

namespace Stage

/-- A stage that nobody stops fails with an error of its effect, with workers or without. -/
theorem run_ofEffect (loader : EffectLoader) (options : ApplyOptions) (stage : Stage)
    (image : Image) : (stage.run loader options image).FailsWith Error.OfEffect :=
  failsWith_bind (loader.load_failsWith stage.effectId stage.params)
    fun effect => effect.apply_ofEffect options image

end Stage

/-- A chain of one stage does what the stage does, and says in its error that it was the first. -/
theorem Chain.outcome_single (loader : EffectLoader) (options : ApplyOptions) (stage : Stage)
    (image : Image) {session : Session} (hflag : CancelFlag.Unset session.cancel) :
    ((single stage).run loader options image).outcome session =
      ((stage.run loader options image).outcome session).mapError (.stage 1 stage.effectId) := by
  unfold outcome
  cases hrun : stage.run loader options image session with
  | ok out session' =>
      have hchain : (single stage).run loader options image session = .ok out session' :=
        Stage.runAll_cons_ok hflag hrun 1
      rw [hchain]
      rfl
  | error e session' =>
      have hkind := stage.run_ofEffect loader options image session hflag
      rw [hrun] at hkind
      have hchain : (single stage).run loader options image session =
          .error (.stage 1 stage.effectId e) session' :=
        Stage.runAll_cons_error hflag hrun hkind 1
      rw [hchain]
      rfl

namespace CommandLine

/-! ## What is made of an image -/

/-- What a command loads effects with, from the library of a tree. -/
def loaderOf (root : LibraryRoot) (address : Script.Addressing) (t : FileTree) : EffectLoader :=
  .ofLibrary ⟨t, root⟩ {} false address

/-- The effect with an id and with parameters. -/
def loaded (root : LibraryRoot) (address : Script.Addressing) (t : FileTree) (id : String)
    (params : Params) : Except Error Effect :=
  ((loaderOf root address t).load id params).outcome ⟨none, none⟩

/-- What an effect that is loaded and applied makes of an image. -/
def made (options : ApplyOptions) (address : Script.Addressing) (t : FileTree) (id : String)
    (params : Params) (root : LibraryRoot) (source : Image) : Except Error Image :=
  loaded root address t id params >>= fun effect =>
    (effect.apply options source).outcome ⟨none, none⟩

section Made

variable {options options' : ApplyOptions} {address : Script.Addressing} {t : FileTree} {id : String}
  {params : Params} {root : LibraryRoot} {source : Image}

/-- Loading leaves the session as it was, so what comes after it can be looked at by itself. -/
theorem outcome_load_bind {α : Type} (root : LibraryRoot) (address : Script.Addressing) (t : FileTree)
    (id : String) (params : Params) (next : Effect → Operation α) :
    ((loaderOf root address t).load id params >>= next).outcome ⟨none, none⟩ =
      loaded root address t id params >>= fun effect => (next effect).outcome ⟨none, none⟩ := by
  rcases EffectLoader.load_detached (show (loaderOf root address t).engines.caching = false from rfl)
    id params with ⟨result, hload, _⟩
  unfold loaded
  rw [hload]
  cases result with
  | error e => rfl
  | ok effect => exact outcome_bind (show Operation.ofExcept (.ok effect) _ = .ok effect _ from rfl)

/-- A chain of one stage comes to what its effect makes of the image. -/
theorem outcome_single_run (options : ApplyOptions) (root : LibraryRoot)
    (address : Script.Addressing) (t : FileTree) (stage : Stage) (source : Image) :
    ((Chain.single stage).run (loaderOf root address t) options source).outcome ⟨none, none⟩ =
      (made options address t stage.effectId stage.params root source).mapError
        (.stage 1 stage.effectId) := by
  have hflag : CancelFlag.Unset none := fun _ h => nomatch h
  rw [Chain.outcome_single _ _ _ _ hflag]
  exact congrArg (Except.mapError _)
    (outcome_load_bind root address t stage.effectId stage.params fun effect =>
      effect.apply options source)

/-- The options matter only to the effect that is loaded. -/
theorem made_congr (h : ∀ effect, loaded root address t id params = .ok effect →
      (effect.apply options source).outcome ⟨none, none⟩ =
        (effect.apply options' source).outcome ⟨none, none⟩) :
    made options address t id params root source = made options' address t id params root source := by
  unfold made
  cases hload : loaded root address t id params with
  | error e => rfl
  | ok effect => exact h effect hload

end Made

/-! ## Commands that write what is made -/

/-- How a command ends that looks for the library and for an image, and writes what is made of the image.
    It leaves the tree as it is unless it comes to writing, and has its own way to tell an error. -/
structure Delivers (codec : ImageCodec) (output : Path) (t : FileTree)
    (found : Except Error LibraryRoot) (opened : Except Error Image)
    (make : LibraryRoot → Image → Except Error Image) (tell : Error → Error)
    (r : Outcome × FileTree) : Prop where
  rootless : ∀ e, found = .error e → r = (.failed (.error e), t)
  unreadable : ∀ e, opened = .error e → ∃ f, r = (.failed f, t)
  faulty : ∀ root source e, found = .ok root → opened = .ok source →
    make root source = .error e → r = (.failed (.error (tell e)), t)
  written : ∀ root source result, found = .ok root → opened = .ok source →
    make root source = .ok result → r = settle (Action.saveImage codec output result t)

section Save

variable {codec : ImageCodec} {output : Path} {result : Image} {t t' : FileTree}

theorem settle_saveImage_of_ok (h : t.saveImage codec output result = (.ok (), t')) :
    settle (Action.saveImage codec output result t) = (.finished "" [output], t') := by
  unfold Action.saveImage
  rw [h]
  rfl

theorem settle_saveImage_of_error {e : Error}
    (h : t.saveImage codec output result = (.error e, t')) :
    settle (Action.saveImage codec output result t) = (.failed (.writeImage output e), t') := by
  unfold Action.saveImage
  rw [h]
  rfl

end Save

namespace Delivers

variable {codec : ImageCodec} {output : Path} {t : FileTree} {found : Except Error LibraryRoot}
  {opened : Except Error Image} {make : LibraryRoot → Image → Except Error Image}
  {tell tell' : Error → Error} {r r' : Outcome × FileTree}

/-- It fails, or something is made of the image and written. -/
theorem failed_or_written (h : Delivers codec output t found opened make tell r) :
    ((∃ f, r = (.failed f, t)) ∧ ∀ root source result, found = .ok root → opened = .ok source →
      make root source ≠ .ok result) ∨
    ∃ root source result, found = .ok root ∧ opened = .ok source ∧
      make root source = .ok result ∧ r = settle (Action.saveImage codec output result t) := by
  rcases found with e | root
  · exact .inl ⟨⟨_, h.rootless e rfl⟩, nofun⟩
  rcases opened with e | source
  · exact .inl ⟨h.unreadable e rfl, nofun⟩
  cases hmake : make root source with
  | error e =>
      refine .inl ⟨⟨_, h.faulty root source e rfl rfl hmake⟩, fun _ _ result hroot hsource => ?_⟩
      cases hroot
      cases hsource
      rw [hmake]
      exact nofun
  | ok result =>
      exact .inr ⟨root, source, result, rfl, rfl, hmake, h.written root source result rfl rfl hmake⟩

/-- It ends well if there is a library, the image can be read, something is made of it, and that is
    written; and it does not end well otherwise. -/
theorem finished_iff (h : Delivers codec output t found opened make tell r) (said : String)
    (written : List Path) (t' : FileTree) :
    r = (.finished said written, t') ↔ said = "" ∧ written = [output] ∧
      ∃ root source result, found = .ok root ∧ opened = .ok source ∧
        make root source = .ok result ∧ t.saveImage codec output result = (.ok (), t') := by
  constructor
  · intro hend
    rcases h.failed_or_written with ⟨⟨f, hf⟩, _⟩ | ⟨root, source, result, hroot, hsource, hmake, hr⟩
    · rw [hf] at hend
      cases hend
    · rw [hr] at hend
      rcases hsave : t.saveImage codec output result with ⟨e | _, t''⟩
      · rw [settle_saveImage_of_error hsave] at hend
        cases hend
      · rw [settle_saveImage_of_ok hsave] at hend
        cases hend
        exact ⟨rfl, rfl, root, source, result, hroot, hsource, hmake, hsave⟩
  · rintro ⟨rfl, rfl, root, source, result, hroot, hsource, hmake, hsave⟩
    exact (h.written root source result hroot hsource hmake).trans (settle_saveImage_of_ok hsave)

/-- With a library and an image that can be read, it fails with an error if making something of the image
    does, and tells it in its own way. -/
theorem failed_iff (h : Delivers codec output t found opened make tell r) {root : LibraryRoot}
    {source : Image} (hfound : found = .ok root) (hopened : opened = .ok source)
    (htell : ∀ e e', tell e = tell e' → e = e') (e : Error) :
    r.1 = .failed (.error (tell e)) ↔ make root source = .error e := by
  cases hmake : make root source with
  | error e' =>
      rw [h.faulty root source e' hfound hopened hmake]
      constructor
      · intro hsame
        injection hsame with hsame
        injection hsame with hsame
        rw [htell _ _ hsame]
      · intro hsame
        cases hsame
        rfl
  | ok result =>
      rw [h.written root source result hfound hopened hmake]
      refine ⟨fun hsame => ?_, nofun⟩
      rcases hsave : t.saveImage codec output result with ⟨e' | _, t''⟩
      · rw [settle_saveImage_of_error hsave] at hsame
        cases hsame
      · rw [settle_saveImage_of_ok hsave] at hsame
        cases hsame

/-- Two commands that write what is made in the same way leave the same tree. -/
theorem tree_eq (h : Delivers codec output t found opened make tell r)
    (h' : Delivers codec output t found opened make tell' r') : r.2 = r'.2 := by
  rcases h.failed_or_written with
    ⟨⟨f, hf⟩, hnone⟩ | ⟨root, source, result, hroot, hsource, hmake, hr⟩
  · rcases h'.failed_or_written with
      ⟨⟨f', hf'⟩, _⟩ | ⟨root, source, result, hroot, hsource, hmake, _⟩
    · rw [hf, hf']
    · exact absurd hmake (hnone root source result hroot hsource)
  · rw [hr, h'.written root source result hroot hsource hmake]

/-- What would be made of an image without a library does not matter. -/
theorem congr {make' : LibraryRoot → Image → Except Error Image}
    (h : Delivers codec output t found opened make tell r)
    (hsame : ∀ root source, found = .ok root → make' root source = make root source) :
    Delivers codec output t found opened make' tell r where
  rootless := h.rootless
  unreadable := h.unreadable
  faulty root source e hfound hopened hmake :=
    h.faulty root source e hfound hopened ((hsame root source hfound).symm.trans hmake)
  written root source result hfound hopened hmake :=
    h.written root source result hfound hopened ((hsame root source hfound).symm.trans hmake)

end Delivers

/-! ## The two commands -/

namespace Action

variable {t : FileTree} {context : Context} {codec : ImageCodec} {image chain output : Path}
  {stage : Stage}

theorem bind_of_ok {α β : Type} {x : Action α} {next : α → Action β} {t' : FileTree} {a : α}
    (h : x t = .ok a t') : (x >>= next) t = next a t' := by
  simp only [bind, EStateM.bind]
  rw [h]

theorem bind_of_error {α β : Type} {x : Action α} {next : α → Action β} {t' : FileTree} {f : Failure}
    (h : x t = .error f t') : (x >>= next) t = .error f t' := by
  simp only [bind, EStateM.bind]
  rw [h]

theorem perform_of_ok {α : Type} {op : Operation α} {a : α} (h : op.outcome ⟨none, none⟩ = .ok a) :
    perform op t = .ok a t := by
  unfold outcome at h
  unfold perform
  cases hop : op ⟨none, none⟩ with
  | ok a' session =>
      rw [hop] at h
      cases h
      rfl
  | error e session =>
      rw [hop] at h
      cases h

theorem perform_of_error {α : Type} {op : Operation α} {e : Error}
    (h : op.outcome ⟨none, none⟩ = .error e) : perform op t = .error (.error e) t := by
  unfold outcome at h
  unfold perform
  cases hop : op ⟨none, none⟩ with
  | ok a session =>
      rw [hop] at h
      cases h
  | error e' session =>
      rw [hop] at h
      cases h
      rfl

theorem ask_of_ok {α ε : Type} {about : ε → Failure} {f : FileTree → Except ε α} {a : α}
    (h : f t = .ok a) : ask about f t = .ok a t := by
  unfold ask
  rw [h]
  rfl

theorem ask_of_error {α ε : Type} {about : ε → Failure} {f : FileTree → Except ε α} {e : ε}
    (h : f t = .error e) : ask about f t = .error (about e) t := by
  unfold ask
  rw [h]
  rfl

theorem openImage_of_ok {source : Image} (h : t.openImage codec image = .ok source) :
    openImage codec image t = .ok source t :=
  ask_of_ok h

theorem openImage_of_error {e : Error} (h : t.openImage codec image = .error e) :
    openImage codec image t = .error (.openImage image e) t :=
  ask_of_error h

theorem readChain_of_ok {text : String} {line : Chain} (hfile : t.readText chain = .ok text)
    (hline : Chain.parse text = .ok line) : readChain chain t = .ok line t := by
  have hask : ask (.readChain chain) (·.readText chain) t = .ok text t := ask_of_ok hfile
  unfold readChain
  rw [bind_of_ok hask, hline]
  rfl

variable {root : LibraryRoot} {options : ApplyOptions} {address : Script.Addressing}

theorem loader_eq (context : Context) (t : FileTree) :
    loader context t = .ok (loaderOf context.root context.address t) t :=
  rfl

section Effects

variable {id : String} {params : Params}

theorem applyEffect_of_loaded {effect : Effect} (hload : loaded root address t id params = .ok effect) :
    applyEffect ⟨root, options, address⟩ codec image id output params t =
      (openImage codec image >>= fun source =>
        perform (effect.apply options source) >>= saveImage codec output) t := by
  unfold applyEffect
  rw [bind_of_ok (loader_eq _ t), bind_of_ok (perform_of_ok hload)]

/-- An effect that cannot be loaded is an error before the image is looked at. -/
theorem applyEffect_of_not_loaded {e : Error} (hload : loaded root address t id params = .error e) :
    applyEffect ⟨root, options, address⟩ codec image id output params t = .error (.error e) t := by
  unfold applyEffect
  rw [bind_of_ok (loader_eq _ t), bind_of_error (perform_of_error hload)]

/-- Without an image that can be read, an effect is not applied. -/
theorem applyEffect_of_no_image {e : Error} (himage : t.openImage codec image = .error e) :
    ∃ f, applyEffect ⟨root, options, address⟩ codec image id output params t = .error f t := by
  cases hload : loaded root address t id params with
  | error e => exact ⟨_, applyEffect_of_not_loaded hload⟩
  | ok effect =>
      rw [applyEffect_of_loaded hload]
      exact ⟨_, bind_of_error (openImage_of_error himage)⟩

/-- With an image, an effect fails with the error of what is to be made of it. -/
theorem applyEffect_of_error {source : Image} {e : Error}
    (himage : t.openImage codec image = .ok source)
    (hmade : made options address t id params root source = .error e) :
    applyEffect ⟨root, options, address⟩ codec image id output params t = .error (.error e) t := by
  unfold made at hmade
  cases hload : loaded root address t id params with
  | error e' =>
      rw [hload] at hmade
      cases hmade
      exact applyEffect_of_not_loaded hload
  | ok effect =>
      rw [hload] at hmade
      rw [applyEffect_of_loaded hload, bind_of_ok (openImage_of_ok himage)]
      exact bind_of_error (perform_of_error hmade)

/-- With an image, an effect writes what it makes of it. -/
theorem applyEffect_of_made {source result : Image} (himage : t.openImage codec image = .ok source)
    (hmade : made options address t id params root source = .ok result) :
    applyEffect ⟨root, options, address⟩ codec image id output params t =
      saveImage codec output result t := by
  unfold made at hmade
  cases hload : loaded root address t id params with
  | error e' =>
      rw [hload] at hmade
      cases hmade
  | ok effect =>
      rw [hload] at hmade
      rw [applyEffect_of_loaded hload, bind_of_ok (openImage_of_ok himage)]
      exact bind_of_ok (perform_of_ok hmade)

end Effects

section Chains

variable {text : String} (hfile : t.readText chain = .ok text)
  (hline : Chain.parse text = .ok (.single stage))

include hfile hline

/-- Without an image that can be read, a chain is not run. -/
theorem applyChain_of_no_image {e : Error} (himage : t.openImage codec image = .error e) :
    applyChain ⟨root, options, address⟩ codec image chain output t =
      .error (.openImage image e) t := by
  unfold applyChain
  rw [bind_of_ok (readChain_of_ok hfile hline), bind_of_error (openImage_of_error himage)]

theorem applyChain_of_image {source : Image} (himage : t.openImage codec image = .ok source) :
    applyChain ⟨root, options, address⟩ codec image chain output t =
      (perform ((Chain.single stage).run (loaderOf root address t) options source) >>=
        saveImage codec output) t := by
  unfold applyChain
  rw [bind_of_ok (readChain_of_ok hfile hline), bind_of_ok (openImage_of_ok himage),
    bind_of_ok (loader_eq _ t)]

/-- With an image, a chain of one stage fails with the error of what is to be made of it, as one of the
    first stage. -/
theorem applyChain_of_error {source : Image} {e : Error}
    (himage : t.openImage codec image = .ok source)
    (hmade : made options address t stage.effectId stage.params root source = .error e) :
    applyChain ⟨root, options, address⟩ codec image chain output t =
      .error (.error (.stage 1 stage.effectId e)) t := by
  rw [applyChain_of_image hfile hline himage]
  exact bind_of_error (perform_of_error ((outcome_single_run ..).trans
    (congrArg (Except.mapError _) hmade)))

/-- With an image, a chain of one stage writes what the stage makes of it. -/
theorem applyChain_of_made {source result : Image} (himage : t.openImage codec image = .ok source)
    (hmade : made options address t stage.effectId stage.params root source = .ok result) :
    applyChain ⟨root, options, address⟩ codec image chain output t =
      saveImage codec output result t := by
  rw [applyChain_of_image hfile hline himage]
  exact bind_of_ok (perform_of_ok ((outcome_single_run ..).trans
    (congrArg (Except.mapError _) hmade)))

end Chains

end Action

/-! ## Words -/

section Words

variable {outside : Outside} {plan : Plan} {env : Environment} {address : Script.Addressing}
  {t : FileTree} {words : List String} {settings : Settings} {command : Command}

/-- Without a root, no command is run. -/
theorem runWith_of_rootless {e : Error}
    (h : outside.parser readParam words = some (.invoke ⟨settings, command⟩))
    (hfound : LibraryRoot.discover settings.root env outside.dataDirectory = .error e) :
    runWith outside plan words env address t = (.failed (.error e), t) := by
  have hfail : Action.orFail .error
      (LibraryRoot.discover settings.root env outside.dataDirectory) t = .error (.error e) t := by
    rw [hfound]
    rfl
  unfold runWith Invocation.run
  rw [h]
  dsimp only
  rw [Action.bind_of_error hfail]
  rfl

/-- With a root, a command is run with what is under it. -/
theorem runWith_of_root {root : LibraryRoot}
    (h : outside.parser readParam words = some (.invoke ⟨settings, command⟩))
    (hfound : LibraryRoot.discover settings.root env outside.dataDirectory = .ok root) :
    runWith outside plan words env address t = settle (command.run
      ⟨root, Invocation.applyOptions plan settings, address⟩ outside.codec t) := by
  have hroot : Action.orFail .error
      (LibraryRoot.discover settings.root env outside.dataDirectory) t = .ok root t := by
    rw [hfound]
    rfl
  unfold runWith Invocation.run
  rw [h]
  dsimp only
  rw [Action.bind_of_ok hroot]

/-- A command that fails whatever the root is fails, also where there is no root. -/
theorem runWith_of_failing (h : outside.parser readParam words = some (.invoke ⟨settings, command⟩))
    (hfails : ∀ context, ∃ f, command.run context outside.codec t = .error f t) :
    ∃ f, runWith outside plan words env address t = (.failed f, t) := by
  cases hfound : LibraryRoot.discover settings.root env outside.dataDirectory with
  | error e => exact ⟨_, runWith_of_rootless h hfound⟩
  | ok root =>
      rcases hfails ⟨root, Invocation.applyOptions plan settings, address⟩ with ⟨f, hf⟩
      exact ⟨f, (runWith_of_root h hfound).trans (congrArg settle hf)⟩

variable {image id chain output : Path}

/-- Applying an effect writes what is made of the image, and tells errors as they are. -/
theorem applyEffect_delivers {pairs : List (String × String)}
    (h : outside.parser readParam words =
      some (.invoke ⟨settings, .applyEffect image id output pairs⟩)) :
    Delivers outside.codec output t
      (LibraryRoot.discover settings.root env outside.dataDirectory)
      (t.openImage outside.codec image)
      (made (Invocation.applyOptions plan settings) address t id (paramsOf pairs)) (fun e => e)
      (runWith outside plan words env address t) where
  rootless _ := runWith_of_rootless h
  unreadable _ himage := runWith_of_failing h fun _ => Action.applyEffect_of_no_image himage
  faulty _ _ _ hfound himage hmade :=
    (runWith_of_root h hfound).trans (congrArg settle (Action.applyEffect_of_error himage hmade))
  written _ _ _ hfound himage hmade :=
    (runWith_of_root h hfound).trans (congrArg settle (Action.applyEffect_of_made himage hmade))

/-- A chain of one stage writes what is made of the image, and tells errors as those of the stage. -/
theorem applyChain_delivers {stage : Stage} {text : String}
    (h : outside.parser readParam words =
      some (.invoke ⟨settings, .applyChain image chain output⟩))
    (hfile : t.readText chain = .ok text) (hline : Chain.parse text = .ok (.single stage)) :
    Delivers outside.codec output t
      (LibraryRoot.discover settings.root env outside.dataDirectory)
      (t.openImage outside.codec image)
      (made (Invocation.applyOptions plan settings) address t stage.effectId stage.params)
      (.stage 1 stage.effectId) (runWith outside plan words env address t) where
  rootless _ := runWith_of_rootless h
  unreadable _ himage := runWith_of_failing h fun _ =>
    ⟨_, Action.applyChain_of_no_image hfile hline himage⟩
  faulty _ _ _ hfound himage hmade :=
    (runWith_of_root h hfound).trans
      (congrArg settle (Action.applyChain_of_error hfile hline himage hmade))
  written _ _ _ hfound himage hmade :=
    (runWith_of_root h hfound).trans
      (congrArg settle (Action.applyChain_of_made hfile hline himage hmade))

end Words

end CommandLine

end PixelEffects
