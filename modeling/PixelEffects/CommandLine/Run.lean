import PixelEffects.Chain.Run
import PixelEffects.CommandLine.Description
import PixelEffects.CommandLine.Failure
import PixelEffects.CommandLine.Parser
import PixelEffects.Image.PngCodec

/-!
# Running Commands

What commands do to a file tree, and what they say.

A command ends with an outcome and a tree. It keeps what it did to the tree before it failed: a
new effect whose files cannot be written leaves its directory behind. What a command is asked to
write is written last, after everything that can fail for another reason.

An effect applied from the command line and a chain with one stage do the same to an image. They
differ in the order in which they look at things: a chain is read and the image opened before any
effect is loaded.

What reads the words, what reads and writes images, and what knows where the platform keeps data, are
no parts of the program. It does the same with any of them.

## Main definitions

* `Outcome`: What is said in the end.
* `Command.run`: One command.
* `Outside`: What the program relies on.
* `runWith`, `run`: The words of a command line.
-/

namespace PixelEffects

namespace CommandLine

/-- What is said in the end: that the words were not understood, or the output and the files that
    were written, or why it failed. -/
inductive Outcome
  | usage
  | finished (output : String) (written : List Path)
  | failed (failure : Failure)

/-- What is said about the files that were written. -/
def notices (written : List Path) : String :=
  String.join (written.map fun p => s!"wrote {p}\n")

/-- What commands are run with. -/
structure Context where
  root : LibraryRoot
  options : ApplyOptions
  address : Script.Addressing

/-- A computation that ends with a failure or with a result, and changes a tree on the way. -/
abbrev Action (α : Type) := EStateM Failure FileTree α

namespace Action

/-- Stop with a failure. -/
def fail {α : Type} (f : Failure) : Action α := fun t =>
  .error f t

/-- Take a result, or stop with a failure that is about its error. -/
def orFail {α ε : Type} (about : ε → Failure) : Except ε α → Action α
  | .ok a => pure a
  | .error e => fail (about e)

/-- Ask the tree. -/
def ask {α ε : Type} (about : ε → Failure) (f : FileTree → Except ε α) : Action α := fun t =>
  orFail about (f t) t

/-- Change the tree. -/
def change (about : OsError → Failure) (f : FileTree → Except OsError FileTree) : Action Unit :=
  fun t =>
    match f t with
    | .ok t => .ok () t
    | .error e => .error (about e) t

/-- The packages of a root. -/
def library (root : LibraryRoot) : Action PackageLibrary := fun t =>
  .ok ⟨t, root⟩ t

/-- Do something with effects. Nothing that was parsed is kept, and nobody stops it. -/
def perform {α : Type} (op : Operation α) : Action α := fun t =>
  match op ⟨none, none⟩ with
  | .ok a _ => .ok a t
  | .error e _ => .error (.error e) t

/-- Open an image. -/
def openImage (codec : ImageCodec) (p : Path) : Action Image :=
  ask (.openImage p) (·.openImage codec p)

/-- Write an image, and tell where. -/
def saveImage (codec : ImageCodec) (p : Path) (image : Image) : Action Outcome := fun t =>
  match t.saveImage codec p image with
  | (.ok _, t) => .ok (.finished "" [p]) t
  | (.error e, t) => .error (.writeImage p e) t

/-- What loads effects. -/
def loader (context : Context) : Action EffectLoader := do
  pure (.ofLibrary (← library context.root) {} false context.address)

end Action

/-- The files of a new effect: one that changes nothing. -/
structure EffectTemplate where
  script : String
  metadata : String

namespace EffectTemplate

/-- An effect to start from. -/
def starter : EffectTemplate where
  script := "function effect(pixel)\n    -- your code here\n" ++
    "    return \x7br=pixel[\"r\"], g=pixel[\"g\"], b=pixel[\"b\"], a=pixel[\"a\"]\x7d\nend\n"
  metadata := "name: Empty Effect\nversion: 1.0.0\nauthor: unknown <>\n" ++
    "desc: pixfx generated empty effect\n"

/-- Files without content. -/
def blank : EffectTemplate :=
  ⟨"", ""⟩

end EffectTemplate

namespace Action

/-- Whether a text can be the id of a new effect, in lower case. -/
def isNewId (id : String) : Bool :=
  let cs := id.toList
  !cs.isEmpty && cs.all Stage.isIdCharacter && !Package.leadsUp cs

/-- Apply one effect to an image. -/
def applyEffect (context : Context) (codec : ImageCodec) (image : Path) (id : String)
    (output : Path) (params : Params) : Action Outcome := do
  let loader ← Action.loader context
  let effect ← Action.perform (loader.load id params)
  let source ← Action.openImage codec image
  let result ← Action.perform (effect.apply context.options source)
  Action.saveImage codec output result

/-- Read and parse a chain. -/
def readChain (p : Path) : Action Chain := do
  let text ← Action.ask (.readChain p) (·.readText p)
  Action.orFail (.parseChain p) (Chain.parse text)

/-- Apply a chain to an image. -/
def applyChain (context : Context) (codec : ImageCodec) (image chain output : Path) :
    Action Outcome := do
  let chain ← readChain chain
  let source ← Action.openImage codec image
  let loader ← Action.loader context
  let result ← Action.perform (chain.run loader context.options source)
  Action.saveImage codec output result

/-- Write a new file of an effect. -/
def writeText (p : Path) (text : String) : Action Unit :=
  Action.change (.writeFile p) (·.write p (.text text))

/-- Make a new effect. -/
def initEffect (context : Context) (id : String) (template : Bool) : Action Outcome := do
  let lowered := Case.toLower id
  if isNewId lowered then do
    let kindDir := context.root.kindDir .effect
    Action.change (.createDir kindDir) (·.makeDirs kindDir)
    let dir := context.root.packageDir .effect lowered
    Action.change (.createEffectDir dir) (·.makeDir dir)
    let files : EffectTemplate := if template then .starter else .blank
    writeText (Path.join dir Package.effectScript) files.script
    writeText (Path.join dir PackageKind.effect.metadataFile) files.metadata
    pure (.finished s!"View your effect in: {dir}\n" [])
  else Action.fail (.invalidId id)

/-- Write the test image. -/
def genImage (codec : ImageCodec) (output : Path) (size : Nat) : Action Outcome :=
  if size == 0 then Action.fail .emptySize
  else Action.saveImage codec output (.gradient size)

/-- Show a package. -/
def about (context : Context) (kind : PackageKind) (id : String) (json : Bool) :
    Action Outcome := do
  let library ← Action.library context.root
  let package ← Action.orFail .error (library.resolve kind id)
  pure (.finished (if json then package.record else package.page id) [])

/-- Whether a text contains another one, in any letter case. -/
def containsText (needle : Option String) (text : String) : Bool :=
  match needle with
  | none => true
  | some s => Text.contains (Case.toLower s).toList (Case.toLower text).toList

/-- Whether a filter lets a package through. -/
def selects (filter : ListFilter) (m : Metadata) : Bool :=
  containsText filter.name m.name && containsText filter.id m.id &&
    containsText filter.author m.author && containsText filter.description m.description

/-- The entry of a package in a list. A package that cannot be resolved has none. -/
def listEntry (library : PackageLibrary) (kind : PackageKind) (filter : ListFilter)
    (id : String) : String :=
  match library.resolve kind id with
  | .ok p => if selects filter p.metadata then p.entry else ""
  | .error _ => ""

/-- List packages. -/
def list (context : Context) (kind : PackageKind) (filter : ListFilter) : Action Outcome := do
  let library ← Action.library context.root
  let ids ← Action.orFail .error (library.list kind)
  pure (.finished (String.join (ids.map (listEntry library kind filter))) [])

end Action

namespace Command

/-- Run a command. -/
def run (context : Context) (codec : ImageCodec) : Command → Action Outcome
  | applyEffect image id output params =>
    Action.applyEffect context codec image id output (paramsOf params)
  | applyChain image chain output => Action.applyChain context codec image chain output
  | initEffect id template => Action.initEffect context id template
  | genImage output size => Action.genImage codec output size
  | about kind id json => Action.about context kind id json
  | list kind filter => Action.list context kind filter

end Command

/-- What the program relies on and is no part of it: what reads the words of a command line, what reads
    and writes images, and what knows where the platform keeps data of programs. -/
structure Outside where
  parser : ArgumentParser
  codec : ImageCodec
  dataDirectory : Environment → Option Path

namespace Outside

/-- What to run the program with. -/
def standard : Outside :=
  ⟨.standard, .png, Environment.dataDirectory⟩

end Outside

namespace Invocation

/-- How effects are applied: with workers if their number is given. -/
def applyOptions (plan : Plan) (settings : Settings) : ApplyOptions where
  parallel := settings.threads.isSome
  threads := settings.threads
  plan := plan

/-- Find the library and run the command. -/
def run (outside : Outside) (plan : Plan) (i : Invocation) (env : Environment)
    (address : Script.Addressing) : Action Outcome := do
  let root ← Action.orFail .error
    (LibraryRoot.discover i.settings.root env outside.dataDirectory)
  i.command.run ⟨root, applyOptions plan i.settings, address⟩ outside.codec

end Invocation

/-- What is said in the end of a command, and the tree that it leaves. -/
def settle : EStateM.Result Failure FileTree Outcome → Outcome × FileTree
  | .ok outcome t => (outcome, t)
  | .error f t => (.failed f, t)

/-- Run the words of a command line on a tree, with workers that follow a plan if there are any. -/
def runWith (outside : Outside) (plan : Plan) (words : List String) (env : Environment)
    (address : Script.Addressing) (t : FileTree) : Outcome × FileTree :=
  match outside.parser readParam words with
  | none => (.usage, t)
  | some (.answer text) => (.finished text [], t)
  | some (.invoke invocation) => settle (invocation.run outside plan env address t)

/-- Run the words of a command line on a tree. -/
def run (words : List String) (env : Environment) (address : Script.Addressing) (t : FileTree) :
    Outcome × FileTree :=
  runWith .standard .single words env address t

end CommandLine

end PixelEffects
