import PixelEffects.CommandLine.Invocation
import PixelEffects.CommandLine.Options
import PixelEffects.Number.Numeral

/-!
# A Parser of Command Lines

A parser to run the program with.

A command has a name and a short one. Every command takes the options that are about all of them,
and they can stand in front of its name too; there, they count less. Each command has options and
words of its own. A path must not be empty, and a number must be in its range.

In place of a command, the version of the program can be asked for. Then it does not matter what
stands behind that, while what stands in front of it still has to be in order.

A command line that asks for nothing in this sense has no meaning; there is no half of it that is
carried out.

## Main definitions

* `CommandName`: The names of commands, and the options that each of them takes.
* `Invocation.parse?`: What the words behind the name of a command say.
* `ArgumentParser.standard`: The parser.
-/

namespace PixelEffects

namespace CommandLine

/-- The names of commands. -/
inductive CommandName
  | applyEffect
  | applyChain
  | initEffect
  | genImage
  | about (kind : PackageKind)
  | list (kind : PackageKind)
deriving Repr, DecidableEq

namespace CommandName

/-- The command that a word names. -/
def ofText? : String → Option CommandName
  | "apply-effect" => some applyEffect
  | "ae" => some applyEffect
  | "apply-chain" => some applyChain
  | "afc" => some applyChain
  | "init-effect" => some initEffect
  | "ie" => some initEffect
  | "gen-image" => some genImage
  | "gi" => some genImage
  | "about-effect" => some (about .effect)
  | "de" => some (about .effect)
  | "about-lib" => some (about .lib)
  | "dl" => some (about .lib)
  | "list-effects" => some (list .effect)
  | "le" => some (list .effect)
  | "list-libs" => some (list .lib)
  | "ll" => some (list .lib)
  | _ => none

/-- The options that every command takes. -/
def shared : List OptionName :=
  [.root, .threads, .verbose]

/-- The options that can stand in front of a command. -/
def leading : List OptionName :=
  .version :: shared

/-- The options that a command takes of its own. -/
def options : CommandName → List OptionName
  | applyEffect => [.param]
  | applyChain => []
  | initEffect => [.noTemplate]
  | genImage => [.size]
  | about _ => [.json]
  | list _ => [.name, .id, .author, .description]

end CommandName

namespace Value

/-- The numbers of threads are below this. -/
def threadLimit : Nat := Nat.pow 2 64

/-- The numbers of pixels on a side are below this. -/
def sizeLimit : Nat := Nat.pow 2 32

/-- A path. -/
def path? (text : String) : Option Path :=
  if text.isEmpty then none else some text

/-- The number that digits write, if it is below a limit. -/
def digits? (limit : Nat) (cs : List Char) : Option Nat :=
  let digits := Numeral.significant cs
  if cs.isEmpty || !cs.all Char.isDigit || digits.length > 20 then none
  else
    let n := Numeral.digitsValue digits
    if n < limit then some n else none

/-- A number of threads: digits, maybe behind a plus sign. -/
def threads? (text : String) : Option Nat :=
  match text.toList with
  | '+' :: cs => digits? threadLimit cs
  | cs => digits? threadLimit cs

/-- A number of pixels on a side: an integer, maybe with a sign, that is in the range of sides. So
    zero may have a minus sign. -/
def size? (text : String) : Option Nat :=
  let (negative, cs) := Numeral.spanSign text.toList
  digits? (if negative then 1 else sizeLimit) cs

/-- The side of an image when none is given. -/
def defaultSize : Nat := 1024

end Value

/-- Read a value that may be left out. -/
def optional {α : Type} (read : String → Option α) : Option String → Option (Option α)
  | none => some none
  | some text => (read text).map some

namespace Settings

/-- What options say about all commands. -/
def ofGiven? (g : Given) : Option Settings := do
  let root ← optional Value.path? (g.value? .root)
  let threads ← optional Value.threads? (g.value? .threads)
  pure ⟨root, threads⟩

/-- Settings where some of them are given again. -/
def override (outer inner : Settings) : Settings :=
  ⟨inner.root <|> outer.root, inner.threads <|> outer.threads⟩

end Settings

namespace Command

/-- Parameters from what follows options. -/
def paramsOf? (read : String → Except String (String × String)) (texts : List String) :
    Option (List (String × String)) :=
  (texts.mapM read).toOption

/-- The command of a name with what was given behind it. -/
def ofGiven? (read : String → Except String (String × String)) (name : CommandName) (g : Given) :
    Option Command :=
  match name, g.positional with
  | .applyEffect, [image, id, output] => do
    pure (applyEffect (← Value.path? image) id (← Value.path? output)
      (← paramsOf? read (g.values .param)))
  | .applyChain, [image, chain, output] => do
    pure (applyChain (← Value.path? image) (← Value.path? chain) (← Value.path? output))
  | .initEffect, [id] => some (initEffect id (!g.has .noTemplate))
  | .genImage, [output] => do
    let size ← optional Value.size? (g.value? .size)
    pure (genImage (← Value.path? output) (size.getD Value.defaultSize))
  | .about kind, [id] => some (about kind id (g.has .json))
  | .list kind, [] =>
    some (list kind ⟨g.value? .name, g.value? .id, g.value? .author, g.value? .description⟩)
  | _, _ => none

end Command

namespace Invocation

/-- What the words behind the name of a command say, with settings from in front of it. -/
def parse? (read : String → Except String (String × String)) (outer : Settings)
    (name : CommandName) (words : List String) : Option Invocation := do
  let inner ← Given.empty.read? (CommandName.shared ++ name.options) (fun _ => false) words
  if inner.isWithinArity then
    let settings := outer.override (← Settings.ofGiven? inner)
    pure ⟨settings, ← Command.ofGiven? read name inner⟩
  else none

end Invocation

namespace ArgumentParser

/-- The name of the program with its version. -/
def versionText : String := "pixfx 0.1.0\n"

/-- What words ask for, if they ask for something. -/
def standard : ArgumentParser := fun read words => do
  let outer ← Given.empty.read? CommandName.leading
    (fun text => (CommandName.ofText? text).isSome) words
  if outer.positional.isEmpty && outer.isWithinArity then
    let settings ← Settings.ofGiven? outer
    if outer.has .version then pure (.answer versionText)
    else
      let (text, rest) ← outer.command
      pure (.invoke (← Invocation.parse? read settings (← CommandName.ofText? text) rest))
  else none

end ArgumentParser

end CommandLine

end PixelEffects
