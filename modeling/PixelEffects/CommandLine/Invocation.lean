import PixelEffects.Chain
import PixelEffects.Package.Kind
import PixelEffects.FileTree.Path

/-!
# Invocations

What a command line asks for.

The words of a command line are read by a parser, which is a library of its own: it knows the options
and the words of each command, refuses what is none of them, and answers by itself when it is asked for
the version or for help. So it is a parameter here. What is told to it is how a parameter of an effect
is read: a key that is not empty, an equals sign and a value.

## Main definitions

* `Command`: What can be done.
* `Settings`: What is the same for all commands.
* `Invocation`, `Request`: A command with its settings, or a question that the parser has answered.
* `readParam`: A parameter.
* `ArgumentParser`: What reads the words of a command line.
-/

namespace PixelEffects

namespace CommandLine

/-- Which packages to list: those whose texts contain these, in any letter case. -/
structure ListFilter where
  name : Option String
  id : Option String
  author : Option String
  description : Option String
deriving Repr, DecidableEq

/-- What can be done. Parameters are kept in the order in which they were given. -/
inductive Command
  | applyEffect (image : Path) (effectId : String) (output : Path)
      (params : List (String × String))
  | applyChain (image chain output : Path)
  | initEffect (effectId : String) (template : Bool)
  | genImage (output : Path) (size : Nat)
  | about (kind : PackageKind) (id : String) (json : Bool)
  | list (kind : PackageKind) (filter : ListFilter)
deriving Repr, DecidableEq

/-- What is the same for all commands. -/
structure Settings where
  root : Option Path
  threads : Option Nat
deriving Repr, DecidableEq

/-- A command to be run. -/
structure Invocation where
  settings : Settings
  command : Command
deriving Repr, DecidableEq

/-- What a command line asks for: a text that the parser has for an answer, or that a command is
    run. -/
inductive Request
  | answer (text : String)
  | invoke (invocation : Invocation)
deriving Repr, DecidableEq

/-- The key and the value that a text writes, or what is wrong with it. -/
def readParam (text : String) : Except String (String × String) :=
  match Text.splitOnce '=' text.toList with
  | some (c :: key, value) => .ok (String.ofList (c :: key), String.ofList value)
  | _ => .error s!"expected key=value, got '{text}'"

/-- Parameters by key, the last one with a key counts. -/
def paramsOf (pairs : List (String × String)) : Params :=
  pairs.foldl (fun ps p => ps.insert p.1 p.2) ∅

/-- What reads the words of a command line, when it is told how a parameter is read. Words that ask
    for nothing are refused. -/
abbrev ArgumentParser :=
  (String → Except String (String × String)) → List String → Option Request

end CommandLine

end PixelEffects
