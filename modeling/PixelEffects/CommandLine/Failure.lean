import PixelEffects.Error

/-!
# Failures of Commands

What the user is told when a command fails.

A failure is an error, or says what was being done and is about an error in turn. All of that is
shown, outermost first: the failure itself, and below it what it is about, numbered if there is
more than one thing. Lines inside of a cause are indented as far as its first line.

## Main definitions

* `Failure`: Why a command failed.
* `Failure.message`, `Failure.causes`: What it says, and what it is about.
* `Failure.text`: What the user is told.
-/

namespace PixelEffects

namespace CommandLine

/-- Why a command failed. -/
inductive Failure
  | error (cause : Error)
  | openImage (path : Path) (cause : Error)
  | writeImage (path : Path) (cause : Error)
  | readChain (path : Path) (cause : OsError)
  | parseChain (path : Path) (cause : Error)
  | invalidId (id : String)
  | createDir (path : Path) (cause : OsError)
  | createEffectDir (path : Path) (cause : OsError)
  | writeFile (path : Path) (cause : OsError)
  | emptySize
deriving Repr

namespace Failure

/-- What a failure says. -/
def message : Failure → String
  | error cause => cause.message
  | openImage path _ => s!"open image '{path}'"
  | writeImage path _ => s!"write image '{path}'"
  | readChain path _ => s!"read chain '{path}'"
  | parseChain path _ => s!"parse chain '{path}'"
  | invalidId id => s!"invalid effect id '{id}'"
  | createDir path _ => s!"create '{path}'"
  | createEffectDir path _ => s!"create effect dir '{path}'"
  | writeFile path _ => s!"write '{path}'"
  | emptySize => "--size must be >= 1"

/-- What a failure is about, and what that is about. -/
def causes : Failure → List String
  | error cause => cause.causes
  | openImage _ cause => cause.message :: cause.causes
  | writeImage _ cause => cause.message :: cause.causes
  | readChain _ cause => [cause.message]
  | parseChain _ cause => cause.message :: cause.causes
  | invalidId _ => []
  | createDir _ cause => [cause.message]
  | createEffectDir _ cause => [cause.message]
  | writeFile _ cause => [cause.message]
  | emptySize => []

/-- A text with every line but the first one indented. -/
def indentRest (width : Nat) (s : String) : String :=
  String.ofList (s.toList.flatMap fun c =>
    if c == '\n' then '\n' :: List.replicate width ' ' else [c])

/-- A number in a field of five characters. -/
def numberField (n : Nat) : String :=
  let digits := toString n
  String.ofList (List.replicate (5 - digits.length) ' ') ++ digits

/-- Causes with their numbers, of which the first is given. -/
def numbered (n : Nat) : List String → String
  | [] => ""
  | cause :: rest =>
    numberField n ++ ": " ++ indentRest 7 cause ++ "\n" ++ numbered (n + 1) rest

/-- The causes as they are shown below a failure. -/
def causesText : List String → String
  | [] => ""
  | [cause] => "\nCaused by:\n    " ++ indentRest 4 cause ++ "\n"
  | causes => "\nCaused by:\n" ++ numbered 0 causes

/-- What the user is told. -/
def text (f : Failure) : String :=
  "Error: " ++ f.message ++ "\n" ++ causesText f.causes

end Failure

end CommandLine

end PixelEffects
