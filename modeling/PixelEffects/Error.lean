import PixelEffects.FileTree
import PixelEffects.Package.Kind
import PixelEffects.Script.Fault
import PixelEffects.Text.Quoted

/-!
# Errors

What can go wrong outside of a script, from a missing package to a failed stage of a chain.

An error is a value that says what happened, and its text is written here and nowhere else. An
error in a stage of a chain wraps the error that it is about. What an error is about in turn is
its chain of causes, outermost first; a message for the user shows them one below the other.

## Main definitions

* `PackageCause`, `EffectCause`, `ChainCause`, `ConfigCause`, `ImageError`: Why something was
  refused.
* `ScriptError`: A script of an effect that failed, and at which pixel.
* `Error`: All errors.
* `Error.message`, `Error.causes`: Their texts.
-/

namespace PixelEffects

/-- Why a package is malformed. -/
inductive PackageCause
  | unreadable (file : String) (cause : OsError)
  | itemOutsideList (line : Nat)
  | notAnEntry (line : Nat) (text : String)
  | notAFileName (file : String)
deriving Repr, DecidableEq

namespace PackageCause

/-- The text of a cause. -/
def message : PackageCause → String
  | unreadable file cause => s!"cannot read {file}: {cause.message}"
  | itemOutsideList line => s!"line {line}: list item outside a list key"
  | notAnEntry line text => s!"line {line}: expected 'key: value', got '{text}'"
  | notAFileName file => s!"script '{file}' must be a file name inside the package"

end PackageCause

/-- Why an effect cannot be run. -/
inductive EffectCause
  | reservedByLib (lib : String)
  | withoutParameter
  | builtinEntry
  | withoutEntry
  | notAFunction (type : Script.TypeName)
  | workerNotStarted
deriving Repr, DecidableEq

namespace EffectCause

/-- The text of a cause. -/
def message : EffectCause → String
  | reservedByLib lib => s!"preloaded lib '{lib}' defines the reserved global 'effect'"
  | withoutParameter => "'effect' must take the pixel as a parameter"
  | builtinEntry => "'effect' must be a script function, not a builtin"
  | withoutEntry => "script does not define 'effect'"
  | notAFunction type => s!"'effect' must be a function, got {type.text}"
  | workerNotStarted => "worker runtime failed to start"

end EffectCause

/-- Why a text is not a chain. -/
inductive ChainCause
  | invalidCharacter (c : Char) (effectId : String)
  | withoutStages
deriving Repr, DecidableEq

namespace ChainCause

/-- The text of a cause. -/
def message : ChainCause → String
  | invalidCharacter c effectId => s!"invalid character '{c}' in effect id '{effectId}'"
  | withoutStages => "chain has no stages"

end ChainCause

/-- Why options or the environment are of no use. -/
inductive ConfigCause
  | noThreads
  | noThreadPool (cause : String)
  | noDataDirectory
deriving Repr, DecidableEq

namespace ConfigCause

/-- The text of a cause. -/
def message : ConfigCause → String
  | noThreads => "apply 'threads' must be >= 1 when set"
  | noThreadPool cause => s!"failed to build rayon thread pool: {cause}"
  | noDataDirectory => "no data directory on this platform; pass --root or set PIXFX_HOME"

end ConfigCause

/-- Why an image could not be read or written: a failure on files, or what the codec says, with what
    that is about in turn. -/
inductive ImageError
  | os (cause : OsError)
  | codec (text : String) (about : List String)
deriving Repr, DecidableEq

namespace ImageError

/-- The text of a cause. -/
def message : ImageError → String
  | os cause => cause.message
  | codec text _ => text

/-- What an error of the codec is about. -/
def causes : ImageError → List String
  | os _ => []
  | codec _ about => about

end ImageError

/-- Why a script gave no pixel, or no function that could give one. -/
inductive ScriptCause
  | fault (fault : Script.Fault)
  | notATable (type : Script.TypeName)
  | channelNaN (channel : String)
  | channelType (channel : String) (type : Script.TypeName)
deriving Repr

namespace ScriptCause

/-- The text of a cause. -/
def message : ScriptCause → String
  | fault f => f.display
  | notATable type => s!"'effect' must return a table, got {type.text}"
  | channelNaN channel => s!"channel '{channel}' is NaN"
  | channelType channel type => s!"channel '{channel}' must be a number, got {type.text}"

end ScriptCause

/-- A script of an effect that failed, and at which pixel, if it was at one. -/
structure ScriptError where
  effectId : String
  coordinate : Option (Nat × Nat)
  cause : ScriptCause
deriving Repr

namespace ScriptError

/-- The text of an error. -/
def message (e : ScriptError) : String :=
  match e.coordinate with
  | some (x, y) => s!"effect '{e.effectId}' failed at pixel ({x}, {y}): {e.cause.message}"
  | none => s!"effect '{e.effectId}' failed: {e.cause.message}"

end ScriptError

/-- What can go wrong outside of a script. -/
inductive Error
  | notFound (kind : PackageKind) (id : String)
  | malformedPackage (id : String) (cause : PackageCause)
  | missingScript (id file : String)
  | invalidEffect (id : String) (cause : EffectCause)
  | cyclicPreload (cycle : List String)
  | script (error : ScriptError)
  | chainSyntax (line : Nat) (cause : ChainCause)
  | stage (index : Nat) (effectId : String) (error : Error)
  | cancelled
  | config (cause : ConfigCause)
  | io (path : Path) (cause : OsError)
  | image (cause : ImageError)
deriving Repr

namespace Error

/-- The text of an error. -/
def message : Error → String
  | notFound kind id => s!"{kind.label} '{id}' not found"
  | malformedPackage id cause => s!"malformed package '{id}': {cause.message}"
  | missingScript id file => s!"package '{id}' is missing script '{file}'"
  | invalidEffect id cause => s!"invalid effect '{id}': {cause.message}"
  | cyclicPreload cycle => "cyclic preload: " ++ " -> ".intercalate cycle
  | script error => "script error: " ++ error.message
  | chainSyntax line cause => s!"chain syntax error at line {line}: {cause.message}"
  | stage index effectId error => s!"chain stage {index} ('{effectId}') failed: {message error}"
  | cancelled => "operation cancelled"
  | config cause => "config error: " ++ cause.message
  | io path cause => s!"io error at '{path}': {cause.message}"
  | image cause => "image error: " ++ cause.message

/-- What an error is about, and what that is about, as texts. -/
def causes : Error → List String
  | script error => [error.message]
  | stage _ _ error => message error :: causes error
  | io _ cause => [cause.message]
  | image cause => cause.message :: cause.causes
  | _ => []

/-- The error that the stages are about. -/
def innermost : Error → Error
  | stage _ _ error => innermost error
  | e => e

end Error

end PixelEffects
