import PixelEffects.CommandLine.Run

/-!
# The Program

Runs a command on the files of the machine.

A command works on a file tree. So what it can ask for is read into one first: the packages of the
library, the files that are named on the command line, and what leads there. Then the command is
run, and what it has changed is written back. Nothing is decided here.
-/

namespace PixelEffects

namespace Program

open CommandLine

/-- Names that lead from the top to where a path leads. -/
def plainRoute (t : FileTree) (p : Path) : List String :=
  (t.route p).foldl (fun names name =>
    if name == "." then names
    else if name == ".." then names.dropLast
    else names ++ [name]) []

/-- All names that a list of names starts with, the shortest ones first. -/
def prefixes (names : List String) : List (List String) :=
  (List.range (names.length + 1)).map names.take

/-- The files that a command reads or writes, apart from the library. -/
def namedPaths (root : LibraryRoot) : Command → List Path
  | .applyEffect image _ output _ => [image, output]
  | .applyChain image chain output => [image, chain, output]
  | .initEffect id _ =>
    let dir := root.packageDir .effect (Case.toLower id)
    [Path.join dir Package.effectScript, Path.join dir PackageKind.effect.metadataFile]
  | .genImage output _ => [output]
  | .about _ _ _ => []
  | .list _ _ => []

/-- Put what is at a path of the disk into a tree, unless it is there. -/
def readPath (t : FileTree) (names : List String) : IO FileTree := do
  match t.nodeAt names with
  | .ok _ => pure t
  | .error _ =>
    let place := (← IO.currentDir) / ("/" ++ "/".intercalate names)
    if ← place.isDir then
      pure { t with top := t.top.put names .emptyDir }
    else if ← place.pathExists then
      let data ← IO.FS.readBinFile place
      pure { t with top := t.top.put names (.file (.ofBytes data)) }
    else pure t

/-- Put what leads to a path of the disk into a tree, and what is there. -/
def readAlong (t : FileTree) (names : List String) : IO FileTree :=
  (prefixes names).foldlM readPath t

/-- Put a directory of the disk into a tree, with directories inside of one another so deep. -/
def readDirectory : Nat → FileTree → List String → IO FileTree
  | 0, t, names => readAlong t names
  | depth + 1, t, names => do
    let t ← readAlong t names
    if t.isDirAt names then
      let place := (← IO.currentDir) / ("/" ++ "/".intercalate names)
      (← place.readDir).foldlM (fun t e => readDirectory depth t (names ++ [e.fileName])) t
    else pure t

/-- What a command can ask for. -/
def readTree (i : Invocation) (env : Environment) : IO FileTree := do
  let here := (← IO.currentDir).toString
  let t : FileTree := ⟨.emptyDir, Path.parts here⟩
  let t ← readAlong t t.start
  match LibraryRoot.discover i.settings.root env with
  | .error _ => pure t
  | .ok root =>
    let t ← [PackageKind.effect, .lib].foldlM
      (fun t kind => readDirectory 2 t (plainRoute t (root.kindDir kind))) t
    (namedPaths root i.command).foldlM (fun t p => readAlong t (plainRoute t p)) t

/-- Write what is new at names from the top. -/
def writePath (old new : FileTree) (names : List String) : IO Unit := do
  let place := (← IO.currentDir) / ("/" ++ "/".intercalate names)
  match old.nodeAt names, new.nodeAt names with
  | .error _, .ok (.dir _) => IO.FS.createDirAll place
  | .error _, .ok (.file c) => IO.FS.writeBinFile place c.toBytes
  | .ok (.file before), .ok (.file c) =>
    if before == c then pure () else IO.FS.writeBinFile place c.toBytes
  | _, _ => pure ()

/-- Write what a command has changed. -/
def writeTree (i : Invocation) (env : Environment) (old new : FileTree) : IO Unit :=
  match LibraryRoot.discover i.settings.root env with
  | .error _ => pure ()
  | .ok root =>
    (namedPaths root i.command).forM fun p =>
      (prefixes (plainRoute old p)).forM (writePath old new)

/-- Say what a command says, and give the number that the program ends with. -/
def report : Outcome → IO UInt32
  | .usage => do
    IO.eprintln "error: the arguments are not those of a command"
    pure 2
  | .finished output written => do
    IO.print output
    IO.eprint (notices written)
    pure 0
  | .failed f => do
    IO.eprint f.text
    pure 1

/-- Run the words of a command line on the files of the machine. -/
def run (words : List String) : IO UInt32 := do
  match ArgumentParser.standard readParam words with
  | none => report .usage
  | some (.answer text) => report (.finished text [])
  | some (.invoke i) =>
    let env : Environment :=
      ⟨← IO.getEnv "PIXFX_HOME", ← IO.getEnv "XDG_DATA_HOME", ← IO.getEnv "HOME"⟩
    let old ← readTree i env
    let (outcome, new) := CommandLine.run words env .spaced old
    writeTree i env old new
    report outcome

end Program

end PixelEffects

def main (args : List String) : IO UInt32 :=
  PixelEffects.Program.run args
