import PixelEffects.Package.Metadata
import PixelEffects.Text.Case

/-!
# Packages

Where packages live, and how an id finds one.

A library has a root in a file tree. Under it each kind of package has a directory, and each
package a directory there, named by its id. An id is found in any letter case. A directory whose
name is the id in lower case comes first; otherwise, of all directories whose names agree with it
in lower case, the one with the least name is taken, so that the order in which the entries are
listed does not matter.

Only plain names are looked for: an id cannot lead out of the directory of its kind, and a script
cannot lead out of its package.

## Main definitions

* `LibraryRoot`, `LibraryRoot.discover`: The root of a library, and how it is chosen.
* `PackageLibrary`: A root in a file tree.
* `Package`: A package with its scripts in the order in which they are to be loaded.
* `PackageLibrary.findDir`: The directory of a package.
* `PackageLibrary.resolve`, `PackageLibrary.list`: One package, and the ids of all.
-/

namespace PixelEffects

/-- The variables that say where libraries are. -/
structure Environment where
  libraryHome : Option String
  dataHome : Option String
  userHome : Option String

namespace Environment

/-- A variable that is set to something. -/
def given (setting : Option String) : Option String :=
  setting.filter (!·.isEmpty)

/-- The directory for data of programs, where these variables say which one that is. -/
def dataDirectory (env : Environment) : Option Path :=
  match env.dataHome.filter Path.isAbsolute with
  | some p => some p
  | none => (given env.userHome).map fun home => Path.join home ".local/share"

end Environment

/-- The directory that holds the packages of both kinds. -/
structure LibraryRoot where
  path : Path
deriving Repr, DecidableEq

namespace LibraryRoot

/-- The root that was asked for, or else the one that the environment names, or else one among the
    data of programs. Where these are is up to the platform. -/
def discover (explicit : Option Path) (env : Environment)
    (dataDirectory : Environment → Option Path := Environment.dataDirectory) :
    Except Error LibraryRoot :=
  match explicit, Environment.given env.libraryHome with
  | some p, _ => .ok ⟨p⟩
  | none, some p => .ok ⟨p⟩
  | none, none =>
    match dataDirectory env with
    | some p => .ok ⟨Path.join p "pixfx"⟩
    | none => .error (.config .noDataDirectory)

/-- The directory of a kind. -/
def kindDir (root : LibraryRoot) (kind : PackageKind) : Path :=
  Path.join root.path kind.directory

/-- The directory that a package with exactly this id would have. -/
def packageDir (root : LibraryRoot) (kind : PackageKind) (id : String) : Path :=
  Path.join (root.kindDir kind) id

end LibraryRoot

/-- A script of a package. -/
structure ScriptFile where
  file : String
  source : String
deriving Repr, DecidableEq

/-- A package with its scripts in the order in which they are to be loaded. -/
structure Package where
  metadata : Metadata
  kind : PackageKind
  dir : Path
  scripts : List ScriptFile
deriving Repr, DecidableEq

namespace Package

/-- The id of a package. -/
def id (p : Package) : String :=
  p.metadata.id

/-- The name that faults in a script of a package carry. -/
def chunkName (p : Package) (s : ScriptFile) : String :=
  s!"{p.kind.directory}/{p.id}/{s.file}"

/-- The script of an effect. -/
def effectScript : String := "effect.lua"

/-- What the names of scripts end in. -/
def scriptExtension : String := "lua"

/-- Whether two points follow one another. -/
def leadsUp : List Char → Bool
  | '.' :: '.' :: _ => true
  | _ :: cs => leadsUp cs
  | [] => false

/-- Whether a name is that of an entry of a directory, and leads nowhere else. -/
def isPlainName (name : String) : Bool :=
  let cs := name.toList
  !cs.isEmpty && cs != ['.'] && !leadsUp cs && !cs.contains '/' && !cs.contains '\\'

end Package

/-- Names in the order of their characters. -/
def sortedNames (names : List String) : List String :=
  names.mergeSort fun a b => compare a b != .gt

/-- A root in a file tree. -/
structure PackageLibrary where
  tree : FileTree
  root : LibraryRoot

namespace PackageLibrary

/-- Name an error on files by the path that it is about. -/
def orIo {α : Type} (path : Path) : Except OsError α → Except Error α
  | .ok a => .ok a
  | .error e => .error (.io path e)

/-- The names of the directories in a directory with the given entries. -/
def directories (lib : PackageLibrary) (dir : Path) (entries : List (String × Node)) :
    List String :=
  (entries.map (·.1)).filter fun name => lib.tree.isDir (Path.join dir name)

/-- The name of the directory of a package. -/
def findDir (lib : PackageLibrary) (kind : PackageKind) (id : String) : Except Error String :=
  if !Package.isPlainName id then .error (.notFound kind id)
  else
    let lowered := Case.toLower id
    if lib.tree.isDir (lib.root.packageDir kind lowered) then .ok lowered
    else
      let dir := lib.root.kindDir kind
      match lib.tree.entries dir with
      | .error _ => .error (.notFound kind id)
      | .ok entries =>
        let variants := (lib.directories dir entries).filter (Case.toLower · == lowered)
        match sortedNames variants with
        | name :: _ => .ok name
        | [] => .error (.notFound kind id)

/-- The names of the scripts in a directory. -/
def scriptNames (lib : PackageLibrary) (dir : Path) : Except Error (List String) := do
  let entries ← orIo dir (lib.tree.entries dir)
  let scripts := (entries.map (·.1)).filter fun name =>
    lib.tree.isFile (Path.join dir name) &&
      Path.nameExtension? name == some Package.scriptExtension
  pure (sortedNames scripts)

/-- The names of the scripts that a package consists of. -/
def scriptsOf (lib : PackageLibrary) (metadata : Metadata) (kind : PackageKind) (dir : Path) :
    Except Error (List String) :=
  match kind, metadata.files with
  | .effect, _ => .ok [Package.effectScript]
  | .lib, some files => .ok files
  | .lib, none => lib.scriptNames dir

/-- Read a script of a package. -/
def readScript (lib : PackageLibrary) (id : String) (dir : Path) (file : String) :
    Except Error ScriptFile :=
  if !Package.isPlainName file then .error (.malformedPackage id (.notAFileName file))
  else
    match lib.tree.readText (Path.join dir file) with
    | .ok source => .ok ⟨file, source⟩
    | .error .notFound => .error (.missingScript id file)
    | .error e => .error (.io (Path.join dir file) e)

/-- Read what a package says about itself. -/
def readMetadata (lib : PackageLibrary) (kind : PackageKind) (id : String) (dir : Path) :
    Except Error Metadata :=
  match lib.tree.readText (Path.join dir kind.metadataFile) with
  | .ok text => Metadata.parse id text
  | .error e => .error (.malformedPackage id (.unreadable kind.metadataFile e))

/-- The package that an id finds. -/
def resolve (lib : PackageLibrary) (kind : PackageKind) (id : String) : Except Error Package := do
  let name ← lib.findDir kind id
  let dir := lib.root.packageDir kind name
  let id := Case.toLower name
  let metadata ← lib.readMetadata kind id dir
  let files ← lib.scriptsOf metadata kind dir
  let scripts ← files.mapM (lib.readScript id dir)
  pure ⟨metadata, kind, dir, scripts⟩

/-- The ids of all packages of a kind, in order. Without a directory there are none. -/
def list (lib : PackageLibrary) (kind : PackageKind) : Except Error (List String) :=
  let dir := lib.root.kindDir kind
  match lib.tree.entries dir with
  | .error .notFound => .ok []
  | .error e => .error (.io dir e)
  | .ok entries =>
    .ok (sortedNames ((lib.directories dir entries).map Case.toLower)).eraseReps

end PackageLibrary

end PixelEffects
