import PixelEffects.FileTree.Path
import PixelEffects.Image

/-!
# File Trees

Directories and files, and what can be done with them.

A node is a file or a directory, and a directory lists its entries in some order. Nothing should
depend on that order. A tree is a node at the top together with the place that relative paths
start from. A file holds a text, a picture, or bytes that are neither, because that is all that is
ever asked about it.

Looking up a path goes through its parts one by one, and it matters where it fails: a missing name
and a file in the place of a directory are different failures. Making a directory with all those
above it first tries the directory itself, and only if something above it is missing does it go
there. So a file that is in the way is reported as what it is in the way of.

## Main definitions

* `OsError`: Why an operation on files failed.
* `Content`, `Node`: Files and directories.
* `FileTree`: A node at the top, and where relative paths start.
* `FileTree.node?`, `FileTree.readText`, `FileTree.entries`: Reading.
* `FileTree.makeDir`, `FileTree.makeDirs`, `FileTree.write`, `FileTree.remove`: Changing.
-/

namespace PixelEffects

/-- Why an operation on files failed. -/
inductive OsError
  | notFound
  | alreadyThere
  | notDirectory
  | isDirectory
  | nameTooLong
  | nulInName
  | notText
deriving Repr, DecidableEq

namespace OsError

/-- The text of a failure. -/
def message : OsError → String
  | notFound => "No such file or directory (os error 2)"
  | alreadyThere => "File exists (os error 17)"
  | notDirectory => "Not a directory (os error 20)"
  | isDirectory => "Is a directory (os error 21)"
  | nameTooLong => "File name too long (os error 36)"
  | nulInName => "file name contained an unexpected NUL byte"
  | notText => "stream did not contain valid UTF-8"

end OsError

/-- What a file holds. -/
inductive Content
  | text (value : String)
  | picture (image : Image)
  | bytes (data : List UInt8)
deriving DecidableEq

/-- A file or a directory. -/
inductive Node
  | file (content : Content)
  | dir (entries : List (String × Node))

namespace Node

/-- A directory without entries. -/
def emptyDir : Node :=
  dir []

/-- Whether a node is a directory. -/
def isDir : Node → Bool
  | dir _ => true
  | file _ => false

/-- The entries of a directory. -/
def entries : Node → List (String × Node)
  | dir es => es
  | file _ => []

/-- The node under a name. -/
def child? (n : Node) (name : String) : Option Node :=
  n.entries.lookup name

/-- Put a node under a name, in the place of what was there. -/
def putEntry (name : String) (node : Node) : List (String × Node) → List (String × Node)
  | [] => [(name, node)]
  | (n, old) :: rest =>
    if n == name then (n, node) :: rest else (n, old) :: putEntry name node rest

/-- Put a node at the end of a path of names, making directories on the way. -/
def put (n : Node) (names : List String) (node : Node) : Node :=
  match names with
  | [] => node
  | name :: rest =>
    dir (putEntry name (put ((n.child? name).getD emptyDir) rest node) n.entries)

/-- Remove the node at the end of a path of names. -/
def erase (n : Node) (names : List String) : Node :=
  match names with
  | [] => n
  | [name] => dir (n.entries.filter (·.1 != name))
  | name :: next :: rest =>
    match n.child? name with
    | some c => dir (putEntry name (erase c (next :: rest)) n.entries)
    | none => n

end Node

/-- A node at the top of all files, and the names that lead to where relative paths start. -/
structure FileTree where
  top : Node
  start : List String

namespace FileTree

/-- The longest name that a file can have, in bytes. -/
def maxName : Nat := 255

/-- Follow names from a node. The nodes on the way are a stack with the last one first, each with
    the name that led to it. -/
def follow : List (String × Node) → List String → Except OsError (List (String × Node))
  | stack, [] => .ok stack
  | [], _ :: _ => .error .notFound
  | (n, node) :: above, name :: rest =>
    match node with
    | .file _ => .error .notDirectory
    | .dir entries =>
      if name == "." then follow ((n, node) :: above) rest
      else if name == ".." then follow (if above.isEmpty then [(n, node)] else above) rest
      else if name.utf8ByteSize > maxName then .error .nameTooLong
      else
        match entries.lookup name with
        | some child => follow ((name, child) :: (n, node) :: above) rest
        | none => .error .notFound

/-- The names that lead from the top to where a path starts, and then along it. -/
def route (t : FileTree) (p : Path) : List String :=
  (if Path.isAbsolute p then [] else t.start) ++ Path.parts p

/-- The longest path that can be looked up, in bytes. -/
def maxPath : Nat := 4095

/-- Whether a path can be written down for a lookup at all. -/
def checkPath (p : Path) : Except OsError Unit :=
  if p.toList.contains '\x00' then .error .nulInName
  else if p.isEmpty then .error .notFound
  else if p.utf8ByteSize > maxPath then .error .nameTooLong
  else .ok ()

/-- The nodes on the way along names from the top, the last one first. -/
def walk (t : FileTree) (names : List String) : Except OsError (List (String × Node)) :=
  follow [("", t.top)] names

/-- The node that names from the top lead to. -/
def nodeAt (t : FileTree) (names : List String) : Except OsError Node := do
  match ← t.walk names with
  | (_, node) :: _ => pure node
  | [] => throw .notFound

/-- The node at a path. -/
def node? (t : FileTree) (p : Path) : Except OsError Node := do
  checkPath p
  t.nodeAt (t.route p)

/-- Whether there is a directory at a path. -/
def isDir (t : FileTree) (p : Path) : Bool :=
  match t.node? p with
  | .ok node => node.isDir
  | .error _ => false

/-- Whether there is a file at a path. -/
def isFile (t : FileTree) (p : Path) : Bool :=
  match t.node? p with
  | .ok node => !node.isDir
  | .error _ => false

/-- The entries of the directory at a path. -/
def entries (t : FileTree) (p : Path) : Except OsError (List (String × Node)) := do
  match ← t.node? p with
  | .dir entries => pure entries
  | .file _ => throw .notDirectory

/-- What the file at a path holds. -/
def read (t : FileTree) (p : Path) : Except OsError Content := do
  match ← t.node? p with
  | .file content => pure content
  | .dir _ => throw .isDirectory

/-- The text that the file at a path holds. -/
def readText (t : FileTree) (p : Path) : Except OsError String := do
  match ← t.read p with
  | .text s => pure s
  | _ => throw .notText

/-- The names that lead from the top to the last node of a stack. -/
def namesOf (stack : List (String × Node)) : List String :=
  (stack.map (·.1)).reverse.drop 1

/-- Make a directory at the end of names from the top. What it is made in has to be there. -/
def makeDirAt (t : FileTree) (names : List String) : Except OsError FileTree := do
  let stack ← t.walk names.dropLast
  match stack, names.getLast? with
  | (_, .dir entries) :: _, some name =>
    if name == "." || name == ".." || (entries.lookup name).isSome then throw .alreadyThere
    else if name.utf8ByteSize > maxName then throw .nameTooLong
    else pure { t with top := t.top.put (namesOf stack ++ [name]) .emptyDir }
  | (_, .file _) :: _, some _ => throw .notDirectory
  | _, _ => throw .alreadyThere

/-- The names along a path to a directory that is to be made: a slash at the end does not count. -/
def dirRoute (t : FileTree) (p : Path) : List String :=
  let names := t.route p
  if Path.endsOpen p && names.getLast? == some "." then names.dropLast else names

/-- Make a directory at a path. -/
def makeDir (t : FileTree) (p : Path) : Except OsError FileTree := do
  checkPath p
  t.makeDirAt (t.dirRoute p)

/-- Whether names from the top lead to a directory. -/
def isDirAt (t : FileTree) (names : List String) : Bool :=
  match t.nodeAt names with
  | .ok node => node.isDir
  | .error _ => false

/-- Make a directory, and those above it when they are missing. The names are given with the last
    one first. -/
def makeDirsAt (t : FileTree) : List String → Except OsError FileTree
  | [] => .ok t
  | name :: above =>
    let names := (name :: above).reverse
    match t.makeDirAt names with
    | .ok t => .ok t
    | .error .notFound => do
      let t ← t.makeDirsAt above
      if t.isDirAt names then pure t else t.makeDirAt names
    | .error e => if t.isDirAt names then .ok t else .error e

/-- Make a directory at a path, and those above it when they are missing. -/
def makeDirs (t : FileTree) (p : Path) : Except OsError FileTree :=
  if p.isEmpty then .ok t
  else do
    checkPath p
    t.makeDirsAt (t.dirRoute p).reverse

/-- Write a file at a path, in the place of what it held. The directory has to be there. -/
def write (t : FileTree) (p : Path) (content : Content) : Except OsError FileTree := do
  checkPath p
  let names := t.dirRoute p
  let stack ← t.walk names.dropLast
  match stack, names.getLast? with
  | (_, .dir entries) :: _, some name =>
    if name == "." || name == ".." || Path.endsOpen p then throw .isDirectory
    else if name.utf8ByteSize > maxName then throw .nameTooLong
    else
      match entries.lookup name with
      | some (.dir _) => throw .isDirectory
      | _ => pure { t with top := t.top.put (namesOf stack ++ [name]) (.file content) }
  | (_, .file _) :: _, some _ => throw .notDirectory
  | _, _ => throw .isDirectory

/-- Remove what is at a path. -/
def remove (t : FileTree) (p : Path) : Except OsError FileTree := do
  checkPath p
  pure { t with top := t.top.erase (namesOf (← t.walk (t.route p))) }

end FileTree

end PixelEffects
