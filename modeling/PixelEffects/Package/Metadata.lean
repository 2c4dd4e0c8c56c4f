import PixelEffects.Error

/-!
# Package Metadata

What a package says about itself.

Metadata is a text of lines, each with a key, a colon and a value. Blank lines and lines that
start with `#` say nothing. Two keys hold lists, and a list may be written in several ways: on one
line with commas, with brackets around it or not, on several lines with the same key, or as lines
that start with a dash after a line with the key alone. The ways can be mixed, and the items add
up. Every other key holds one text, and the last line with it counts. Keys that mean nothing are
passed over.

A line is read without looking at the others, except that an item needs to know which list is
open. So reading is a fold, and what was read from the front of a text does not change with what
follows.

## Main definitions

* `Metadata`: What a package says about itself.
* `MetadataLine`, `MetadataLine.read?`: One line.
* `Draft`, `Draft.add?`: What was read so far.
* `Metadata.parse`: The metadata of a text.
-/

namespace PixelEffects

/-- What a package says about itself. Without a `files` list, a lib consists of all its scripts. -/
structure Metadata where
  id : String
  name : String
  version : String
  author : String
  description : String
  preload : List String
  files : Option (List String)
deriving Repr, DecidableEq

/-- The keys that hold lists. -/
inductive ListKey
  | preload
  | files
deriving Repr, DecidableEq

/-- The keys of metadata. -/
inductive MetadataKey
  | name
  | version
  | author
  | description
  | list (key : ListKey)
  | unknown
deriving Repr, DecidableEq

namespace MetadataKey

/-- The key that a text names, in any letter case. -/
def ofText (text : List Char) : MetadataKey :=
  match String.ofList (text.map Char.toLower) with
  | "name" => name
  | "version" => version
  | "author" => author
  | "desc" | "description" => description
  | "preload" => list .preload
  | "files" => list .files
  | _ => unknown

end MetadataKey

namespace Metadata

/-- A text without one character at either end, if it is there at both. -/
def between? (first last : Char) (text : List Char) : Option (List Char) :=
  match text with
  | c :: rest =>
    match rest.reverse with
    | d :: inner => if c == first && d == last then some inner.reverse else none
    | [] => none
  | [] => none

/-- A text without the quotes around it. -/
def unquote (text : List Char) : List Char :=
  match between? '"' '"' text with
  | some inner => inner
  | none => (between? '\'' '\'' text).getD text

/-- The items of a list on one line. Empty ones do not count. -/
def items (value : List Char) : List String :=
  let value := Text.trim value
  let parts := Text.splitAll ',' ((between? '[' ']' value).getD value)
  ((parts.map fun part => unquote (Text.trim part)).filter (!·.isEmpty)).map String.ofList

end Metadata

/-- One line of metadata. -/
inductive MetadataLine
  | nothing
  | item (text : List Char)
  | entry (key : MetadataKey) (value : List Char)
  | other (text : List Char)
deriving Repr, DecidableEq

namespace MetadataLine

/-- What a line says. -/
def read (raw : List Char) : MetadataLine :=
  match Text.trim raw with
  | [] => nothing
  | '#' :: _ => nothing
  | '-' :: rest => item rest
  | line =>
    match Text.splitOnce ':' line with
    | some (key, value) => entry (MetadataKey.ofText (Text.trim key)) (Text.trim value)
    | none => other line

end MetadataLine

/-- What was read so far, with the list that is open. -/
structure Draft where
  name : Option String
  version : Option String
  author : String
  description : String
  preload : List String
  files : Option (List String)
  openList : Option ListKey
deriving Repr, DecidableEq

namespace Draft

/-- Before the first line. -/
def empty : Draft :=
  ⟨none, none, "", "", [], none, none⟩

/-- Add items to a list. -/
def extend (d : Draft) (key : ListKey) (items : List String) : Draft :=
  match key with
  | .preload => { d with preload := d.preload ++ items }
  | .files => { d with files := some (d.files.getD [] ++ items) }

/-- Take in an entry. -/
def addEntry (d : Draft) (key : MetadataKey) (value : List Char) : Draft :=
  let d := { d with openList := none }
  let text := String.ofList (Metadata.unquote value)
  match key with
  | .name => { d with name := some text }
  | .version => { d with version := some text }
  | .author => { d with author := text }
  | .description => { d with description := text }
  | .list key =>
    if value.isEmpty then { d.extend key [] with openList := some key }
    else d.extend key (Metadata.items value)
  | .unknown => d

/-- Take in a line, which is counted from one. -/
def add? (d : Draft) (number : Nat) (raw : List Char) : Except PackageCause Draft :=
  match MetadataLine.read raw with
  | .nothing => .ok d
  | .item text =>
    match d.openList with
    | some key => .ok (d.extend key (Metadata.items text))
    | none => .error (.itemOutsideList number)
  | .entry key value => .ok (d.addEntry key value)
  | .other text => .error (.notAnEntry number (String.ofList text))

/-- Take in lines, of which the first has a number. -/
def addAll? (d : Draft) (number : Nat) : List (List Char) → Except PackageCause Draft
  | [] => .ok d
  | raw :: rest =>
    match d.add? number raw with
    | .ok d => d.addAll? (number + 1) rest
    | .error cause => .error cause

/-- A text, or another one in the place of an empty or missing one. -/
def orElse (text : Option String) (other : String) : String :=
  match text with
  | some s => if s.isEmpty then other else s
  | none => other

/-- The metadata of a package. A package without a name is called by its id. -/
def finish (d : Draft) (id : String) : Metadata where
  id := id
  name := orElse d.name id
  version := orElse d.version "0.0.0"
  author := d.author
  description := d.description
  preload := d.preload
  files := d.files

end Draft

/-- The metadata that a text gives for a package. -/
def Metadata.parse (id text : String) : Except Error Metadata :=
  match Draft.empty.addAll? 1 (Text.lines text.toList) with
  | .ok d => .ok (d.finish id)
  | .error cause => .error (.malformedPackage id cause)

end PixelEffects
