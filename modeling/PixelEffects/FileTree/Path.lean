import PixelEffects.Text.Blank

/-!
# Paths

Paths are texts, and they are joined as texts.

A path that starts with a slash is absolute: joining it to another one replaces that one.
Otherwise a slash is put between the two, unless there is one already or nothing in front of it.
Joining does not look at files and does not simplify anything, so a path is shown to the user the
way it was put together.

What a path means is the list of its parts, the names between the slashes. A slash at the end is a
part of its own, because only a directory can be named that way. The path in front of the last name
is cut out of the text too: it loses slashes and points at its end that lead nowhere, and is
otherwise left as it is.

## Main definitions

* `Path.join`: Two paths, one after the other.
* `Path.parts`: The names that a path leads through.
* `Path.parent?`, `Path.extension?`: The path in front of the last name, and the end of that name.
-/

namespace PixelEffects

/-- A path as it is written. -/
abbrev Path := String

namespace Path

/-- Whether a path starts at the top of all files. -/
def isAbsolute (p : Path) : Bool :=
  p.toList.head? == some '/'

/-- Whether a path ends with a slash. -/
def endsOpen (p : Path) : Bool :=
  p.toList.getLast? == some '/'

/-- One path after another. -/
def join (p q : Path) : Path :=
  if isAbsolute q then q
  else if p.isEmpty || endsOpen p then p ++ q
  else p ++ "/" ++ q

/-- The names that a path leads through. -/
def parts (p : Path) : List String :=
  let names := ((Text.splitAll '/' p.toList).filter (!·.isEmpty)).map String.ofList
  if endsOpen p && !names.isEmpty then names ++ ["."] else names

/-- The names that a path leads through, without those that only say to stay. -/
def names (p : Path) : List String :=
  (parts p).filter (· != ".")

/-- What a path starts with that is not a name: the slash of an absolute path, or a point by itself
    that leads on from where relative paths start. -/
def splitStart (p : Path) : String × List Char :=
  match p.toList with
  | '/' :: cs => ("/", cs)
  | ['.'] => (".", [])
  | '.' :: '/' :: cs => (".", '/' :: cs)
  | cs => ("", cs)

/-- Whether what stands between two slashes leads nowhere. -/
def leadsNowhere (part : List Char) : Bool :=
  part.isEmpty || part == ['.']

/-- The path in front of the last name, as it is written there. The top and the empty path have
    none. -/
def parent? (p : Path) : Option Path :=
  let (start, body) := splitStart p
  match (Text.splitAll '/' body).reverse.dropWhile leadsNowhere with
  | [] => if start == "." then some "" else none
  | _ :: above =>
    let kept := (above.dropWhile leadsNowhere).reverse.map String.ofList
    some (start ++ "/".intercalate kept)

/-- The last name of a path, unless it leads upward. -/
def fileName? (p : Path) : Option String :=
  match (names p).getLast? with
  | some ".." => none
  | name => name

/-- What follows the last point of a name. A point in front does not count. -/
def nameExtension? (name : String) : Option String :=
  match Text.splitOnce '.' name.toList.reverse with
  | some (reversed, _ :: _) => some (String.ofList reversed.reverse)
  | _ => none

/-- What follows the last point of the last name. -/
def extension? (p : Path) : Option String :=
  (fileName? p).bind nameExtension?

end Path

end PixelEffects
