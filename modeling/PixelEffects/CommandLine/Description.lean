import PixelEffects.Package

/-!
# Descriptions of Packages

How packages are shown to the user: a list entry, a page of text, or a record for other programs.

The record is an object with one member to a line, indented by two spaces, in the order of their
names. A lib is shown with the scripts that it consists of, whether it lists them itself or not; an
effect with the list that it gives, if it gives one.

## Main definitions

* `Member`, `Member.object`: Records.
* `Package.entry`, `Package.page`, `Package.record`: The ways to show a package.
-/

namespace PixelEffects

/-- What a member of a record is. -/
inductive Member
  | null
  | text (value : String)
  | texts (values : List String)
deriving Repr, DecidableEq

namespace Member

/-- The digit of a number below sixteen. -/
def hexDigit (n : Nat) : Char :=
  if n < 10 then Char.ofNat ('0'.toNat + n) else Char.ofNat ('a'.toNat + (n - 10))

/-- A character inside of quotes. -/
def escape (c : Char) : List Char :=
  match c with
  | '"' => ['\\', '"']
  | '\\' => ['\\', '\\']
  | '\n' => ['\\', 'n']
  | '\r' => ['\\', 'r']
  | '\t' => ['\\', 't']
  | '\x08' => ['\\', 'b']
  | '\x0c' => ['\\', 'f']
  | c =>
    if c.toNat < 32 then ['\\', 'u', '0', '0', hexDigit (c.toNat / 16), hexDigit (c.toNat % 16)]
    else [c]

/-- A text in quotes. -/
def quote (s : String) : String :=
  String.ofList (['"'] ++ s.toList.flatMap escape ++ ['"'])

/-- A member as it is written in a record. -/
def render : Member → String
  | null => "null"
  | text s => quote s
  | texts [] => "[]"
  | texts (s :: ss) =>
    "[\n    " ++ ",\n    ".intercalate ((s :: ss).map quote) ++ "\n  ]"

/-- A record with members. -/
def object (members : List (String × Member)) : String :=
  let lines := members.map fun m => "  " ++ quote m.1 ++ ": " ++ m.2.render
  "\x7b\n" ++ ",\n".intercalate lines ++ "\n\x7d"

end Member

namespace Package

/-- The names of the scripts of a package. -/
def scriptFiles (p : Package) : List String :=
  p.scripts.map (·.file)

/-- A package in a list. -/
def entry (p : Package) : String :=
  let m := p.metadata
  s!"{m.name} v{m.version} ({m.id})\n\tby {m.author}\n\t{m.description}\n"

/-- The files of a package as a member of its record. -/
def filesMember (p : Package) : Member :=
  match p.kind, p.metadata.files with
  | .lib, _ => .texts p.scriptFiles
  | .effect, some files => .texts files
  | .effect, none => .null

/-- A package for other programs. -/
def record (p : Package) : String :=
  let m := p.metadata
  Member.object
    [("author", .text m.author), ("description", .text m.description), ("files", p.filesMember),
     ("id", .text m.id), ("name", .text m.name), ("preload", .texts m.preload),
     ("version", .text m.version)] ++ "\n"

/-- The line on what a package preloads, if it preloads something. -/
def preloadLine (p : Package) : String :=
  match p.metadata.preload with
  | [] => ""
  | ids => "Preload:        [" ++ ", ".intercalate ids ++ "]\n"

/-- The lines on the scripts of a lib. -/
def filesLines (p : Package) : String :=
  match p.kind with
  | .effect => ""
  | .lib => "Files:\n    [" ++ "; ".intercalate p.scriptFiles ++ "]\n"

/-- A package on a page, under the id by which it was asked for. -/
def page (p : Package) (id : String) : String :=
  let m := p.metadata
  s!"======== About {id} ========\n" ++
    s!"Name:           {m.name}\n" ++
    s!"Version:        {m.version}\n" ++
    s!"Author:         {m.author}\n" ++
    s!"Description:    {m.description}\n" ++
    p.preloadLine ++ p.filesLines

end Package

end PixelEffects
