import PixelEffects.Effect.Sandbox

/-!
# Preloads

Which libs an effect needs, in the order in which they are to be run.

A package names libs to be run before it, and a lib may name further libs. All of them are found
by a walk in depth: what a lib names comes before the lib, and a lib that came before does not
come again. A lib that is met while the walk is still below it needs itself, and then there is no
order.

Where two libs define one global, the later one overwrites it. To let the earlier one win, every
list is walked from its end.

The walk goes no deeper than there are libs, because the libs above it are different ones. So the
depth is bounded by the number of entries in the directory of libs, and the bound is never met.

## Main definitions

* `Preload.visit`: The walk through one list.
* `PackageLibrary.preloads`: The libs of an effect.
-/

namespace PixelEffects

namespace Shadowing

/-- A list of libs in the order in which it is walked. -/
def arrange : Shadowing → List String → List String
  | .lastWins, ids => ids
  | .firstWins, ids => ids.reverse

end Shadowing

namespace Preload

/-- The ids from one that is met again, up to where it is met. -/
def cycle (path : List String) (id : String) : List String :=
  path.dropWhile (· != id) ++ [id]

/-- Take in a lib that is named below a path, after what it names itself. -/
def visitLib (find : String → Except Error Package)
    (below : List String → List Package → List String → Except Error (List Package))
    (path : List String) (order : List Package) (name : String) : Except Error (List Package) :=
  match find name with
  | .error e => .error e
  | .ok lib =>
    if path.contains lib.id then .error (.cyclicPreload (cycle path lib.id))
    else if order.any (·.id == lib.id) then .ok order
    else
      match below (path ++ [lib.id]) order lib.metadata.preload with
      | .error e => .error e
      | .ok order => .ok (order ++ [lib])

/-- Take in a list of libs that is named below a path, going at most so many lists deep. -/
def visit (find : String → Except Error Package) (shadowing : Shadowing) :
    Nat → List String → List Package → List String → Except Error (List Package)
  | 0, path, _, _ => .error (.cyclicPreload path)
  | depth + 1, path, order, names =>
    (shadowing.arrange names).foldlM (visitLib find (visit find shadowing depth) path) order

end Preload

namespace PackageLibrary

/-- How many entries the directory of a kind has. -/
def entryCount (lib : PackageLibrary) (kind : PackageKind) : Nat :=
  match lib.tree.entries (lib.root.kindDir kind) with
  | .ok entries => entries.length
  | .error _ => 0

/-- The libs that an effect needs, each one after those that it needs itself. -/
def preloads (lib : PackageLibrary) (shadowing : Shadowing) (effect : Package) :
    Except Error (List Package) :=
  Preload.visit (lib.resolve .lib) shadowing (lib.entryCount .lib + 1) [] []
    effect.metadata.preload

end PackageLibrary

end PixelEffects
