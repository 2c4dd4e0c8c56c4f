/-!
# Kinds of Packages

A package is an effect or a lib. The two kinds live in directories of their own, so that an effect
and a lib may have one id, and they name their metadata files differently.

## Main definitions

* `PackageKind`: The kinds.
* `PackageKind.label`, `PackageKind.directory`, `PackageKind.metadataFile`: Their names.
-/

namespace PixelEffects

/-- The kinds of packages. -/
inductive PackageKind
  | effect
  | lib
deriving Repr, DecidableEq

namespace PackageKind

/-- What messages call a kind. -/
def label : PackageKind → String
  | effect => "effect"
  | lib => "lib"

/-- The directory of a kind under the root of a library. -/
def directory : PackageKind → String
  | effect => "effects"
  | lib => "libs"

/-- The file in a package that describes it. -/
def metadataFile : PackageKind → String
  | effect => "effect.yml"
  | lib => "lib.yml"

end PackageKind

end PixelEffects
