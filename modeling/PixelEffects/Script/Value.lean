import PixelEffects.Number.Numeral
import PixelEffects.Script.Builtin
import PixelEffects.Script.Fault

/-!
# Script Values

What a script computes with.

Tables and script functions are shared: two variables can hold the same one, and a change through
the first is seen through the second. A value therefore holds only where a table or a function
lives, and the machine holds what is there. Equality of two such values is equality of places.

Where something lives has no number that a script could rely on, but the text of a table or
function shows one. `Addressing` is the assignment of those numbers, so that a statement can
quantify over it.

## Main definitions

* `TableId`, `ClosureId`: Places of tables and of script functions.
* `Resident`, `Addressing`: What has a place, and the numbers of places.
* `Value`: The values.
* `Value.type`, `Value.truthy`, `Value.rawEq`: What every value answers.
* `Value.display`: The text of a value.
* `Value.resident?`: What the text of a value shows the place of.
-/

namespace PixelEffects

namespace Script

/-- Where a table lives. -/
structure TableId where
  index : Nat
deriving Repr, DecidableEq

/-- Where a script function lives. -/
structure ClosureId where
  index : Nat
deriving Repr, DecidableEq

/-- Something that has a place. -/
inductive Resident
  | table (id : TableId)
  | function (id : ClosureId)
deriving Repr, DecidableEq

/-- The number that the text of a table or function shows. -/
abbrev Addressing := Resident → Nat

/-- Numbers some distance apart, those of tables below those of functions. -/
def Addressing.spaced : Addressing
  | .table id => 0x550000000000 + 64 * id.index
  | .function id => 0x560000000000 + 64 * id.index

/-- A script value. -/
inductive Value
  | nil
  | bool (value : Bool)
  | number (value : Float)
  | text (value : String)
  | table (id : TableId)
  | function (id : ClosureId)
  | builtin (function : Builtin)
deriving Repr, Inhabited

namespace Value

/-- The type of a value. -/
def type : Value → TypeName
  | nil => .nil
  | bool _ => .boolean
  | number _ => .number
  | text _ => .string
  | table _ => .table
  | function _ => .function
  | builtin _ => .function

/-- Whether a condition holds: everything but `nil` and `false` does. -/
def truthy : Value → Bool
  | nil => false
  | bool b => b
  | _ => true

/-- Whether a value is `nil`. -/
def isNil : Value → Bool
  | nil => true
  | _ => false

/-- Equality without conversions. Numbers compare as numbers, so that NaN differs from itself. -/
def rawEq : Value → Value → Bool
  | nil, nil => true
  | bool a, bool b => a == b
  | number a, number b => a == b
  | text a, text b => a == b
  | table a, table b => a == b
  | function a, function b => a == b
  | builtin a, builtin b => a == b
  | _, _ => false

/-- The text of the place of something. -/
def placeText (label : String) (address : Nat) : String :=
  label ++ ": 0x" ++ String.ofList (Nat.toDigits 16 address)

/-- The text of a value. -/
def display (address : Addressing) : Value → String
  | nil => "nil"
  | bool b => if b then "true" else "false"
  | number n => Numeral.scriptText n
  | text s => s
  | table id => placeText "table" (address (.table id))
  | function id => placeText "function" (address (.function id))
  | builtin b => "builtin: " ++ b.name

/-- What the text of a value shows the place of. -/
def resident? : Value → Option Resident
  | table id => some (.table id)
  | function id => some (.function id)
  | _ => none

/-- The text of a value that can be joined to another: texts and numbers can. -/
def joinable? : Value → Option String
  | text s => some s
  | number n => some (Numeral.scriptText n)
  | _ => none

end Value

end Script

end PixelEffects
