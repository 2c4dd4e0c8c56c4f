/-!
# Library Functions

The functions that a script finds already defined.

Each is a value of its own and not a script, so a script can pass one around and compare it with
another. Three groups live in tables named `math`, `string` and `table`; the others are globals. One
of them, the step of `ipairs`, has no name that a script could find it under. It is only ever handed
out.

## Main definitions

* `Builtin`: The functions.
* `Builtin.name`: The full name, with the table in front.
* `Builtin.globals`, `Builtin.math`, `Builtin.string`, `Builtin.table`: Where they are found.
-/

namespace PixelEffects

namespace Script

/-- A library function. -/
inductive Builtin
  | assert | error | ipairs | ipairsStep | next | pairs | select | toNumber | toText | type
  | abs | ceil | cos | exp | floor | fmod | log | max | min | sin | sqrt | tan
  | format | len | lower | rep | sub | upper
  | concat | insert | unpack
deriving Repr, DecidableEq

namespace Builtin

/-- The full name of a function. -/
def name : Builtin → String
  | assert => "assert"
  | error => "error"
  | ipairs => "ipairs"
  | ipairsStep => "ipairs_iter"
  | next => "next"
  | pairs => "pairs"
  | select => "select"
  | toNumber => "tonumber"
  | toText => "tostring"
  | type => "type"
  | abs => "math.abs"
  | ceil => "math.ceil"
  | cos => "math.cos"
  | exp => "math.exp"
  | floor => "math.floor"
  | fmod => "math.fmod"
  | log => "math.log"
  | max => "math.max"
  | min => "math.min"
  | sin => "math.sin"
  | sqrt => "math.sqrt"
  | tan => "math.tan"
  | format => "string.format"
  | len => "string.len"
  | lower => "string.lower"
  | rep => "string.rep"
  | sub => "string.sub"
  | upper => "string.upper"
  | concat => "table.concat"
  | insert => "table.insert"
  | unpack => "table.unpack"

/-- The functions that are globals, with their names there. -/
def globals : List (String × Builtin) :=
  [("assert", assert), ("error", error), ("ipairs", ipairs), ("next", next), ("pairs", pairs),
   ("select", select), ("tonumber", toNumber), ("tostring", toText), ("type", type),
   ("unpack", unpack)]

/-- The functions of the table `math`. -/
def math : List (String × Builtin) :=
  [("abs", abs), ("ceil", ceil), ("cos", cos), ("exp", exp), ("floor", floor), ("fmod", fmod),
   ("log", log), ("max", max), ("min", min), ("sin", sin), ("sqrt", sqrt), ("tan", tan)]

/-- The functions of the table `string`. -/
def string : List (String × Builtin) :=
  [("format", format), ("len", len), ("lower", lower), ("rep", rep), ("sub", sub),
   ("upper", upper)]

/-- The functions of the table `table`. -/
def table : List (String × Builtin) :=
  [("concat", concat), ("insert", insert), ("unpack", unpack)]

end Builtin

end Script

end PixelEffects
