import PixelEffects.Script.Operator

/-!
# Arguments

How a library function takes its arguments.

A number is accepted where a text is asked for, and a text that reads as a number where a number is.
What does not fit is a fault that names the function, the position and what was passed. A missing
argument is not the same as a `nil`, although most functions treat the two alike.

## Main definitions

* `Argument.number?`, `Argument.text?`, `Argument.table?`: An argument of a type.
* `Argument.value`: Any argument, `nil` when it is missing.
* `Argument.isGiven`: Whether there is an argument that is not `nil`.
-/

namespace PixelEffects

namespace Script

namespace Argument

/-- Refuse what was passed at a position, which is counted from zero. -/
def refuse {α : Type} (b : Builtin) (i : Nat) (wanted : Wanted) (passed : Passed) :
    Except LibraryCause α :=
  .error (.badArgument b.name (i + 1) wanted passed)

/-- The argument at a position, `nil` when it is missing. -/
def value (args : List Value) (i : Nat) : Value :=
  args[i]?.getD .nil

/-- Whether there is an argument that is not `nil` at a position. -/
def isGiven (args : List Value) (i : Nat) : Bool :=
  !(value args i).isNil

/-- A number. -/
def number? (b : Builtin) (args : List Value) (i : Nat) : Except LibraryCause Float :=
  match args[i]? with
  | some (.number x) => .ok x
  | some (.text s) =>
    match readNumber? s with
    | some x => .ok x
    | none => refuse b i .number (.value .string)
  | some v => refuse b i .number (.value v.type)
  | none => refuse b i .number .nothing

/-- A text. -/
def text? (b : Builtin) (args : List Value) (i : Nat) : Except LibraryCause String :=
  match args[i]? with
  | some (.text s) => .ok s
  | some (.number x) => .ok (Numeral.scriptText x)
  | some v => refuse b i .string (.value v.type)
  | none => refuse b i .string .nothing

/-- A table. -/
def table? (b : Builtin) (args : List Value) (i : Nat) : Except LibraryCause TableId :=
  match args[i]? with
  | some (.table id) => .ok id
  | some v => refuse b i .table (.value v.type)
  | none => refuse b i .table .nothing

end Argument

end Script

end PixelEffects
