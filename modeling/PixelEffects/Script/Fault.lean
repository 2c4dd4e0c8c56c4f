import PixelEffects.Script.Token

/-!
# Faults

What can go wrong with a script, and where.

A fault is a cause at a position. Causes are values and not texts, so that a statement about faults
can name the one it means: the step budget ran out, a key of a traversal is gone, a position of an
insertion is out of bounds. The text of each cause is written in one place. A script can also raise
a text of its own, which is a cause like any other and never equal to one of the built-in ones, even
when the words are the same.

A fault without a chunk has no position. It is raised when no script is running.

## Main definitions

* `TypeName`: The types of script values.
* `SyntaxCause`, `KeyCause`, `LibraryCause`, `Cause`: Why a script stopped.
* `Fault`: A cause and its position.
* `Fault.display`: The text that names the position too.
-/

namespace PixelEffects

namespace Script

/-- The types of script values. -/
inductive TypeName
  | nil | boolean | number | string | table | function
deriving Repr, DecidableEq

namespace TypeName

/-- What a script calls a type. -/
def text : TypeName → String
  | nil => "nil"
  | boolean => "boolean"
  | number => "number"
  | string => "string"
  | table => "table"
  | function => "function"

end TypeName

/-- Why a source is not a script. -/
inductive SyntaxCause
  | unfinishedComment
  | unfinishedLongText
  | unfinishedText
  | unexpectedCharacter (c : Char)
  | malformedNumber (text : String)
  | malformedExponent
  | invalidEscape (c : Char)
  | expected (wanted : Mark) (found : Token)
  | endExpected (found : Token)
  | nameExpected (found : Token)
  | argumentsExpected (found : Token)
  | unexpectedSymbol (found : Token)
  | notAStatement (found : Token)
  | notAssignable
  | tooManyLevels
deriving Repr

namespace SyntaxCause

/-- The text of a cause. -/
def message : SyntaxCause → String
  | unfinishedComment => "unfinished long comment"
  | unfinishedLongText => "unfinished long string"
  | unfinishedText => "unfinished string"
  | unexpectedCharacter c => s!"unexpected character '{c}'"
  | malformedNumber text => s!"malformed number near '{text}'"
  | malformedExponent => "malformed number exponent (expected digits)"
  | invalidEscape c => s!"invalid escape sequence '\\{c}'"
  | expected wanted found => s!"'{wanted.spelling}' expected near {found.describe}"
  | endExpected found => s!"'<eof>' expected near {found.describe}"
  | nameExpected found => s!"<name> expected near {found.describe}"
  | argumentsExpected found => s!"function arguments expected near {found.describe}"
  | unexpectedSymbol found => s!"unexpected symbol near {found.describe}"
  | notAStatement found => s!"syntax error near {found.describe}"
  | notAssignable => "syntax error: cannot assign to this expression"
  | tooManyLevels => "chunk has too many syntax levels"

end SyntaxCause

/-- A cause at a line of the source. -/
structure SyntaxError where
  line : Nat
  cause : SyntaxCause
deriving Repr

/-- Why a value cannot be a key of a table. -/
inductive KeyCause
  | isNil
  | isNaN
  | unsupported (type : TypeName)
deriving Repr, DecidableEq

namespace KeyCause

/-- The text of a cause. -/
def message : KeyCause → String
  | isNil => "table index is nil"
  | isNaN => "table index is NaN"
  | unsupported type => s!"unsupported table key type '{type.text}'"

end KeyCause

/-- What was passed in the place of an argument. -/
inductive Passed
  | value (type : TypeName)
  | nothing
  | outOfRange
  | outOfBounds
deriving Repr, DecidableEq

namespace Passed

/-- The text of what was passed. -/
def text : Passed → String
  | value type => type.text
  | nothing => "no value"
  | outOfRange => "out of range"
  | outOfBounds => "out of bounds"

end Passed

/-- What an argument has to be. -/
inductive Wanted
  | number | string | table | positiveIndex | position
deriving Repr, DecidableEq

namespace Wanted

/-- The text of what was wanted. -/
def text : Wanted → String
  | number => "number"
  | string => "string"
  | table => "table"
  | positiveIndex => "positive index"
  | position => "position"

end Wanted

/-- Why a library function refused its arguments. -/
inductive LibraryCause
  | badArgument (function : String) (position : Nat) (wanted : Wanted) (passed : Passed)
  | raised (text : String)
  | assertionFailed
  | lostKey
  | key (cause : KeyCause)
  | resultTooLarge
  | textTooLong
  | insertArguments
  | notJoinable (index : Nat) (type : TypeName)
  | precisionTooLong
  | conversion (c : Option Char)
deriving Repr

namespace LibraryCause

/-- The text of a cause. -/
def message : LibraryCause → String
  | badArgument function position wanted passed =>
    s!"bad argument #{position} to '{function}' ({wanted.text} expected, got {passed.text})"
  | raised text => text
  | assertionFailed => "assertion failed!"
  | lostKey => "invalid key to 'next'"
  | key cause => cause.message
  | resultTooLarge => "resulting string too large"
  | textTooLong => "string length overflow"
  | insertArguments => "wrong number of arguments to 'insert'"
  | notJoinable index type =>
    s!"invalid value (at index {index}) in table for 'concat' ({type.text})"
  | precisionTooLong => "invalid conversion (precision too long) to 'format'"
  | conversion (some c) => s!"invalid conversion '%{c}' to 'format'"
  | conversion none => "invalid conversion '%' to 'format'"

end LibraryCause

/-- How the source names the value that a fault is about. -/
inductive Site
  | global (name : String)
  | field (name : String)
  | method (name : String)
  | none
deriving Repr, DecidableEq

namespace Site

/-- The part of a text that names the site. -/
def suffix : Site → String
  | global name => s!" (global '{name}')"
  | field name => s!" (field '{name}')"
  | method name => s!" (method '{name}')"
  | none => ""

end Site

/-- The parts of a numeric loop. -/
inductive LoopPart
  | initial | limit | step
deriving Repr, DecidableEq

namespace LoopPart

/-- What a fault calls a part. -/
def text : LoopPart → String
  | initial => "initial"
  | limit => "limit"
  | step => "step"

end LoopPart

/-- Why a script stopped. -/
inductive Cause
  | syntaxError (cause : SyntaxCause)
  | stepBudget (limit : Nat)
  | callDepth (limit : Nat)
  | nesting (limit : Nat)
  | outOfFuel
  | breakOutside
  | notCallable (type : TypeName) (site : Site)
  | notIndexable (type : TypeName) (site : Site)
  | notAssignable
  | arithmetic (type : TypeName)
  | arithmeticText (text : String)
  | noLength (type : TypeName)
  | concatenation (type : TypeName)
  | comparison (left right : TypeName)
  | textTooLong
  | loopNumber (part : LoopPart) (type : TypeName)
  | loopStepZero
  | namelessFunction
  | key (cause : KeyCause)
  | library (cause : LibraryCause)
deriving Repr

namespace Cause

/-- The text of a cause. -/
def message : Cause → String
  | syntaxError cause => cause.message
  | stepBudget limit => s!"step budget of {limit} exhausted (infinite loop?)"
  | callDepth limit => s!"stack overflow (call depth exceeds {limit})"
  | nesting limit => s!"stack overflow (nesting exceeds {limit})"
  | outOfFuel => "evaluation ran out of fuel"
  | breakOutside => "break outside a loop"
  | notCallable type site => s!"attempt to call a {type.text} value{site.suffix}"
  | notIndexable type site => s!"attempt to index a {type.text} value{site.suffix}"
  | notAssignable => "cannot assign to this expression"
  | arithmetic type => s!"attempt to perform arithmetic on a {type.text} value"
  | arithmeticText text => s!"attempt to perform arithmetic on a string value (\"{text}\")"
  | noLength type => s!"attempt to get length of a {type.text} value"
  | concatenation type => s!"attempt to concatenate a {type.text} value"
  | comparison left right => s!"attempt to compare {left.text} with {right.text}"
  | textTooLong => "string length overflow"
  | loopNumber part type => s!"'for' {part.text} value must be a number (got {type.text})"
  | loopStepZero => "'for' step is zero"
  | namelessFunction => "empty function name"
  | key cause => cause.message
  | library cause => cause.message

end Cause

/-- A cause, with the chunk and the line of the statement that it stopped. -/
structure Fault where
  chunk : String
  line : Nat
  cause : Cause
deriving Repr

namespace Fault

/-- A fault that no position of a script belongs to. -/
def unplaced (cause : Cause) : Fault :=
  ⟨"", 0, cause⟩

/-- The text of the cause alone. -/
def text (f : Fault) : String :=
  f.cause.message

/-- The text with the position in front, when there is one. -/
def display (f : Fault) : String :=
  if f.chunk.isEmpty then f.text else s!"{f.chunk}:{f.line}: {f.text}"

end Fault

end Script

end PixelEffects
