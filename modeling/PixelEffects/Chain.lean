import PixelEffects.Error
import Std.Data.TreeMap

/-!
# Chains

A chain is a list of effects to apply one after the other.

It is written with one stage to a line: the id of an effect, then its parameters as words. A word
with an equals sign that is not its first character is a key and a value; any other word is a key
with an empty value. When a key is given twice, the later one counts. Blank lines and lines that
start with `#` are no stages.

A chain has at least one stage, which is part of its type.

## Main definitions

* `Params`: Parameters by key.
* `Stage`: One effect with its parameters, and where it was written.
* `Chain`: The stages.
* `Chain.parse`: The chain that a text writes.
-/

namespace PixelEffects

/-- Parameters of an effect, by key. -/
abbrev Params := Std.TreeMap String String

/-- One effect with its parameters, the line as it was written, and the number of that line. -/
structure Stage where
  effectId : String
  params : Params
  rawText : String
  line : Nat

/-- Stages to be run in order. -/
structure Chain where
  stages : List Stage
  nonempty : stages ≠ []

namespace Stage

/-- Characters that an id in a chain may have. -/
def isIdCharacter (c : Char) : Bool :=
  c.isAlphanum || c == '_' || c == '.' || c == '-'

/-- The key and the value that a word writes. -/
def param (word : List Char) : String × String :=
  match Text.splitOnce '=' word with
  | some (c :: key, value) => (String.ofList (c :: key), String.ofList value)
  | _ => (String.ofList word, "")

/-- Parameters from words; the last word with a key counts. -/
def paramsOf (words : List (List Char)) : Params :=
  words.foldl (fun ps word => ps.insert (param word).1 (param word).2) ∅

/-- The stage that a line writes, if it writes one. -/
def parse? (number : Nat) (raw : List Char) : Except Error (Option Stage) :=
  let line := Text.trim raw
  if line.head? == some '#' then .ok none
  else
    match Text.words line with
    | [] => .ok none
    | id :: words =>
      match id.find? fun c => !isIdCharacter c with
      | some c => .error (.chainSyntax number (.invalidCharacter c (String.ofList id)))
      | none => .ok (some ⟨String.ofList id, paramsOf words, String.ofList line, number⟩)

/-- The stages that lines write, of which the first has a number. -/
def parseAll (number : Nat) : List (List Char) → Except Error (List Stage)
  | [] => .ok []
  | raw :: rest =>
    match parse? number raw with
    | .error e => .error e
    | .ok found =>
      match parseAll (number + 1) rest with
      | .error e => .error e
      | .ok stages => .ok (found.toList ++ stages)

end Stage

namespace Chain

/-- The chain that a text writes. -/
def parse (text : String) : Except Error Chain :=
  let lines := Text.lines text.toList
  match Stage.parseAll 1 lines with
  | .error e => .error e
  | .ok [] => .error (.chainSyntax (max 1 lines.length) .withoutStages)
  | .ok (s :: stages) => .ok ⟨s :: stages, by simp⟩

end Chain

end PixelEffects
