import PixelEffects.Text.Case.Table

/-!
# Upper and Lower Case

The full case mappings of Unicode: a character may become several, and the lower case of a capital
sigma depends on what stands around it. At the end of a word it is the final form, where a word ends
if there is a cased letter before and none after, looking past characters such as accents and
apostrophes.

Package ids are compared in lower case, so the mapping decides which directory an id names.

## Main definitions

* `Case.upperOf`, `Case.lowerOf`: The mapping of one character, apart from the sigma rule.
* `Case.toUpper`, `Case.toLower`: The mapping of a text.
-/

namespace PixelEffects

namespace Case

/-- The mapping of a code point under a table of runs. -/
def mapRun (runs : Array (Nat × Nat × Nat × Int)) (n : Nat) : Option Nat :=
  let i := Ranges.locate (fun j => (runs.getD j (0, 0, 1, 0)).1) n 16 0 runs.size
  match runs.getD i (0, 0, 1, 0) with
  | (first, last, step, offset) =>
    if first ≤ n && n ≤ last && (n - first) % step == 0 then some (n + offset).toNat else none

/-- The mapping of a code point to several. -/
def mapExpansion (table : Array (Nat × List Nat)) (n : Nat) : Option (List Nat) :=
  let i := Ranges.locate (fun j => (table.getD j (0, [])).1) n 16 0 table.size
  match table.getD i (0, []) with
  | (code, expansion) => if code == n then some expansion else none

/-- The mapping of one character: a run, an expansion, or itself. -/
def mapChar (runs : Array (Nat × Nat × Nat × Int)) (expansions : Array (Nat × List Nat))
    (c : Char) : List Char :=
  match mapRun runs c.toNat with
  | some n => [Char.ofNat n]
  | none =>
    match mapExpansion expansions c.toNat with
    | some ns => ns.map Char.ofNat
    | none => [c]

/-- The upper case of a character. -/
def upperOf (c : Char) : List Char :=
  if c.toNat < 0x80 then [c.toUpper] else mapChar upperRuns upperExpansions c

/-- The lower case of a character, away from the end of a word. -/
def lowerOf (c : Char) : List Char :=
  if c.toNat < 0x80 then [c.toLower] else mapChar lowerRuns lowerExpansions c

/-- Whether the first character that is not ignorable is a cased letter. -/
def casedAhead : List Char → Bool
  | [] => false
  | c :: cs =>
    if ignorableRanges.covers c.toNat then casedAhead cs else casedRanges.covers c.toNat

/-- The lower case of one character, given what stands before it, in reverse, and after it. -/
def lowerAt (before : List Char) (c : Char) (after : List Char) : List Char :=
  if c == 'Σ' then if casedAhead before && !casedAhead after then ['ς'] else ['σ']
  else lowerOf c

/-- The lower case of a text, given the characters before it and what they became, in reverse. -/
def lowerFrom : List Char → List Char → List Char → List Char
  | _, lowered, [] => lowered.reverse
  | before, lowered, c :: cs =>
    lowerFrom (c :: before) ((lowerAt before c cs).reverse ++ lowered) cs

/-- The lower case of a text. -/
def toLower (s : String) : String :=
  String.ofList (lowerFrom [] [] s.toList)

/-- The upper case of a text. -/
def toUpper (s : String) : String :=
  String.ofList (s.toList.flatMap upperOf)

end Case

end PixelEffects
