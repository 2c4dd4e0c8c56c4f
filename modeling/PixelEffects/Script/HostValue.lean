import PixelEffects.Script.Machine

/-!
# Host Values

What goes in and out of a script.

A host value is plain data: it has no places, so it can be kept after the script is gone. A table
becomes a record whose fields are texts. Keys of other types take the text that the script would
write for them; when two keys have the same text, the later one in the order of the table wins.
Functions cannot be taken out, and neither can tables inside sixteen others, which is what ends
the conversion of a table that contains itself. Both leave only their type behind.

## Main definitions

* `HostValue`: Plain data.
* `HostValue.toScript`: A host value as a script value, with new tables for its records.
* `HostValue.ofScript`: A script value as a host value.
-/

namespace PixelEffects

namespace Script

/-- Plain data. The fields of a record have distinct names. -/
inductive HostValue
  | nil
  | bool (value : Bool)
  | number (value : Float)
  | text (value : String)
  | record (fields : List (String × HostValue))
  | foreign (type : TypeName)
deriving Inhabited

namespace HostValue

/-- How many records may stand around a table that is taken out. -/
def maxDepth : Nat := 16

/-- The type of a host value. -/
def type : HostValue → TypeName
  | nil => .nil
  | bool _ => .boolean
  | number _ => .number
  | text _ => .string
  | record _ => .table
  | foreign t => t

/-- The field of a record. -/
def field? (name : String) : HostValue → Option HostValue
  | record fields => fields.lookup name
  | _ => none

mutual

/-- A host value as a script value, with the tables that it takes. -/
def toScript : HostValue → Heap → Value × Heap
  | nil, heap => (.nil, heap)
  | foreign _, heap => (.nil, heap)
  | bool b, heap => (.bool b, heap)
  | number x, heap => (.number x, heap)
  | text s, heap => (.text s, heap)
  | record fields, heap =>
    let (t, heap) := fieldsToScript fields .empty heap
    (.table ⟨heap.size⟩, heap.push t)

/-- The fields of a record as entries of a table. -/
def fieldsToScript : List (String × HostValue) → Table → Heap → Table × Heap
  | [], t, heap => (t, heap)
  | (name, v) :: fields, t, heap =>
    let (v, heap) := toScript v heap
    fieldsToScript fields (t.set (.text name) v) heap

end

/-- Several host values as script values. -/
def allToScript : List HostValue → Heap → List Value × Heap
  | [], heap => ([], heap)
  | v :: vs, heap =>
    let (v, heap) := toScript v heap
    let (vs, heap) := allToScript vs heap
    (v :: vs, heap)

/-- The name of the field that a key becomes. -/
def fieldName : Key → String
  | .bool b => if b then "true" else "false"
  | .number x => Numeral.scriptText x
  | .text s => s

/-- The fields of a record in the order of their names; of two with one name the later counts. -/
def collect (fields : List (String × HostValue)) : List (String × HostValue) :=
  (fields.foldl (fun m f => m.insert f.1 f.2) (∅ : Std.TreeMap String HostValue)).toList

/-- A script value as a host value, when `depth` more records may stand around a table. -/
def ofScriptWithin (heap : Heap) : Nat → Value → HostValue
  | _, .nil => nil
  | _, .bool b => bool b
  | _, .number x => number x
  | _, .text s => text s
  | _, .function _ => foreign .function
  | _, .builtin _ => foreign .function
  | 0, .table _ => foreign .table
  | depth + 1, .table id =>
    record (collect ((heap.table id).toList.map fun e =>
      (fieldName e.1, ofScriptWithin heap depth e.2)))

/-- A script value as a host value. -/
def ofScript (heap : Heap) (v : Value) : HostValue :=
  ofScriptWithin heap maxDepth v

end HostValue

end Script

end PixelEffects
