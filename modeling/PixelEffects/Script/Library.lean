import PixelEffects.Script.Library.Texts

/-!
# The Script Library

What the library functions do.

A library function sees its arguments and the tables, and changes nothing but tables. There is no
clock, no randomness and no file among its means, so that a script is a function of what it is
given. The one exception is the number that stands for a place in a text, which the caller
supplies. Only a few functions make such texts, and their arguments say what is shown.

Traversal is a function from a key to the next entry. `pairs` and `ipairs` only hand out that
function with the table to apply it to.

## Main definitions

* `Library.Call`: A computation on the tables that ends with results or a cause.
* `Library.call`: The functions.
* `Library.shown`: What a function shows the places of.
* `Library.initialTables`: The tables that a script finds at its start.
-/

namespace PixelEffects

namespace Script

namespace Library

/-- A computation on the tables that ends with a result or a cause. -/
abbrev Call (α : Type) := EStateM LibraryCause Heap α

/-- Stop with a cause. -/
def refuse {α : Type} (cause : LibraryCause) : Call α := fun heap =>
  .error cause heap

/-- Take an argument, or stop with the cause why it does not fit. -/
def take {α : Type} : Except LibraryCause α → Call α
  | .ok a => pure a
  | .error cause => refuse cause

/-- The table at a place. -/
def tableAt (id : TableId) : Call Table := fun heap =>
  .ok (heap.table id) heap

/-- Change the table at a place. -/
def change (id : TableId) (f : Table → Table) : Call Unit := fun heap =>
  .ok () (heap.update id f)

/-- Pass the arguments on when the first one holds, and stop otherwise. -/
def assert (address : Addressing) (args : List Value) : Call (List Value) :=
  if (Argument.value args 0).truthy then pure args
  else if Argument.isGiven args 1 then
    refuse (.raised ((Argument.value args 1).display address))
  else refuse .assertionFailed

/-- The arguments from a position on, or how many there are. -/
def select (args : List Value) : Call (List Value) :=
  if (Argument.value args 0).rawEq (.text "#") then
    pure [.number (Float.ofNat (args.length - 1))]
  else do
    let i := Number.toInt64 (← take (Argument.number? .select args 0))
    if i < 1 then take (Argument.refuse .select 0 .positiveIndex .outOfRange)
    else pure (args.drop i.toNat)

/-- The key to go on after in a traversal, `none` at the start. -/
def startingKey : Value → Except LibraryCause (Option Key)
  | .nil => .ok none
  | v =>
    match Key.ofValue? v with
    | .ok k => .ok (some k)
    | .error cause => .error (.key cause)

/-- The first entry of a table, or the one after a key that it has. -/
def next (args : List Value) : Call (List Value) := do
  let id ← take (Argument.table? .next args 0)
  let after ← take (startingKey (Argument.value args 1))
  let t ← tableAt id
  if after.all t.contains then
    match t.next? after with
    | some (k, v) => pure [k.toValue, v]
    | none => pure [.nil]
  else refuse .lostKey

/-- The next position of a table, if there is something at it. -/
def ipairsStep (args : List Value) : Call (List Value) := do
  let id ← take (Argument.table? .ipairsStep args 0)
  let i ← take (Argument.number? .ipairsStep args 1)
  let v := (← tableAt id).get (Key.ofNumber (i + 1))
  if v.isNil then pure [.nil] else pure [.number (i + 1), v]

/-- A function of one number. -/
def numeric (b : Builtin) (f : Float → Float) (args : List Value) : Call (List Value) := do
  let x ← take (Argument.number? b args 0)
  pure [.number (f x)]

/-- A logarithm, to a base when one is given. -/
def logarithm (args : List Value) : Call (List Value) := do
  let x ← take (Argument.number? .log args 0)
  if Argument.isGiven args 1 then
    let base ← take (Argument.number? .log args 1)
    pure [.number (x.log / base.log)]
  else pure [.number x.log]

/-- The better of two numbers, where one that is NaN loses. Of two that are equally good, such as
    the two zeros, the second one is taken. -/
def better (isAsGood : Float → Float → Bool) (best x : Float) : Float :=
  if best.isNaN then x else if isAsGood x best then x else best

/-- The best of the arguments from position `i` on, looking at `count` of them. -/
def bestFrom (b : Builtin) (isAsGood : Float → Float → Bool) (args : List Value) :
    Nat → Nat → Float → Except LibraryCause Float
  | 0, _, best => .ok best
  | count + 1, i, best => do
    let x ← Argument.number? b args i
    bestFrom b isAsGood args count (i + 1) (better isAsGood best x)

/-- The best of all arguments, of which there has to be one. -/
def extremum (b : Builtin) (isAsGood : Float → Float → Bool) (args : List Value) :
    Call (List Value) := do
  let first ← take (Argument.number? b args 0)
  let best ← take (bestFrom b isAsGood args (args.length - 1) 1 first)
  pure [.number best]

/-- The part of a text between two positions. A first position that does not fit counts as one. -/
def sub (args : List Value) : Call (List Value) := do
  let s ← take (Argument.text? .sub args 0)
  let i := match Argument.number? .sub args 1 with
    | .ok i => i
    | .error _ => 1
  if Argument.isGiven args 2 then
    let j ← take (Argument.number? .sub args 2)
    pure [.text (Texts.sub s i (some j))]
  else pure [.text (Texts.sub s i none)]

/-- Store a value in a table at a position, or behind the last one. -/
def insert (args : List Value) : Call (List Value) := do
  let id ← take (Argument.table? .insert args 0)
  let n := (← tableAt id).length
  match args with
  | [_, v] =>
    change id (·.set (Key.ofPosition (n + 1)) v)
    pure []
  | [_, _, v] =>
    let pos := Number.toCount (← take (Argument.number? .insert args 1))
    if pos < 1 || pos > n + 1 then take (Argument.refuse .insert 1 .position .outOfBounds)
    else
      change id (·.insertAt n pos v)
      pure []
  | _ => refuse .insertArguments

/-- The values at successive positions joined into one text, after what was built already. -/
def joinFrom (separator : String) : Nat → String → List Value → Except LibraryCause String
  | _, built, [] => .ok built
  | i, built, v :: vs =>
    match v.joinable? with
    | none => .error (.notJoinable i v.type)
    | some piece =>
      let piece := if i > 1 then separator ++ piece else piece
      if built.utf8ByteSize + piece.utf8ByteSize > maxTextLength then .error .textTooLong
      else joinFrom separator (i + 1) (built ++ piece) vs

/-- All positions of a table joined into one text. -/
def concat (args : List Value) : Call (List Value) := do
  let id ← take (Argument.table? .concat args 0)
  let separator ←
    if Argument.isGiven args 1 then take (Argument.text? .concat args 1) else pure ""
  let t ← tableAt id
  let joined ← take (joinFrom separator 1 "" (t.values t.length))
  pure [.text joined]

/-- The values at all positions of a table. -/
def unpack (args : List Value) : Call (List Value) := do
  let t ← tableAt (← take (Argument.table? .unpack args 0))
  pure (t.values t.length)

/-- What the functions do. -/
def call (address : Addressing) (b : Builtin) (args : List Value) : Call (List Value) :=
  match b with
  | .assert => assert address args
  | .error => refuse (.raised ((Argument.value args 0).display address))
  | .type => pure [.text (Argument.value args 0).type.text]
  | .toText => pure [.text ((Argument.value args 0).display address)]
  | .toNumber =>
    pure [match Argument.value args 0 with
      | .number x => .number x
      | .text s => (readNumber? s).elim .nil .number
      | _ => .nil]
  | .select => select args
  | .pairs => do
    let id ← take (Argument.table? .pairs args 0)
    pure [.builtin .next, .table id, .nil]
  | .next => next args
  | .ipairs => do
    let id ← take (Argument.table? .ipairs args 0)
    pure [.builtin .ipairsStep, .table id, .number 0]
  | .ipairsStep => ipairsStep args
  | .abs => numeric b Float.abs args
  | .ceil => numeric b Float.ceil args
  | .cos => numeric b Float.cos args
  | .exp => numeric b Float.exp args
  | .floor => numeric b Float.floor args
  | .sin => numeric b Float.sin args
  | .sqrt => numeric b Float.sqrt args
  | .tan => numeric b Float.tan args
  | .log => logarithm args
  | .fmod => do
    let x ← take (Argument.number? b args 0)
    let y ← take (Argument.number? b args 1)
    pure [.number (Number.remainder x y)]
  | .max => extremum b (fun x best => best ≤ x) args
  | .min => extremum b (fun x best => x ≤ best) args
  | .len => do
    let s ← take (Argument.text? b args 0)
    pure [.number (Float.ofNat s.utf8ByteSize)]
  | .lower => do pure [.text (Case.toLower (← take (Argument.text? b args 0)))]
  | .upper => do pure [.text (Case.toUpper (← take (Argument.text? b args 0)))]
  | .rep => do
    let s ← take (Argument.text? b args 0)
    let n := Number.toCount (← take (Argument.number? b args 1))
    pure [.text (← take (Texts.repeated? s n))]
  | .sub => sub args
  | .format => do pure [.text (← take (Texts.format? address args))]
  | .insert => insert args
  | .concat => concat args
  | .unpack => unpack args

/-- What a function shows the places of. -/
def shown (b : Builtin) (args : List Value) : List Resident :=
  match b with
  | .assert =>
    if (Argument.value args 0).truthy then [] else (Argument.value args 1).resident?.toList
  | .error => (Argument.value args 0).resident?.toList
  | .toText => (Argument.value args 0).resident?.toList
  | .format => Texts.shown args
  | _ => []

/-- A table of functions under their names. -/
def functionTable (functions : List (String × Builtin)) : Table :=
  functions.foldl (fun t f => t.set (.text f.1) (.builtin f.2)) .empty

/-- The ratio of a circle's circumference to its diameter. -/
def pi : Float := 3.141592653589793

/-- The table of mathematical functions and constants. -/
def mathTable : Table :=
  ((functionTable Builtin.math).set (.text "pi") (.number pi)).set (.text "huge")
    (.number (1.0 / 0.0))

/-- The table of the globals: functions, and the tables of functions, which follow it. -/
def globalTable : Table :=
  (((functionTable Builtin.globals).set (.text "math") (.table ⟨1⟩)).set (.text "string")
    (.table ⟨2⟩)).set (.text "table") (.table ⟨3⟩)

/-- The tables that a script finds at its start, with the globals first. -/
def initialTables : Heap :=
  #[globalTable, mathTable, functionTable Builtin.string, functionTable Builtin.table]

end Library

end Script

end PixelEffects
