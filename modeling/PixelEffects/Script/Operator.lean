import PixelEffects.Script.Machine
import PixelEffects.Text.Blank

/-!
# Operators

What an operator gives for two values, or why it gives nothing.

A text that reads as a number counts as that number between two operands, with blanks around it
allowed. In front of an operand it does not: only a number can be negated. Texts compare by their
characters, numbers by value, and NaN with nothing. `and` and `or` are not here, since they may
leave their second operand alone.

The remainder takes the sign of the divisor. An infinite divisor needs a rule of its own, because
the quotient rounds away what is left.

## Main definitions

* `readNumber?`: The number that a text reads as.
* `operand?`: What a value counts as in arithmetic.
* `arithmetic`: Arithmetic on numbers.
* `binary?`, `unary?`: The operators on values.
-/

namespace PixelEffects

namespace Script

/-- The number that a text reads as, with blanks around it allowed. -/
def readNumber? (s : String) : Option Float :=
  Numeral.read? (String.ofList (Text.trim s.toList))

/-- The number that a value counts as in arithmetic. -/
def operand? : Value → Except Cause Float
  | .number x => .ok x
  | .text s =>
    match readNumber? s with
    | some x => .ok x
    | none => .error (.arithmeticText s)
  | v => .error (.arithmetic v.type)

/-- The remainder of a division that rounds down. -/
def modulo (a b : Float) : Float :=
  if b.isInf && a.isFinite then
    if (decide (a ≥ 0)) == (decide (b > 0)) then a else b
  else a - (a / b).floor * b

/-- Arithmetic on numbers. An operator of another kind gives the first operand. -/
def arithmetic (op : BinaryOp) (a b : Float) : Float :=
  match op with
  | .add => a + b
  | .sub => a - b
  | .mul => a * b
  | .div => a / b
  | .floorDiv => (a / b).floor
  | .mod => modulo a b
  | .pow => a.pow b
  | _ => a

/-- How two values compare, `none` when one of them is NaN. -/
def compared? : Value → Value → Except Cause (Option Ordering)
  | .number a, .number b =>
    .ok (if a < b then some .lt else if a == b then some .eq else if a > b then some .gt else none)
  | .text a, .text b => .ok (some (compare a b))
  | l, r => .error (.comparison l.type r.type)

/-- Two texts or numbers, one after the other. -/
def joined? (l r : Value) : Except Cause Value :=
  match l.joinable?, r.joinable? with
  | none, _ => .error (.concatenation l.type)
  | some _, none => .error (.concatenation r.type)
  | some a, some b =>
    if a.utf8ByteSize + b.utf8ByteSize > maxTextLength then .error .textTooLong
    else .ok (.text (a ++ b))

/-- Arithmetic on values. -/
def calculated? (op : BinaryOp) (l r : Value) : Except Cause Value := do
  let a ← operand? l
  let b ← operand? r
  pure (.number (arithmetic op a b))

/-- An ordering as the answer to a comparison. -/
def ordered? (l r : Value) (holds : Ordering → Bool) : Except Cause Value := do
  let o ← compared? l r
  pure (.bool (o.any holds))

/-- An operator between two values. -/
def binary? (op : BinaryOp) (l r : Value) : Except Cause Value :=
  match op with
  | .eq => .ok (.bool (l.rawEq r))
  | .ne => .ok (.bool (!l.rawEq r))
  | .concat => joined? l r
  | .lt => ordered? l r (· == .lt)
  | .le => ordered? l r (· != .gt)
  | .gt => ordered? l r (· == .gt)
  | .ge => ordered? l r (· != .lt)
  | op => calculated? op l r

/-- An operator in front of a value, given the tables. -/
def unary? (heap : Heap) (op : UnaryOp) (v : Value) : Except Cause Value :=
  match op, v with
  | .not, v => .ok (.bool (!v.truthy))
  | .neg, .number x => .ok (.number (-x))
  | .neg, v => .error (.arithmetic v.type)
  | .len, .text s => .ok (.number (Float.ofNat s.utf8ByteSize))
  | .len, .table id => .ok (.number (Float.ofNat (heap.table id).length))
  | .len, v => .error (.noLength v.type)

end Script

end PixelEffects
