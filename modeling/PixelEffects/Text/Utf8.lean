/-!
# Repairing UTF-8

A cut through the bytes of a text can fall inside a character. What is left over is replaced: each
longest run of bytes that begins a character and breaks off becomes one U+FFFD, and so does each
byte that cannot begin one. Bytes that form whole characters are kept as they are.

The second byte of a character has a narrower range after some first bytes, which is how overlong
forms, surrogates and code points past the last one are refused.

## Main definitions

* `Utf8.repair`: The characters of a list of bytes, with replacements.
* `Utf8.slice`: The repaired text between two byte positions.
* `Utf8.leadByte`: The first byte of a character.
-/

namespace PixelEffects

namespace Utf8

/-- What a first byte announces: how many bytes follow, and the range of the first of those. -/
inductive Lead
  | single
  | broken
  | leads (following : Nat) (low high : UInt8)
deriving Repr, DecidableEq

/-- Classify a first byte. -/
def lead (b : UInt8) : Lead :=
  if b < 0x80 then .single
  else if b < 0xC2 then .broken
  else if b < 0xE0 then .leads 1 0x80 0xBF
  else if b == 0xE0 then .leads 2 0xA0 0xBF
  else if b == 0xED then .leads 2 0x80 0x9F
  else if b < 0xF0 then .leads 2 0x80 0xBF
  else if b == 0xF0 then .leads 3 0x90 0xBF
  else if b < 0xF4 then .leads 3 0x80 0xBF
  else if b == 0xF4 then .leads 3 0x80 0x8F
  else .broken

/-- The character that stands for bytes that form none. -/
def replacement : Char := '\uFFFD'

/-- Where the reading of a character stands: between two, or inside one. Inside, `value` holds the
    bits so far, `missing` how many bytes are still to come, and the next one lies in a range. -/
inductive Progress
  | between
  | inside (value missing : Nat) (low high : UInt8)
deriving Repr, DecidableEq

/-- Take in the first byte of a character. -/
def start (b : UInt8) : List Char × Progress :=
  match lead b with
  | .single => ([Char.ofNat b.toNat], .between)
  | .broken => ([replacement], .between)
  | .leads following low high =>
    ([], .inside (b.toNat % Nat.pow 2 (6 - following)) following low high)

/-- Take in one byte: the characters that it completes or breaks off, and where reading stands. -/
def step (b : UInt8) : Progress → List Char × Progress
  | .between => start b
  | .inside value missing low high =>
    if low ≤ b && b ≤ high then
      let value := value * 64 + b.toNat % 64
      if missing == 1 then ([Char.ofNat value], .between)
      else ([], .inside value (missing - 1) 0x80 0xBF)
    else
      let (cs, next) := start b
      (replacement :: cs, next)

/-- The characters of the rest of the bytes, after those already read, which are in reverse. -/
def repairFrom : List Char → Progress → List UInt8 → List Char
  | done, .between, [] => done.reverse
  | done, .inside .., [] => (replacement :: done).reverse
  | done, p, b :: bs =>
    let (cs, next) := step b p
    repairFrom (cs.reverse ++ done) next bs

/-- The characters of a list of bytes, with what is broken replaced. -/
def repair (bytes : List UInt8) : List Char :=
  repairFrom [] .between bytes

/-- The repaired text of the bytes from `start` up to `stop`. -/
def slice (s : String) (start stop : Nat) : String :=
  String.ofList (repair (s.toUTF8.extract start stop).toList)

/-- The first byte of a character. -/
def leadByte (c : Char) : Nat :=
  let n := c.toNat
  if n < 0x80 then n
  else if n < 0x800 then 0xC0 + n / 64
  else if n < 0x10000 then 0xE0 + n / 4096
  else 0xF0 + n / 262144

end Utf8

end PixelEffects
