/-!
# Compressed Data

Reading data in the deflate format, and writing data in it that is not compressed.

The format is a list of blocks. A block holds bytes as they are, or symbols of a prefix code,
where a symbol is a byte, the end of the block, or a piece of what came before, given by its
length and by how far back it starts. A prefix code is written down as the lengths of its codes:
among codes of one length the values follow the order of the symbols, and shorter codes come
first.

Every symbol takes at least one bit, so the number of bits bounds the number of symbols and of
blocks.

## Main definitions

* `Deflate.BitReader`: A computation that reads bits.
* `Deflate.PrefixCode`: A code by its lengths.
* `Deflate.inflate?`: The data in a list of blocks.
* `Deflate.stored`: Blocks with bytes as they are.
-/

namespace PixelEffects

namespace Deflate

/-- A computation that reads bits from a position on. -/
abbrev BitReader (α : Type) := ReaderT ByteArray (StateT Nat Option) α

/-- The next bit. The lowest bit of a byte comes first. -/
def bit : BitReader Nat := fun data pos =>
  if h : pos / 8 < data.size then
    some ((data[pos / 8].toNat >>> (pos % 8)) % 2, pos + 1)
  else none

/-- A number of several bits, the lowest one first. -/
def bits : Nat → BitReader Nat
  | 0 => pure 0
  | n + 1 => do
    let b ← bit
    let rest ← bits n
    pure (b + 2 * rest)

/-- Go on to the next whole byte. -/
def align : BitReader Unit := fun _ pos =>
  some ((), (pos + 7) / 8 * 8)

/-- A code for symbols: how many codes there are of each length from one on, and the symbols in the
    order of their codes. -/
structure PrefixCode where
  counts : List Nat
  symbols : Array Nat

namespace PrefixCode

/-- The longest code. -/
def maxLength : Nat := 15

/-- The symbols whose code has a length. -/
def symbolsOf (lengths : List Nat) (length : Nat) : List Nat :=
  (lengths.zipIdx.filter (·.1 == length)).map (·.2)

/-- The code with given lengths of the codes of all symbols. -/
def ofLengths (lengths : List Nat) : PrefixCode :=
  let groups := (List.range maxLength).map fun n => symbolsOf lengths (n + 1)
  ⟨groups.map (·.length), groups.flatten.toArray⟩

/-- A symbol, when the bits read so far are a number, the codes of the next length start at another
    one, and there are so many shorter codes. -/
def decodeFrom (symbols : Array Nat) : List Nat → Nat → Nat → Nat → BitReader Nat
  | [], _, _, _ => failure
  | count :: counts, code, first, index => do
    let code := code + (← bit)
    if code < first + count then
      match symbols[index + (code - first)]? with
      | some s => pure s
      | none => failure
    else decodeFrom symbols counts (2 * code) (2 * (first + count)) (index + count)

/-- The next symbol. -/
def decode (code : PrefixCode) : BitReader Nat :=
  decodeFrom code.symbols code.counts 0 0 0

end PrefixCode

/-- The least length of each symbol for a piece, and how many bits are added to it. -/
def lengthTable : List (Nat × Nat) :=
  [(3, 0), (4, 0), (5, 0), (6, 0), (7, 0), (8, 0), (9, 0), (10, 0), (11, 1), (13, 1), (15, 1),
   (17, 1), (19, 2), (23, 2), (27, 2), (31, 2), (35, 3), (43, 3), (51, 3), (59, 3), (67, 4),
   (83, 4), (99, 4), (115, 4), (131, 5), (163, 5), (195, 5), (227, 5), (258, 0)]

/-- The least distance of each symbol for a distance, and how many bits are added to it. -/
def distanceTable : List (Nat × Nat) :=
  [(1, 0), (2, 0), (3, 0), (4, 0), (5, 1), (7, 1), (9, 2), (13, 2), (17, 3), (25, 3), (33, 4),
   (49, 4), (65, 5), (97, 5), (129, 6), (193, 6), (257, 7), (385, 7), (513, 8), (769, 8),
   (1025, 9), (1537, 9), (2049, 10), (3073, 10), (4097, 11), (6145, 11), (8193, 12),
   (12289, 12), (16385, 13), (24577, 13)]

/-- The order in which the lengths of the code for lengths are written. -/
def lengthOrder : List Nat :=
  [16, 17, 18, 0, 8, 7, 9, 6, 10, 5, 11, 4, 12, 3, 13, 2, 14, 1, 15]

/-- A number from a table and the bits that are added to it. -/
def tableValue (table : List (Nat × Nat)) (symbol : Nat) : BitReader Nat := do
  match table[symbol]? with
  | some (least, extra) => pure (least + (← bits extra))
  | none => failure

/-- Copy bytes from some distance back to the end. -/
def copyBack (distance : Nat) : Nat → ByteArray → ByteArray
  | 0, out => out
  | n + 1, out =>
    let b := out.data.getD (out.size - distance) 0
    copyBack distance n (out.push b)

/-- The symbols of a block. -/
def readSymbols (literals distances : PrefixCode) : Nat → ByteArray → BitReader ByteArray
  | 0, _ => failure
  | fuel + 1, out => do
    let s ← literals.decode
    if s < 256 then readSymbols literals distances fuel (out.push (UInt8.ofNat s))
    else if s == 256 then pure out
    else
      let length ← tableValue lengthTable (s - 257)
      let distance ← tableValue distanceTable (← distances.decode)
      if distance ≤ out.size then
        readSymbols literals distances fuel (copyBack distance length out)
      else failure

/-- Bytes as they are. -/
def readBytes : Nat → ByteArray → BitReader ByteArray
  | 0, out => pure out
  | n + 1, out => do
    let b ← bits 8
    readBytes n (out.push (UInt8.ofNat b))

/-- Lengths of codes, so many of them after those that were read, last one first. -/
def readLengths (code : PrefixCode) (count : Nat) : Nat → List Nat → BitReader (List Nat)
  | 0, _ => failure
  | fuel + 1, lengths => do
    if lengths.length ≥ count then
      if lengths.length == count then pure lengths.reverse else failure
    else
      match ← code.decode with
      | 16 =>
        let n ← bits 2
        match lengths with
        | [] => failure
        | l :: _ => readLengths code count fuel (List.replicate (n + 3) l ++ lengths)
      | 17 =>
        let n ← bits 3
        readLengths code count fuel (List.replicate (n + 3) 0 ++ lengths)
      | 18 =>
        let n ← bits 7
        readLengths code count fuel (List.replicate (n + 11) 0 ++ lengths)
      | l => readLengths code count fuel (l :: lengths)

/-- The codes that a block writes down. -/
def readCodes : BitReader (PrefixCode × PrefixCode) := do
  let literals := (← bits 5) + 257
  let distances := (← bits 5) + 1
  let given ← (List.replicate ((← bits 4) + 4) ()).mapM fun _ => bits 3
  let pairs := lengthOrder.zip given
  let lengths := (List.range 19).map fun s => (pairs.lookup s).getD 0
  let count := literals + distances
  let all ← readLengths (.ofLengths lengths) count (count + 1) []
  pure (.ofLengths (all.take literals), .ofLengths (all.drop literals))

/-- The codes that need not be written down. -/
def fixedCodes : PrefixCode × PrefixCode :=
  (.ofLengths (List.replicate 144 8 ++ List.replicate 112 9 ++ List.replicate 24 7 ++
    List.replicate 8 8), .ofLengths (List.replicate 30 5))

/-- The blocks up to the last one. -/
def readBlocks (size : Nat) : Nat → ByteArray → BitReader ByteArray
  | 0, _ => failure
  | fuel + 1, out => do
    let last ← bit
    let out ←
      match ← bits 2 with
      | 0 => do
        align
        let length ← bits 16
        let _ ← bits 16
        readBytes length out
      | 1 => readSymbols fixedCodes.1 fixedCodes.2 size out
      | 2 => do
        let (literals, distances) ← readCodes
        readSymbols literals distances size out
      | _ => failure
    if last == 1 then pure out else readBlocks size fuel out

/-- The data in a list of blocks that starts at a byte. -/
def inflate? (data : ByteArray) (start : Nat) : Option ByteArray :=
  let size := 8 * data.size + 1
  (readBlocks size size .empty data (8 * start)).map (·.1)

/-- The most bytes that a block holds as they are. -/
def maxStored : Nat := 65535

/-- A number in two bytes, the lower one first. -/
def twoBytes (n : Nat) : List UInt8 :=
  [UInt8.ofNat n, UInt8.ofNat (n / 256)]

/-- Blocks with bytes as they are, from a position on. -/
def storedFrom (data : ByteArray) : Nat → Nat → ByteArray → ByteArray
  | 0, _, out => out
  | fuel + 1, start, out =>
    let length := min maxStored (data.size - start)
    let isLast := start + length == data.size
    let head := (if isLast then 1 else 0) :: (twoBytes length ++ twoBytes (65535 - length))
    let out := head.foldl ByteArray.push out
    let out := out ++ data.extract start (start + length)
    if isLast then out else storedFrom data fuel (start + length) out

/-- Blocks with bytes as they are, behind bytes that are there already. -/
def stored (front data : ByteArray) : ByteArray :=
  storedFrom data (data.size + 1) 0 front

end Deflate

end PixelEffects
