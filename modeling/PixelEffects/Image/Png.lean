import PixelEffects.Image
import PixelEffects.Image.Deflate

/-!
# Images as Bytes

The file format of images.

A file is a signature and a list of chunks, each with a type. One chunk tells the sides and how a
pixel is written, one may hold a palette and one what is transparent, and the pixels are in the
compressed data of the others, row by row. In front of each row stands a filter: what is written
then is the difference to a prediction from the bytes to the left, above, and above to the left.

Images are written with eight bits to a channel and without compression. They are read with any
number of channels and of bits, but not when the rows are interlaced.

## Main definitions

* `Png.Header`: The sides, and how a pixel is written.
* `Png.hasOtherSignature`: Whether bytes cannot be the start of a file.
* `Png.encode`: An image as bytes.
* `Png.decode?`: The image in bytes.
-/

namespace PixelEffects

namespace Png

/-- What a file starts with. -/
def signature : List UInt8 :=
  [137, 80, 78, 71, 13, 10, 26, 10]

/-- Whether bytes cannot be the start of a file. The signature is compared in halves, and a half that
    is not all there is not compared. -/
def hasOtherSignature (data : ByteArray) : Bool :=
  let start := (data.extract 0 8).data.toList
  let compared := start.take (start.length / 4 * 4)
  !compared.isPrefixOf signature

/-- A number in four bytes, the highest one first. -/
def fourBytes (n : Nat) : List UInt8 :=
  [UInt8.ofNat (n / 16777216), UInt8.ofNat (n / 65536), UInt8.ofNat (n / 256), UInt8.ofNat n]

/-- The byte at a position, zero behind the end. -/
def byteAt (data : ByteArray) (i : Nat) : Nat :=
  (data.data.getD i 0).toNat

/-- The number in four bytes from a position on. -/
def numberAt (data : ByteArray) (i : Nat) : Nat :=
  ((byteAt data i * 256 + byteAt data (i + 1)) * 256 + byteAt data (i + 2)) * 256 +
    byteAt data (i + 3)

/-! ### Writing -/

/-- One bit of the checksum of a chunk. -/
def checksumBit (c : UInt32) : UInt32 :=
  if c &&& 1 == 1 then (c >>> 1) ^^^ 0xedb88320 else c >>> 1

/-- One byte of the checksum of a chunk. -/
def checksumByte (c : UInt32) (b : UInt8) : UInt32 :=
  Nat.repeat checksumBit 8 (c ^^^ b.toUInt32)

/-- The checksum of a chunk. -/
def checksum (data : ByteArray) : Nat :=
  ((data.foldl checksumByte 0xffffffff) ^^^ 0xffffffff).toNat

/-- The checksum of data before it was compressed. -/
def dataChecksum (data : ByteArray) : Nat :=
  let (a, b) := data.foldl (fun (a, b) x =>
    let a := (a + x.toNat) % 65521
    (a, (b + a) % 65521)) (1, 0)
  b * 65536 + a

/-- Bytes from a list. -/
def bytes (bs : List UInt8) : ByteArray :=
  ⟨bs.toArray⟩

/-- A chunk with a type of four letters. -/
def chunk (type : String) (data : ByteArray) : ByteArray :=
  let body := type.toUTF8 ++ data
  bytes (fourBytes data.size) ++ body ++ bytes (fourBytes (checksum body))

/-- The bytes of the rows of an image, each behind a filter that predicts nothing. -/
def rows (image : Image) : ByteArray :=
  (image.pixels.foldl (fun (out, x) c =>
    let out := if x == 0 then out.push 0 else out
    let out := (((out.push c.r).push c.g).push c.b).push c.a
    (out, if x + 1 == image.width then 0 else x + 1)) (ByteArray.empty, 0)).1

/-- An image as bytes. -/
def encode (image : Image) : ByteArray :=
  let data := rows image
  let header := bytes (fourBytes image.width ++ fourBytes image.height ++ [8, 6, 0, 0, 0])
  let packed := Deflate.stored (bytes [120, 1]) data ++ bytes (fourBytes (dataChecksum data))
  bytes signature ++ chunk "IHDR" header ++ chunk "IDAT" packed ++ chunk "IEND" .empty

/-! ### Reading -/

/-- The sides of an image, the bits of a sample, and what its samples are. -/
structure Header where
  width : Nat
  height : Nat
  depth : Nat
  color : Nat

namespace Header

/-- How many samples a pixel has. -/
def samples (h : Header) : Nat :=
  match h.color with
  | 2 => 3
  | 4 => 2
  | 6 => 4
  | _ => 1

/-- How many bytes a row has. -/
def rowSize (h : Header) : Nat :=
  (h.width * h.samples * h.depth + 7) / 8

/-- How many bytes back the pixel to the left is. -/
def pixelSize (h : Header) : Nat :=
  max 1 (h.samples * h.depth / 8)

end Header

/-- What the chunks of a file hold. -/
structure Parts where
  header : Option Header
  palette : ByteArray
  transparency : ByteArray
  data : ByteArray

/-- Take in a chunk. -/
def Parts.add (parts : Parts) (type : String) (data : ByteArray) : Parts :=
  match type with
  | "IHDR" =>
    if byteAt data 12 == 0 then
      { parts with
        header := some ⟨numberAt data 0, numberAt data 4, byteAt data 8, byteAt data 9⟩ }
    else parts
  | "PLTE" => { parts with palette := data }
  | "tRNS" => { parts with transparency := data }
  | "IDAT" => { parts with data := parts.data ++ data }
  | _ => parts

/-- The chunks from a position on. -/
def readChunks (data : ByteArray) : Nat → Nat → Parts → Parts
  | 0, _, parts => parts
  | fuel + 1, start, parts =>
    if start + 12 ≤ data.size then
      let length := numberAt data start
      let type := (String.fromUTF8? (data.extract (start + 4) (start + 8))).getD ""
      let parts := parts.add type (data.extract (start + 8) (start + 8 + length))
      readChunks data fuel (start + 12 + length) parts
    else parts

/-- The prediction from the left, from above and from above to the left that is nearest to what the
    three add up to. -/
def nearest (left up corner : Nat) : Nat :=
  let sum : Int := left + up - corner
  let dl := (sum - left).natAbs
  let du := (sum - up).natAbs
  let dc := (sum - corner).natAbs
  if dl ≤ du && dl ≤ dc then left else if du ≤ dc then up else corner

/-- What a filter predicts. -/
def predict (filter left up corner : Nat) : Nat :=
  match filter with
  | 1 => left
  | 2 => up
  | 3 => (left + up) / 2
  | 4 => nearest left up corner
  | _ => 0

/-- Take in so many bytes of a row, behind the rows in front of it. -/
def readRow (h : Header) (raw : ByteArray) (filter start : Nat) (first : Bool) :
    Nat → Nat → ByteArray → ByteArray
  | 0, _, out => out
  | n + 1, i, out =>
    let at? (back : Nat) : Nat := byteAt out (out.size - back)
    let left := if i < h.pixelSize then 0 else at? h.pixelSize
    let up := if first then 0 else at? h.rowSize
    let corner := if first || i < h.pixelSize then 0 else at? (h.rowSize + h.pixelSize)
    let b := byteAt raw (start + i) + predict filter left up corner
    readRow h raw filter start first n (i + 1) (out.push (UInt8.ofNat b))

/-- The bytes of so many rows without their filters. -/
def readRows (h : Header) (raw : ByteArray) : Nat → Nat → ByteArray → ByteArray
  | 0, _, out => out
  | n + 1, y, out =>
    let start := y * (h.rowSize + 1)
    let filter := byteAt raw start
    readRows h raw n (y + 1) (readRow h raw filter (start + 1) (y == 0) h.rowSize 0 out)

/-- A sample of a row, by its number in the row. -/
def sample (h : Header) (rows : ByteArray) (y i : Nat) : Nat :=
  let start := y * h.rowSize
  match h.depth with
  | 8 => byteAt rows (start + i)
  | 16 => byteAt rows (start + 2 * i) * 256 + byteAt rows (start + 2 * i + 1)
  | depth =>
    let position := i * depth
    let shift := 8 - depth - position % 8
    (byteAt rows (start + position / 8) >>> shift) % Nat.pow 2 depth

/-- A sample with eight bits. -/
def scaled (h : Header) (n : Nat) : UInt8 :=
  match h.depth with
  | 8 => UInt8.ofNat n
  | 16 => UInt8.ofNat ((n + 128) / 257)
  | depth => UInt8.ofNat (n * 255 / (Nat.pow 2 depth - 1))

/-- The number in two bytes from a position on, as it names a transparent sample. -/
def transparentSample (parts : Parts) (i : Nat) : Option Nat :=
  if 2 * i + 1 < parts.transparency.size then
    some (byteAt parts.transparency (2 * i) * 256 + byteAt parts.transparency (2 * i + 1))
  else none

/-- The alpha of a pixel without an alpha sample. -/
def keyAlpha (parts : Parts) (samples : List Nat) : UInt8 :=
  let key := (List.range samples.length).map (transparentSample parts)
  if key == samples.map some then 0 else 255

/-- A color of the palette. -/
def paletteColor (parts : Parts) (i : Nat) : Rgba :=
  ⟨UInt8.ofNat (byteAt parts.palette (3 * i)), UInt8.ofNat (byteAt parts.palette (3 * i + 1)),
    UInt8.ofNat (byteAt parts.palette (3 * i + 2)), parts.transparency.data.getD i 255⟩

/-- A pixel from its samples. -/
def color (h : Header) (parts : Parts) (samples : List Nat) : Rgba :=
  match h.color, samples with
  | 0, [v] =>
    let c := scaled h v
    ⟨c, c, c, keyAlpha parts samples⟩
  | 2, [r, g, b] => ⟨scaled h r, scaled h g, scaled h b, keyAlpha parts samples⟩
  | 3, [i] => paletteColor parts i
  | 4, [v, a] =>
    let c := scaled h v
    ⟨c, c, c, scaled h a⟩
  | 6, [r, g, b, a] => ⟨scaled h r, scaled h g, scaled h b, scaled h a⟩
  | _, _ => default

/-- The image in bytes, if they hold one. -/
def decode? (data : ByteArray) : Option Image := do
  if (data.extract 0 8).data.toList != signature then none
  let parts := readChunks data data.size 8 ⟨none, .empty, .empty, .empty⟩
  let h ← parts.header
  let raw ← Deflate.inflate? parts.data 2
  if raw.size < h.height * (h.rowSize + 1) then none
  let rows := readRows h raw h.height 0 .empty
  pure (.generate h.width h.height fun x y =>
    color h parts ((List.range h.samples).map fun i => sample h rows y (x * h.samples + i)))

end Png

end PixelEffects
