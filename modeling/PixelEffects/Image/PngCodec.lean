import PixelEffects.Image.File
import PixelEffects.Image.Png

/-!
# A Codec for One Format

A codec to run the program with, which reads and writes images in one format only.

The extension of a path tells whether a file has this format, in any letter case. An extension without
characters is an unknown one when an image is written, and none at all when it is read. A file that
holds an image is kept as the image, and not as bytes.

## Main definitions

* `Content.ofBytes`, `Content.toBytes`: What a file holds, from its bytes and back.
* `Content.image`: The image in a file.
* `ImageCodec.png`: The codec.
-/

namespace PixelEffects

namespace Content

/-- What the bytes of a file are. -/
def ofBytes (data : ByteArray) : Content :=
  match Png.decode? data with
  | some image => picture image
  | none =>
    match String.fromUTF8? data with
    | some s => text s
    | none => bytes data.data.toList

/-- The bytes of a file. -/
def toBytes : Content → ByteArray
  | text s => s.toUTF8
  | picture image => Png.encode image
  | bytes data => Png.bytes data

/-- Why bytes hold no image. Those that may be the start of one end too early. -/
def imageFault (data : ByteArray) : ImageError :=
  if Png.hasOtherSignature data then
    .codec "Format error decoding Png: Invalid PNG signature." ["Invalid PNG signature."]
  else .codec "unexpected end of file" []

/-- The image in a file. -/
def image : Content → Except ImageError Image
  | picture image => .ok image
  | text s => .error (imageFault s.toUTF8)
  | bytes data => .error (imageFault (Png.bytes data))

end Content

namespace ImageCodec

/-- Whether an extension is that of the format, or why there is no format. -/
def checkPng : Option String → Except ImageError Unit
  | none => .error (.codec "The image format could not be determined" [])
  | some extension =>
    match String.ofList (extension.toList.map Char.toLower) with
    | "png" => .ok ()
    | "apng" => .ok ()
    | _ => .error (.codec
      s!"The file extension `.{Text.quoted extension}` was not recognized as an image format" [])

/-- A codec for one format. -/
def png : ImageCodec where
  decode p reading := do
    checkPng ((Path.extension? p).filter (!·.isEmpty))
    match reading with
    | .error e => throw (.os e)
    | .ok content => content.image
  encode p image := do
    checkPng (Path.extension? p)
    pure ⟨.picture image, none⟩

end ImageCodec

end PixelEffects
