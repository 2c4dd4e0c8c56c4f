import PixelEffects.Error

/-!
# Image Files

Images in files, read and written by a codec.

The codec is a library of its own: which formats there are, how a path tells one, and what the bytes
of a file mean, is up to it. So it is a parameter here. The program only looks for the file, has the
codec read it, and makes the directory in which a file is to be written.

A file is looked for first, so a missing one is reported as missing whatever the codec says of it.
When an image is written, the directory is made before the codec is asked at all. The codec may refuse
the path, and then no file is touched. It may also give up on the way, and then the file holds what was
written until then.

## Main definitions

* `ImageCodec`: What reads and writes images.
* `ImageCodec.Restores`: A codec that reads what it has written.
* `FileTree.openImage`, `FileTree.saveImage`: Reading and writing an image.
-/

namespace PixelEffects

/-- What a codec writes for an image: what the file holds then, and why that is not the whole image, if
    the codec gave up on the way. -/
structure Encoding where
  content : Content
  fault : Option ImageError

/-- What reads and writes images. It goes by the path of a file and, when it reads, by what reading the
    file gives. When it writes, it may refuse the path. -/
structure ImageCodec where
  decode : Path → Except OsError Content → Except ImageError Image
  encode : Path → Image → Except ImageError Encoding

namespace ImageCodec

/-- A codec that reads from the file at a path the image that it has written there, as it is with
    formats that keep all of it. -/
def Restores (codec : ImageCodec) (p : Path) : Prop :=
  ∀ image content, codec.encode p image = .ok ⟨content, none⟩ →
    codec.decode p (.ok content) = .ok image

end ImageCodec

namespace FileTree

/-- The image in the file at a path. -/
def openImage (t : FileTree) (codec : ImageCodec) (p : Path) : Except Error Image :=
  match t.node? p with
  | .error e => .error (.image (.os e))
  | .ok _ => (codec.decode p (t.read p)).mapError .image

/-- Make the directory that a file is to be in. -/
def makeParent (t : FileTree) (p : Path) : Except Error FileTree :=
  match Path.parent? p with
  | none => .ok t
  | some "" => .ok t
  | some dir =>
    match t.makeDirs dir with
    | .ok t => .ok t
    | .error e => .error (.io dir e)

/-- What is said when a codec has written what it could. -/
def encoded : Option ImageError → Except Error Unit
  | none => .ok ()
  | some e => .error (.image e)

/-- Write an image to the file at a path. The directory is made even if the image then cannot be
    written. -/
def saveImage (t : FileTree) (codec : ImageCodec) (p : Path) (image : Image) :
    Except Error Unit × FileTree :=
  match t.makeParent p with
  | .error e => (.error e, t)
  | .ok t =>
    match codec.encode p image with
    | .error e => (.error (.image e), t)
    | .ok encoding =>
      match t.write p encoding.content with
      | .ok t => (encoded encoding.fault, t)
      | .error e => (.error (.image (.os e)), t)

end FileTree

end PixelEffects
