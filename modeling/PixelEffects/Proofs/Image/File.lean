import PixelEffects.Image.PngCodec
import PixelEffects.Proofs.FileTree.Change

/-!
# What Is in a File Afterwards

An image that was written is in the file at its path.

Writing an image can go wrong in three places: the directory cannot be made, the codec gives up, or the
file cannot be written. If none of that happens, then the file holds what the codec made of the image.
What is read from it is up to the codec again, and it is the image where the codec keeps all of it. A
codec for one format that loses nothing does so for every path.

## Theorems

* `FileTree.read_of_saveImage`: What the file holds.
* `FileTree.openImage_of_saveImage`: What is read from it.
* `ImageCodec.png_restores`: A codec that loses nothing.
-/

namespace PixelEffects

namespace FileTree

variable {t t' : FileTree} {codec : ImageCodec} {p : Path} {image : Image}

/-- When an image was written, the file holds the whole of what the codec makes of it. -/
theorem read_of_saveImage (h : t.saveImage codec p image = (.ok (), t')) :
    ∃ content, codec.encode p image = .ok ⟨content, none⟩ ∧ t'.read p = .ok content := by
  unfold saveImage at h
  cases hparent : t.makeParent p with
  | error e =>
      rw [hparent] at h
      cases h
  | ok made =>
      rw [hparent] at h
      dsimp only at h
      cases hencode : codec.encode p image with
      | error e =>
          rw [hencode] at h
          cases h
      | ok encoding =>
          rw [hencode] at h
          dsimp only at h
          cases hwrite : made.write p encoding.content with
          | error e =>
              rw [hwrite] at h
              cases h
          | ok written =>
              rw [hwrite] at h
              rcases encoding with ⟨content, _ | fault⟩
              · cases h
                exact ⟨content, rfl, read_write hwrite⟩
              · cases h

/-- An image is what the codec makes of the file. -/
theorem openImage_of_read {content : Content} (h : t.read p = .ok content) :
    t.openImage codec p = (codec.decode p (.ok content)).mapError .image := by
  unfold openImage
  cases hnode : t.node? p with
  | error e =>
      unfold read at h
      rw [hnode] at h
      cases h
  | ok node =>
      dsimp only
      rw [h]

/-- An image that was written is read again, if the codec keeps all of it. -/
theorem openImage_of_saveImage (hcodec : codec.Restores p)
    (h : t.saveImage codec p image = (.ok (), t')) : t'.openImage codec p = .ok image := by
  rcases read_of_saveImage h with ⟨content, hencode, hread⟩
  rw [openImage_of_read hread, hcodec image content hencode]
  rfl

end FileTree

namespace ImageCodec

/-- What can be written with an extension can be read with it. -/
theorem checkPng_filter {extension : Option String} (h : checkPng extension = .ok ()) :
    checkPng (extension.filter (!·.isEmpty)) = .ok () := by
  cases extension with
  | none => cases h
  | some text =>
      -- Without characters it would not have been written.
      by_cases hempty : text = ""
      · subst hempty
        cases h
      · have hkept : (some text).filter (!·.isEmpty) = some text := by
          simp [Option.filter, hempty]
        rw [hkept]
        exact h

/-- A codec for a format that keeps images as they are reads all that it has written. -/
theorem png_restores (p : Path) : png.Restores p := by
  intro image content h
  rcases bind_eq_ok h with ⟨_, hcheck, h⟩
  cases h
  show checkPng ((Path.extension? p).filter (!·.isEmpty)) >>= _ = _
  rw [checkPng_filter hcheck]
  rfl

end ImageCodec

end PixelEffects
