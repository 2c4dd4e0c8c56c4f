import PixelEffects.Effect.Application
import PixelEffects.Proofs.Image
import PixelEffects.Proofs.Operation

/-!
# Images, Pixel by Pixel

What an effect makes of an image when all it does is decided by each pixel alone.

If a pixel comes to the same thing whenever it is asked about, there is a function from pixels to
results, and it already says what the image comes to: every pixel as the function has it, or the
error of the first pixel that has one. `Image.Transforms` says that without any order in which
pixels are taken, apart from "first", which is about coordinates and not about time. There is only
one result with that property, so two ways of taking the pixels are shown equal by showing it for
each of them.

The sequential sweep has it because it takes the pixels in the order of their coordinates. What was
written stays, and when a pixel fails all those before it were written.

## Main definitions

* `Precedes`: The order of coordinates, row by row.
* `Image.Written`: A pixel that already is what it comes to.
* `Image.Transforms`: What an image comes to.
* `Task.Computes`: A task that does to each pixel what a function says.

## Theorems

* `Image.mem_coordinates`, `Image.pairwise_coordinates`: The coordinates of an image, in order.
* `Image.Transforms.unique`: An image comes to one thing.
* `Effect.sweep_transforms`: The sequential sweep gives what the image comes to.
-/

namespace PixelEffects

/-- Whether a coordinate comes before another one, row by row. -/
def Precedes (a b : Nat × Nat) : Prop :=
  a.2 < b.2 ∨ a.2 = b.2 ∧ a.1 < b.1

namespace Precedes

theorem asymm {a b : Nat × Nat} (h : Precedes a b) : ¬ Precedes b a := by
  unfold Precedes at *
  omega

theorem irrefl (a : Nat × Nat) : ¬ Precedes a a := by
  unfold Precedes
  omega

/-- Of two coordinates one comes first, unless they are the same. -/
theorem total (a b : Nat × Nat) : Precedes a b ∨ a = b ∨ Precedes b a := by
  unfold Precedes
  rw [Prod.ext_iff]
  omega

end Precedes

namespace Image

/-- A coordinate is among those of an image exactly if it is inside. -/
theorem mem_coordinates {width height x y : Nat} :
    (x, y) ∈ coordinates width height ↔ x < width ∧ y < height := by
  unfold coordinates
  simp only [List.mem_flatMap, List.mem_map, List.mem_range, Prod.mk.injEq]
  constructor
  · rintro ⟨y', hy', x', hx', rfl, rfl⟩
    exact ⟨hx', hy'⟩
  · rintro ⟨hx, hy⟩
    exact ⟨y, hy, x, hx, rfl, rfl⟩

/-- The coordinates of an image are listed in their order. -/
theorem pairwise_coordinates (width height : Nat) :
    (coordinates width height).Pairwise Precedes := by
  unfold coordinates
  rw [List.pairwise_flatMap]
  constructor
  · intro y _
    rw [List.pairwise_map]
    exact List.pairwise_lt_range.imp fun h => .inr ⟨rfl, h⟩
  · refine List.pairwise_lt_range.imp fun hrow a ha b hb => ?_
    rcases List.mem_map.mp ha with ⟨x, _, rfl⟩
    rcases List.mem_map.mp hb with ⟨x', _, rfl⟩
    exact .inl hrow

/-- Where the coordinates are split, those before the first one of the rest are in front of the
    split. -/
theorem mem_of_precedes {width height : Nat} {done todo : List (Nat × Nat)} {c a : Nat × Nat}
    (hsplit : done ++ c :: todo = coordinates width height) (ha : a ∈ coordinates width height)
    (hbefore : Precedes a c) : a ∈ done := by
  have horder := pairwise_coordinates width height
  rw [← hsplit] at horder ha
  -- What is behind the split comes after `c`, so nothing in front of `c` is there.
  have hafter := (List.pairwise_append.mp horder).2.1
  rcases List.mem_append.mp ha with hdone | hrest
  · exact hdone
  · rcases List.mem_cons.mp hrest with heq | htodo
    · rw [heq] at hbefore
      exact (Precedes.irrefl _ hbefore).elim
    · exact (hbefore.asymm ((List.pairwise_cons.mp hafter).1 _ htodo)).elim

/-- In an image that is made from a source, a pixel that already is what it comes to. -/
def Written (f : Pixel → Except Error Pixel) (source out : Image) (x y : Nat) : Prop :=
  ∃ p, f (source.pixel x y) = .ok p ∧ out.get x y = p.rgba

/-- Writing what a pixel comes to makes it written. -/
theorem written_set_self {f : Pixel → Except Error Pixel} {source out : Image} {x y : Nat}
    {p : Pixel} (hx : x < out.width) (hy : y < out.height) (hp : f (source.pixel x y) = .ok p) :
    Written f source (out.set x y p.rgba) x y :=
  ⟨p, hp, get_set_self out hx hy p.rgba⟩

/-- Writing what a pixel comes to leaves all pixels written that were so. A pixel that is written
    again is the same as before. -/
theorem Written.set {f : Pixel → Except Error Pixel} {source out : Image} {x y x' y' : Nat}
    {p : Pixel} (hx : x < out.width) (hy : y < out.height) (hx' : x' < out.width)
    (hp : f (source.pixel x y) = .ok p) (h : Written f source out x' y') :
    Written f source (out.set x y p.rgba) x' y' := by
  by_cases heq : (x, y) = (x', y')
  · cases heq
    exact written_set_self hx hy hp
  · rcases h with ⟨q, hq, hget⟩
    refine ⟨q, hq, ?_⟩
    rw [get_set_of_ne out hx hx' heq]
    exact hget

/-- What a source comes to, pixel by pixel: an image of the same size with every pixel as the
    function has it, or the error of the first pixel for which the function has one. -/
inductive Transforms (f : Pixel → Except Error Pixel) (source : Image) : Except Error Image → Prop
  | image (out : Image) (width_eq : out.width = source.width)
      (height_eq : out.height = source.height)
      (written : ∀ x y, x < source.width → y < source.height → Written f source out x y) :
      Transforms f source (.ok out)
  | failure (x y : Nat) (e : Error) (hx : x < source.width) (hy : y < source.height)
      (fails : f (source.pixel x y) = .error e)
      (first : ∀ x' y', x' < source.width → Precedes (x', y') (x, y) →
        ∃ p, f (source.pixel x' y') = .ok p) :
      Transforms f source (.error e)

namespace Transforms

variable {f : Pixel → Except Error Pixel} {source : Image}

/-- An image in which everything is written leaves no room for an error. -/
theorem not_both {out : Image} {e : Error}
    (hw : ∀ x y, x < source.width → y < source.height → Written f source out x y) {x y : Nat}
    (hx : x < source.width) (hy : y < source.height) (hfail : f (source.pixel x y) = .error e) :
    False := by
  rcases hw x y hx hy with ⟨p, hp, _⟩
  rw [hp] at hfail
  cases hfail

/-- An image comes to one thing. -/
theorem unique {r r' : Except Error Image} (h : Transforms f source r)
    (h' : Transforms f source r') : r = r' := by
  cases h with
  | image out hwidth hheight hw =>
      cases h' with
      | image out' hwidth' hheight' hw' =>
          -- Both images have the one pixel that the function gives at each coordinate.
          have hsame : out = out' := by
            refine ext_get (hwidth.trans hwidth'.symm) (hheight.trans hheight'.symm) ?_
            intro x y hx hy
            rw [hwidth] at hx
            rw [hheight] at hy
            rcases hw x y hx hy with ⟨p, hp, hget⟩
            rcases hw' x y hx hy with ⟨p', hp', hget'⟩
            rw [hp] at hp'
            cases hp'
            rw [hget, hget']
          rw [hsame]
      | failure x y e hx hy hfail _ => exact (not_both hw hx hy hfail).elim
  | failure x y e hx hy hfail hfirst =>
      cases h' with
      | image out' _ _ hw' => exact (not_both hw' hx hy hfail).elim
      | failure x' y' e' hx' hy' hfail' hfirst' =>
          -- Of two failures that are both the first, neither can come before the other.
          rcases Precedes.total (x, y) (x', y') with hlt | heq | hlt
          · rcases hfirst' x y hx hlt with ⟨p, hp⟩
            rw [hp] at hfail
            cases hfail
          · cases heq
            rw [hfail] at hfail'
            cases hfail'
            rfl
          · rcases hfirst x' y' hx' hlt with ⟨p, hp⟩
            rw [hp] at hfail'
            cases hfail'

end Transforms

end Image

/-- A task that does to each pixel what a function says, as long as it has a good sandbox, and
    leaves a good one. -/
structure Task.Computes {ρ : Type} (task : Task ρ) (f : Pixel → Except Error Pixel)
    (good : ρ → Prop) : Prop where
  outcome : ∀ sandbox p, good sandbox → (task.invoke sandbox p).1 = f p
  keeps : ∀ sandbox p, good sandbox → good (task.invoke sandbox p).2

namespace Effect

variable {ρ : Type} {task : Task ρ} {f : Pixel → Except Error Pixel} {good : ρ → Prop}

/-- The rest of a sweep. What it is on says that the coordinates it has left are those after the
    ones it has done, and that all of the latter are written. -/
theorem sweep_rest (hc : task.Computes f good) {session : Session}
    (hflag : CancelFlag.Unset session.cancel) (todo : List (Nat × Nat)) :
    ∀ (done : List (Nat × Nat)) (sandbox : ρ) (out : Image),
      done ++ todo = Image.coordinates task.source.width task.source.height →
      good sandbox → out.width = task.source.width → out.height = task.source.height →
      (∀ x y, (x, y) ∈ done → Image.Written f task.source out x y) →
      task.source.Transforms f ((sweep task todo sandbox out).outcome session) := by
  induction todo with
  | nil =>
      intro done sandbox out hsplit _ hwidth hheight hwritten
      -- Nothing is left, so the coordinates that are done are all of them.
      rw [List.append_nil] at hsplit
      refine .image out hwidth hheight fun x y hx hy => hwritten x y ?_
      rw [hsplit]
      exact Image.mem_coordinates.mpr ⟨hx, hy⟩
  | cons c todo ih =>
      intro done sandbox out hsplit hgood hwidth hheight hwritten
      rcases c with ⟨x, y⟩
      have hinside : x < task.source.width ∧ y < task.source.height := by
        apply Image.mem_coordinates.mp
        rw [← hsplit]
        exact List.mem_append_right done List.mem_cons_self
      -- The sandbox is good, so its answer is what the pixel comes to.
      have hresult := hc.outcome sandbox (task.source.pixel x y) hgood
      have hstays := hc.keeps sandbox (task.source.pixel x y) hgood
      rcases hinv : task.invoke sandbox (task.source.pixel x y) with ⟨result, sandbox'⟩
      rw [hinv] at hresult hstays
      rw [sweep, Operation.outcome_bind (Operation.checkCancel_unset hflag), hinv]
      cases result with
      | ok p =>
          have hp : f (task.source.pixel x y) = .ok p := hresult.symm
          have hx : x < out.width := by rw [hwidth]; exact hinside.1
          have hy : y < out.height := by rw [hheight]; exact hinside.2
          -- The pixel is written now, so it joins those that are done.
          refine ih (done ++ [(x, y)]) sandbox' _ (by simpa using hsplit) hstays hwidth hheight ?_
          intro x' y' hmem
          rcases List.mem_append.mp hmem with hdone | hnew
          · have hcoord : (x', y') ∈ Image.coordinates task.source.width task.source.height := by
              rw [← hsplit]
              exact List.mem_append_left _ hdone
            have hx' : x' < out.width := by
              rw [hwidth]
              exact (Image.mem_coordinates.mp hcoord).1
            exact (hwritten x' y' hdone).set hx hy hx' hp
          · cases List.mem_singleton.mp hnew
            exact Image.written_set_self hx hy hp
      | error e =>
          -- All coordinates before this one are done, so none of them has a failure.
          refine .failure x y e hinside.1 hinside.2 hresult.symm fun x' y' hx' hbefore => ?_
          have hy' : y' < task.source.height := by
            have hrow : y' < y ∨ y' = y ∧ x' < x := hbefore
            omega
          have hdone := Image.mem_of_precedes hsplit (Image.mem_coordinates.mpr ⟨hx', hy'⟩) hbefore
          rcases hwritten x' y' hdone with ⟨p, hp, _⟩
          exact ⟨p, hp⟩

/-- The sequential sweep gives what the image comes to. -/
theorem sweep_transforms (hc : task.Computes f good) {session : Session}
    (hflag : CancelFlag.Unset session.cancel) {sandbox : ρ} (hgood : good sandbox) :
    task.source.Transforms f
      ((sweep task (Image.coordinates task.source.width task.source.height) sandbox
        (.blank task.source.width task.source.height)).outcome session) :=
  sweep_rest hc hflag _ [] sandbox _ rfl hgood rfl rfl fun _ _ h => (List.not_mem_nil h).elim

end Effect

end PixelEffects
