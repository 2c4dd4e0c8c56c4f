import PixelEffects.FileTree.Path

/-!
# Paths to Entries

What a path means that ends in the name of an entry.

A path is put together as a text, and what it means is read off the text. When the text in front is
not empty and does not end with a slash, and what is joined to it is a name, then the two do not run
into each other: the joint path leads where the front leads, and from there to the name. It can be
joined to another name in the same way.

## Main definitions

* `Path.isName`: A text that can be the name of an entry, and leads nowhere else.
* `Path.IsPart`: A text that is one part of a path, whether it is a name or not.
* `Path.Closed`: A path to which names can be joined.

## Theorems

* `Path.parts_join`: A joint path leads along the front, and then to what was joined to it.
* `Path.closed_join`, `Path.isAbsolute_join`: What a joint path is.
-/

namespace PixelEffects

namespace Text

/-- The part that is being read is the front of the first part. -/
theorem splitFrom_of_not_mem {sep : Char} {cs : List Char} (h : sep ∉ cs) (part : List Char) :
    splitFrom sep part cs = [part.reverse ++ cs] := by
  induction cs generalizing part with
  | nil => rw [splitFrom, List.append_nil]
  | cons c cs ih =>
      rw [List.mem_cons, not_or] at h
      have hne : (c == sep) = false := beq_false_of_ne (Ne.symm h.1)
      rw [splitFrom, hne, if_neg Bool.false_ne_true, ih h.2, List.reverse_cons, List.append_assoc,
        List.singleton_append]

theorem splitAll_of_not_mem {sep : Char} {cs : List Char} (h : sep ∉ cs) :
    splitAll sep cs = [cs] :=
  splitFrom_of_not_mem h []

theorem splitFrom_append (sep : Char) (part front rest : List Char) :
    splitFrom sep part (front ++ sep :: rest) =
      splitFrom sep part front ++ splitAll sep rest := by
  induction front generalizing part with
  | nil =>
      rw [List.nil_append, splitFrom, splitFrom, BEq.rfl, if_pos rfl]
      rfl
  | cons c front ih =>
      rw [List.cons_append, splitFrom, splitFrom]
      split
      · rw [ih, List.cons_append]
      · exact ih (c :: part)

/-- The parts of two texts with the character between them. -/
theorem splitAll_append (sep : Char) (front rest : List Char) :
    splitAll sep (front ++ sep :: rest) = splitAll sep front ++ splitAll sep rest :=
  splitFrom_append sep [] front rest

end Text

namespace Path

/-- Whether a text can be the name of an entry of a directory, and leads nowhere but to it. -/
def isName (name : String) : Bool :=
  name != "" && name != "." && name != ".." && !name.toList.contains '/'

/-- A path to which a name can be joined without a change of either: there is something in it, and
    it does not end with a slash. -/
def Closed (p : Path) : Prop :=
  p ≠ "" ∧ endsOpen p = false

theorem isName_iff {name : String} :
    isName name = true ↔ name ≠ "" ∧ name ≠ "." ∧ name ≠ ".." ∧ '/' ∉ name.toList := by
  unfold isName
  simp only [Bool.and_eq_true, bne_iff_ne, Bool.not_eq_true', and_assoc,
    ← Bool.not_eq_true, List.contains_iff_mem]

/-- A text that is one part of a path: there is something in it, and no slash. Names are parts, and
    so are the points that say to stay or to go up. -/
def IsPart (name : String) : Prop :=
  name ≠ "" ∧ '/' ∉ name.toList

theorem isPart_of_isName {name : String} (h : isName name = true) : IsPart name := by
  rcases isName_iff.mp h with ⟨hempty, _, _, hslash⟩
  exact ⟨hempty, hslash⟩

theorem IsPart.isAbsolute_eq {name : String} (h : IsPart name) : isAbsolute name = false := by
  have hslash := h.2
  unfold isAbsolute
  cases hchars : name.toList with
  | nil => rfl
  | cons c cs =>
      rw [hchars, List.mem_cons, not_or] at hslash
      exact beq_false_of_ne fun hsome => hslash.1 (Option.some.inj hsome).symm

theorem isAbsolute_of_isName {name : String} (h : isName name = true) : isAbsolute name = false :=
  (isPart_of_isName h).isAbsolute_eq

theorem endsOpen_of_not_mem {name : String} (h : '/' ∉ name.toList) : endsOpen name = false := by
  unfold endsOpen
  refine beq_false_of_ne fun hlast => h (List.mem_of_getLast? hlast)

variable {p : Path} {name : String}

/-- A joint path as a text. -/
theorem join_of_closed (hp : p.Closed) (hpart : IsPart name) :
    join p name = p ++ "/" ++ name := by
  unfold join
  rw [hpart.isAbsolute_eq, if_neg Bool.false_ne_true, hp.2, Bool.or_false, if_neg]
  exact fun hempty => hp.1 (String.isEmpty_iff.mp hempty)

theorem toList_join (hp : p.Closed) (hpart : IsPart name) :
    (join p name).toList = p.toList ++ '/' :: name.toList := by
  rw [join_of_closed hp hpart, String.toList_append, String.toList_append, List.append_assoc]
  rfl

theorem endsOpen_join (hp : p.Closed) (hpart : IsPart name) :
    endsOpen (join p name) = false := by
  have hempty := hpart.1
  have hslash := hpart.2
  have hne : name.toList ≠ [] := fun h => hempty (String.toList_eq_nil_iff.mp h)
  unfold endsOpen
  rw [toList_join hp hpart, List.append_cons, List.getLast?_append,
    List.getLast?_eq_some_getLast hne, Option.some_or, ← List.getLast?_eq_some_getLast hne]
  exact endsOpen_of_not_mem hslash

/-- More can be joined to a joint path. -/
theorem closed_join (hp : p.Closed) (hpart : IsPart name) : (join p name).Closed := by
  refine ⟨fun hempty => ?_, endsOpen_join hp hpart⟩
  have hchars := toList_join hp hpart
  rw [hempty] at hchars
  cases hnil : p.toList with
  | nil => exact hp.1 (String.toList_eq_nil_iff.mp hnil)
  | cons c cs =>
      rw [hnil] at hchars
      cases hchars

theorem isAbsolute_join (hp : p.Closed) (hpart : IsPart name) :
    isAbsolute (join p name) = isAbsolute p := by
  unfold isAbsolute
  rw [toList_join hp hpart]
  cases hchars : p.toList with
  | nil => exact (hp.1 (String.toList_eq_nil_iff.mp hchars)).elim
  | cons c cs => rfl

/-- A joint path leads along the front, and then to what was joined to it. -/
theorem parts_join (hp : p.Closed) (hpart : IsPart name) :
    parts (join p name) = parts p ++ [name] := by
  have hempty := hpart.1
  have hslash := hpart.2
  have hne : name.toList.isEmpty = false := by
    rw [List.isEmpty_eq_false_iff]
    exact fun h => hempty (String.toList_eq_nil_iff.mp h)
  unfold parts
  dsimp only
  rw [endsOpen_join hp hpart, hp.2, Bool.false_and, if_neg Bool.false_ne_true, Bool.false_and,
    if_neg Bool.false_ne_true, toList_join hp hpart, Text.splitAll_append,
    Text.splitAll_of_not_mem hslash, List.filter_append, List.map_append]
  congr 1
  rw [List.filter_cons, hne, List.filter_nil, Bool.not_false, if_pos rfl, List.map_singleton,
    String.ofList_toList]

end Path

end PixelEffects
