import PixelEffects.Package.Metadata
import PixelEffects.Proofs.Text.Lines

/-!
# Metadata of Joint Texts

What a text says as metadata that goes on where another one ended.

Lines are taken in one after the other, and each of them does one thing: it adds to a list, or it
puts a text in the place of another. So if the same lines are taken in twice, once on top of nothing
and once on top of what other lines left, the two drafts differ in a simple way all along. The lists
of the second have in front what was there before. A text is the same in both from the line on that
gives it, and is what it was until then.

A list that was left open makes one difference. There the second draft takes items, where the first
one refuses them. It does not matter for lines that are taken in on top of nothing without an error.

## Main definitions

* `MetadataLine.Says`, `HasLine`: Lines with a key.
* `Replaces`: A text that is put in the place of another, or not.
* `Draft.Over`: What is on top of a draft, and the draft on top of nothing.
* `Metadata.Joined`: The metadata of two texts as that of one.

## Theorems

* `Draft.addAll?_append`, `Draft.addAll?_append_error`: Lines that go on behind other lines.
* `Draft.Over.add`, `Draft.Over.addAll`: A line, or lines, on top of a draft.
* `Metadata.joined_finish`: The metadata of a draft on top of another.
* `Metadata.parse_append`: The metadata of a text that goes on behind a line.
-/

namespace PixelEffects

/-- A line that gives a value for a key. -/
def MetadataLine.Says (key : MetadataKey) (raw : List Char) : Prop :=
  ∃ value, MetadataLine.read raw = .entry key value

/-- There is a line with a key. -/
def HasLine (key : MetadataKey) (lines : List (List Char)) : Prop :=
  ∃ raw ∈ lines, MetadataLine.Says key raw

/-- A value is the new one if it is replaced, and the old one if it is not. -/
def Replaces {α : Type} (replaced : Prop) (new old value : α) : Prop :=
  (replaced → value = new) ∧ (¬ replaced → value = old)

namespace Replaces

variable {α β : Type} {replaced also : Prop} {new old value : α}

theorem never (h : ¬ replaced) (new old : α) : Replaces replaced new old old :=
  ⟨fun hreplaced => absurd hreplaced h, fun _ => rfl⟩

/-- A value that is given now is the new one. -/
theorem now (h : also) (new old : α) : Replaces (replaced ∨ also) new old new :=
  ⟨fun _ => rfl, fun hnot => absurd (.inr h) hnot⟩

/-- A value that is not given now stays what it was. -/
theorem later (h : Replaces replaced new old value) (hnot : ¬ also) :
    Replaces (replaced ∨ also) new old value :=
  ⟨fun hreplaced => h.1 (hreplaced.resolve_right hnot), fun hneither => h.2 (hneither ∘ .inl)⟩

theorem map (h : Replaces replaced new old value) (f : α → β) :
    Replaces replaced (f new) (f old) (f value) :=
  ⟨fun hreplaced => congrArg f (h.1 hreplaced), fun hnot => congrArg f (h.2 hnot)⟩

end Replaces

namespace Draft

/-! ## Lines behind other lines -/

theorem addAll?_append {d d' : Draft} {number : Nat} {lines : List (List Char)}
    (h : d.addAll? number lines = .ok d') (rest : List (List Char)) :
    d.addAll? number (lines ++ rest) = d'.addAll? (number + lines.length) rest := by
  induction lines generalizing d number with
  | nil =>
      cases h
      rfl
  | cons raw lines ih =>
      rw [addAll?] at h
      rw [List.cons_append, addAll?, List.length_cons, Nat.add_comm lines.length, ← Nat.add_assoc]
      cases hadd : d.add? number raw with
      | ok between =>
          rw [hadd] at h
          exact ih h
      | error cause =>
          rw [hadd] at h
          cases h

theorem addAll?_append_error {d : Draft} {number : Nat} {lines : List (List Char)}
    {cause : PackageCause} (h : d.addAll? number lines = .error cause)
    (rest : List (List Char)) : d.addAll? number (lines ++ rest) = .error cause := by
  induction lines generalizing d number with
  | nil => cases h
  | cons raw lines ih =>
      rw [addAll?] at h
      rw [List.cons_append, addAll?]
      cases hadd : d.add? number raw with
      | ok between =>
          rw [hadd] at h
          exact ih h
      | error cause' =>
          rw [hadd] at h
          exact h

/-! ## Lines on top of a draft -/

/-- A draft that some lines make out of nothing, and the one that they make out of a base. Of the
    keys, those are given that the lines have. -/
structure Over (base : Draft) (given : MetadataKey → Prop) (alone d : Draft) : Prop where
  preload : d.preload = base.preload ++ alone.preload
  withoutFiles : d.files = none ↔ base.files = none ∧ alone.files = none
  files : d.files.getD [] = base.files.getD [] ++ alone.files.getD []
  openList : ∀ key, alone.openList = some key → d.openList = some key
  name : Replaces (given .name) alone.name base.name d.name
  version : Replaces (given .version) alone.version base.version d.version
  author : Replaces (given .author) alone.author base.author d.author
  description : Replaces (given .description) alone.description base.description d.description

namespace Over

variable {base alone alone' d : Draft} {given : MetadataKey → Prop}

/-- Before the first line nothing is given. -/
theorem start (base : Draft) : Over base (fun _ => False) empty base where
  preload := (List.append_nil _).symm
  withoutFiles := (and_iff_left rfl).symm
  files := (List.append_nil _).symm
  openList := fun _ h => nomatch h
  name := .never id _ _
  version := .never id _ _
  author := .never id _ _
  description := .never id _ _

theorem extend (h : Over base given alone d) (key : ListKey) (items : List String) :
    Over base given (alone.extend key items) (d.extend key items) := by
  cases key with
  | preload =>
      refine { h with preload := ?_ }
      show d.preload ++ items = base.preload ++ (alone.preload ++ items)
      rw [h.preload, List.append_assoc]
  | files =>
      refine { h with withoutFiles := ?_, files := ?_ }
      · exact iff_of_false (Option.some_ne_none _) fun hnone => Option.some_ne_none _ hnone.2
      · show d.files.getD [] ++ items = base.files.getD [] ++ (alone.files.getD [] ++ items)
        rw [h.files, List.append_assoc]

/-- Another list is open, or none, in both of the drafts. -/
theorem withOpen (h : Over base given alone d) (key : Option ListKey) :
    Over base given { alone with openList := key } { d with openList := key } :=
  { h with openList := fun _ hkey => hkey }

/-- Keys that no text is kept for are given. -/
theorem weaken {also : MetadataKey → Prop} (h : Over base given alone d)
    (hname : ¬ also .name) (hversion : ¬ also .version) (hauthor : ¬ also .author)
    (hdescription : ¬ also .description) : Over base (fun k => given k ∨ also k) alone d :=
  { h with
    name := h.name.later hname
    version := h.version.later hversion
    author := h.author.later hauthor
    description := h.description.later hdescription }

theorem addEntry (h : Over base given alone d) (key : MetadataKey) (value : List Char) :
    Over base (fun k => given k ∨ k = key) (alone.addEntry key value) (d.addEntry key value) := by
  -- Whatever the key is, the list that was open is closed.
  have hclosed := h.withOpen none
  cases key with
  | name =>
      exact { hclosed with
        name := .now rfl _ _
        version := h.version.later nofun
        author := h.author.later nofun
        description := h.description.later nofun }
  | version =>
      exact { hclosed with
        name := h.name.later nofun
        version := .now rfl _ _
        author := h.author.later nofun
        description := h.description.later nofun }
  | author =>
      exact { hclosed with
        name := h.name.later nofun
        version := h.version.later nofun
        author := .now rfl _ _
        description := h.description.later nofun }
  | description =>
      exact { hclosed with
        name := h.name.later nofun
        version := h.version.later nofun
        author := h.author.later nofun
        description := .now rfl _ _ }
  | list key =>
      refine weaken ?_ nofun nofun nofun nofun
      unfold Draft.addEntry
      dsimp only
      split
      · exact (hclosed.extend key []).withOpen (some key)
      · exact hclosed.extend key _
  | unknown => exact hclosed.weaken nofun nofun nofun nofun

/-- By what the line says. -/
theorem add (h : Over base given alone d) {number : Nat} {raw : List Char}
    (hadd : alone.add? number raw = .ok alone') (number' : Nat) :
    ∃ d', d.add? number' raw = .ok d' ∧
      Over base (fun k => given k ∨ MetadataLine.Says k raw) alone' d' := by
  have hnot : (∀ key value, MetadataLine.read raw ≠ .entry key value) →
      ∀ k, ¬ MetadataLine.Says k raw := fun hne k hgives => hne k _ hgives.choose_spec
  unfold add? at hadd ⊢
  cases hread : MetadataLine.read raw with
  | nothing =>
      rw [hread] at hadd
      cases hadd
      have hnone := hnot fun _ _ heq => by rw [hread] at heq; cases heq
      exact ⟨d, rfl, h.weaken (hnone _) (hnone _) (hnone _) (hnone _)⟩
  | item text =>
      rw [hread] at hadd
      have hnone := hnot fun _ _ heq => by rw [hread] at heq; cases heq
      cases hopen : alone.openList with
      | none =>
          rw [hopen] at hadd
          cases hadd
      | some key =>
          rw [hopen] at hadd
          cases hadd
          rw [h.openList key hopen]
          exact ⟨_, rfl, (h.extend key _).weaken (hnone _) (hnone _) (hnone _) (hnone _)⟩
  | entry key value =>
      rw [hread] at hadd
      cases hadd
      have honly : ∀ k, MetadataLine.Says k raw ↔ k = key := fun k => by
        unfold MetadataLine.Says
        rw [hread]
        exact ⟨fun ⟨_, heq⟩ => by cases heq; rfl, fun heq => ⟨value, by rw [heq]⟩⟩
      simp only [honly]
      exact ⟨_, rfl, h.addEntry key value⟩
  | other text =>
      rw [hread] at hadd
      cases hadd

/-- By induction on the lines, with what is given by those before. -/
theorem addAll (h : Over base given alone d) {number : Nat} {lines : List (List Char)}
    (hadd : alone.addAll? number lines = .ok alone') (number' : Nat) :
    ∃ d', d.addAll? number' lines = .ok d' ∧
      Over base (fun k => given k ∨ HasLine k lines) alone' d' := by
  induction lines generalizing alone d given number number' with
  | nil =>
      cases hadd
      have hnone : ∀ k, ¬ HasLine k [] := fun k ⟨_, hraw, _⟩ => List.not_mem_nil hraw
      exact ⟨d, rfl, h.weaken (hnone _) (hnone _) (hnone _) (hnone _)⟩
  | cons raw lines ih =>
      rw [addAll?] at hadd
      cases hfirst : alone.add? number raw with
      | error cause =>
          rw [hfirst] at hadd
          cases hadd
      | ok between =>
          rw [hfirst] at hadd
          rcases h.add hfirst number' with ⟨d', hd, hover⟩
          rcases ih hover hadd (number' + 1) with ⟨d'', hd', hover'⟩
          refine ⟨d'', ?_, ?_⟩
          · rw [addAll?, hd]
            exact hd'
          · have hcons : ∀ k, HasLine k (raw :: lines) ↔
                MetadataLine.Says k raw ∨ HasLine k lines := fun k => by
              simp only [HasLine, List.mem_cons, exists_eq_or_imp]
            simpa only [hcons, or_assoc] using hover'

end Over

end Draft

namespace Metadata

/-- The metadata of two texts as that of one. The second text has lines. -/
structure Joined (first second : Metadata) (lines : List (List Char)) (m : Metadata) : Prop where
  id : m.id = first.id
  preload : m.preload = first.preload ++ second.preload
  withoutFiles : m.files = none ↔ first.files = none ∧ second.files = none
  files : m.files.getD [] = first.files.getD [] ++ second.files.getD []
  name : Replaces (HasLine .name lines) second.name first.name m.name
  version : Replaces (HasLine .version lines) second.version first.version m.version
  author : Replaces (HasLine .author lines) second.author first.author m.author
  description :
    Replaces (HasLine .description lines) second.description first.description m.description

theorem parse_eq_ok {id text : String} {m : Metadata} (h : parse id text = .ok m) :
    ∃ d, Draft.empty.addAll? 1 (Text.lines text.toList) = .ok d ∧ m = d.finish id := by
  unfold parse at h
  split at h
  · next d hlines =>
      cases h
      exact ⟨d, hlines, rfl⟩
  · cases h

theorem parse_eq_error {id text : String} {e : Error} (h : parse id text = .error e) :
    ∃ cause, Draft.empty.addAll? 1 (Text.lines text.toList) = .error cause ∧
      e = .malformedPackage id cause := by
  unfold parse at h
  split at h
  · cases h
  · next cause hlines =>
      cases h
      exact ⟨cause, hlines, rfl⟩

/-- A draft on top of a finished one is finished in the same way. -/
theorem joined_finish {base alone d : Draft} {lines : List (List Char)}
    (h : Draft.Over base (HasLine · lines) alone d) (id : String) :
    Joined (base.finish id) (alone.finish id) lines (d.finish id) where
  id := rfl
  preload := h.preload
  withoutFiles := h.withoutFiles
  files := h.files
  name := h.name.map fun text => Draft.orElse text id
  version := h.version.map fun text => Draft.orElse text "0.0.0"
  author := h.author
  description := h.description

/-- A text that goes on behind a line is read in two parts. What is wrong with the first part is
    wrong with the whole. If nothing is wrong with either of them, there is nothing wrong with the
    whole, and its metadata is that of the parts together. -/
theorem parse_append (id : String) {front : String} (hfront : Text.EndsLine front.toList)
    (rest : String) :
    (∀ e, parse id front = .error e → parse id (front ++ rest) = .error e) ∧
    ∀ first second, parse id front = .ok first → parse id rest = .ok second →
      ∃ m, parse id (front ++ rest) = .ok m ∧
        Joined first second (Text.lines rest.toList) m := by
  have hlines : Text.lines (front ++ rest).toList =
      Text.lines front.toList ++ Text.lines rest.toList := by
    rw [String.toList_append, Text.lines_append hfront]
  refine ⟨fun e h => ?_, fun first second hfirst hsecond => ?_⟩
  · rcases parse_eq_error h with ⟨cause, hread, rfl⟩
    unfold parse
    rw [hlines, Draft.addAll?_append_error hread]
  · rcases parse_eq_ok hfirst with ⟨base, hbase, rfl⟩
    rcases parse_eq_ok hsecond with ⟨alone, halone, rfl⟩
    rcases (Draft.Over.start base).addAll halone (1 + (Text.lines front.toList).length) with
      ⟨d, hd, hover⟩
    refine ⟨d.finish id, ?_, joined_finish ?_ id⟩
    · unfold parse
      rw [hlines, Draft.addAll?_append hbase, hd]
    · simpa only [false_or] using hover

/-- A list that one part leaves open gets the items that the other one has for it, on a line that
    would be a list without it as well. -/
theorem parse_append_two_lists :
    Text.EndsLine "name: a\npreload:\n- b\n".toList ∧
      ∃ m, parse "p" ("name: a\npreload:\n- b\n" ++ "author: c\npreload: d\n") = .ok m ∧
        m.name = "a" ∧ m.author = "c" ∧ m.preload = ["b", "d"] := by
  have hfront : Text.EndsLine "name: a\npreload:\n- b\n".toList :=
    .inr ⟨"name: a\npreload:\n- b".toList, rfl⟩
  rcases (parse_append "p" hfront "author: c\npreload: d\n").2
      ⟨"p", "a", "0.0.0", "", "", ["b"], none⟩ ⟨"p", "p", "0.0.0", "c", "", ["d"], none⟩
      rfl rfl with ⟨m, hm, hjoined⟩
  refine ⟨hfront, m, hm, hjoined.name.2 ?_, hjoined.author.1 ?_, hjoined.preload⟩
  · rintro ⟨raw, hraw, value, hread⟩
    have hlines : Text.lines "author: c\npreload: d\n".toList =
        ["author: c".toList, "preload: d".toList] := rfl
    rw [hlines, List.mem_cons, List.mem_singleton] at hraw
    rcases hraw with rfl | rfl
    · cases hread
    · cases hread
  · exact ⟨"author: c".toList, List.mem_cons_self, "c".toList, rfl⟩

end Metadata

end PixelEffects
