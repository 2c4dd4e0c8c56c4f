import PixelEffects.Proofs.Script.Library.Texts
import PixelEffects.Proofs.Script.Vocabulary

/-!
# Library Functions and Vocabularies

Library functions keep a vocabulary, those of them that it has.

Most of them give numbers, or values that were in a table or among the arguments. A traversal gives the
keys of a table as well. The others make texts: what they join and repeat they check, and what becomes
of a text in another case, of a part of one, and of a format is what a vocabulary has to answer for.

## Main definitions

* `Vocabulary.Answers`: Library functions that keep a vocabulary.

## Theorems

* `Vocabulary.text_of_joinFrom`, `Vocabulary.text_of_repeated?`: Texts that are joined and repeated.
* `Vocabulary.call_answers`: All library functions.
-/

namespace PixelEffects

namespace Script

variable {address : Addressing} {α β : Type}

/-- A computation on tables that keeps a vocabulary, with a result that has a property. -/
def Vocabulary.Answers (V : Vocabulary address) (Q : α → Prop) (c : Library.Call α) : Prop :=
  ∀ heap, V.AdmitsHeap heap → EndsIn V.AdmitsHeap Q (c heap)

namespace Vocabulary

variable {V : Vocabulary address}

/-! ## Texts that are made -/

theorem text_of_joinFrom {separator built r : String} {i : Nat} {vs : List Value}
    (hseparator : V.text separator = true) (hbuilt : V.text built = true) (hvs : V.AdmitsAll vs)
    (h : Library.joinFrom separator i built vs = .ok r) : V.text r = true := by
  induction vs generalizing i built with
  | nil =>
      cases h
      exact hbuilt
  | cons v vs ih =>
      rw [Library.joinFrom] at h
      cases hpiece : v.joinable? with
      | none =>
          rw [hpiece] at h
          cases h
      | some piece =>
          rw [hpiece] at h
          dsimp only at h
          have htext := text_of_joinable? hvs.head hpiece
          -- A piece that fits in is short enough itself, with its separator.
          have hpart : ∀ part, part = separator ++ piece ∨ part = piece →
              (if built.utf8ByteSize + part.utf8ByteSize > maxTextLength then .error .textTooLong
                else Library.joinFrom separator (i + 1) (built ++ part) vs) = Except.ok r →
              V.text r = true := by
            intro part hpart hrest
            split at hrest
            · cases hrest
            · next hfits =>
                have htextPart : V.text part = true := by
                  rcases hpart with rfl | rfl
                  · exact V.append hseparator htext (by omega)
                  · exact htext
                refine ih ?_ hvs.tail hrest
                refine V.append hbuilt htextPart ?_
                rw [String.utf8ByteSize_append]
                omega
          by_cases hi : i > 1
          · rw [if_pos hi] at h
            exact hpart _ (.inl rfl) h
          · rw [if_neg hi] at h
            exact hpart _ (.inr rfl) h

theorem text_of_repeated? {s r : String} {n : Nat} (hs : V.text s = true)
    (h : Texts.repeated? s n = .ok r) : V.text r = true := by
  have hcopies : ∀ n, (String.join (List.replicate n s)).utf8ByteSize ≤ maxTextLength →
      V.text (String.join (List.replicate n s)) = true := by
    intro n
    induction n with
    | zero => exact fun _ => V.empty
    | succ n ih =>
        intro hfits
        rw [List.replicate_succ, String.join_cons] at hfits ⊢
        refine V.append hs (ih ?_) hfits
        rw [String.utf8ByteSize_append] at hfits
        omega
  rw [Texts.repeated?_eq] at h
  split at h
  · next hfits =>
      cases h
      exact hcopies n hfits
  · cases h

/-! ## Arguments -/

section Arguments

variable {args : List Value}

theorem admits_value (hargs : V.AdmitsAll args) (i : Nat) : V.Admits (Argument.value args i) := by
  unfold Argument.value
  cases harg : args[i]? with
  | none => exact admits_nil
  | some v => exact hargs v (List.mem_of_getElem? harg)

theorem text_of_text? (hargs : V.AdmitsAll args) {b : Builtin} {i : Nat} {s : String}
    (h : Argument.text? b args i = .ok s) : V.text s = true := by
  rcases Texts.text?_cases h with harg | ⟨x, rfl⟩
  · exact hargs _ harg
  · exact admits_display (v := .number x) trivial

theorem ne_globals_of_table? (hargs : V.AdmitsAll args) {b : Builtin} {i : Nat} {id : TableId}
    (h : Argument.table? b args i = .ok id) : id ≠ Machine.globals := by
  unfold Argument.table? at h
  split at h
  · next harg =>
      cases h
      exact hargs _ (List.mem_of_getElem? harg)
  · cases h
  · cases h

end Arguments

/-! ## Computations on tables -/

namespace Answers

variable {P : α → Prop} {Q : β → Prop}

theorem pure {a : α} (ha : P a) : V.Answers P (pure a : Library.Call α) :=
  fun _ hheap => .ok hheap ha

theorem bind {c : Library.Call α} {f : α → Library.Call β} (hc : V.Answers P c)
    (hf : ∀ a, P a → V.Answers Q (f a)) : V.Answers Q (c >>= f) := by
  intro heap hheap
  have hfirst := hc heap hheap
  simp only [Bind.bind, EStateM.bind]
  generalize c heap = r at hfirst
  cases hfirst with
  | ok hheap' ha => exact hf _ ha _ hheap'
  | error hheap' => exact .error hheap'

theorem refuse (cause : LibraryCause) : V.Answers P (Library.refuse cause : Library.Call α) :=
  fun _ hheap => .error hheap

theorem take {r : Except LibraryCause α} (hr : ∀ a, r = .ok a → P a) :
    V.Answers P (Library.take r) := by
  cases r with
  | ok a => exact pure (hr a rfl)
  | error cause => exact refuse cause

theorem tableAt {id : TableId} (hid : id ≠ Machine.globals) :
    V.Answers V.AdmitsTable (Library.tableAt id) :=
  fun _ hheap => .ok hheap (hheap.tables id hid)

theorem change {id : TableId} {f : Table → Table} (hid : id ≠ Machine.globals)
    (hf : ∀ t, V.AdmitsTable t → V.AdmitsTable (f t)) :
    V.Answers (fun _ => True) (Library.change id f) :=
  fun _ hheap => .ok (hheap.update hid hf) trivial

/-- Arguments that are taken for what they are when it does not matter which they are. -/
theorem takeAny {r : Except LibraryCause α} : V.Answers (fun _ => True) (Library.take r) :=
  take fun _ _ => trivial

end Answers

/-! ## Functions -/

section Functions

variable {args : List Value} (hargs : V.AdmitsAll args)

include hargs

theorem text_answers (b : Builtin) (i : Nat) :
    V.Answers (fun s => V.text s = true) (Library.take (Argument.text? b args i)) :=
  .take fun _ => text_of_text? hargs

theorem table_answers (b : Builtin) (i : Nat) :
    V.Answers (· ≠ Machine.globals) (Library.take (Argument.table? b args i)) :=
  .take fun _ => ne_globals_of_table? hargs

theorem assert_answers : V.Answers V.AdmitsAll (Library.assert address args) := by
  unfold Library.assert
  split
  · exact .pure hargs
  · split <;> exact .refuse _

theorem select_answers : V.Answers V.AdmitsAll (Library.select args) := by
  unfold Library.select
  split
  · exact .pure (AdmitsAll.one trivial)
  · refine Answers.takeAny.bind fun x _ => ?_
    dsimp only
    split
    · exact .take fun _ h => by cases h
    · exact .pure fun v hv => hargs v (List.mem_of_mem_drop hv)

/-- A traversal gives keys back as values. -/
theorem next_answers : V.Answers V.AdmitsAll (Library.next args) := by
  refine (table_answers hargs _ 0).bind fun id hid => Answers.takeAny.bind fun after _ => ?_
  refine (Answers.tableAt hid).bind fun t ht => ?_
  split
  · cases hentry : t.next? after with
    | none => exact .pure (AdmitsAll.one admits_nil)
    | some entry =>
        rcases entry with ⟨k, v⟩
        rcases Table.get_of_next? hentry with ⟨rfl, hk⟩
        exact .pure ((AdmitsAll.one (ht.entries k)).cons (ht.keys k hk))
  · exact .refuse _

theorem ipairsStep_answers : V.Answers V.AdmitsAll (Library.ipairsStep args) := by
  refine (table_answers hargs _ 0).bind fun id hid => Answers.takeAny.bind fun i _ => ?_
  refine (Answers.tableAt hid).bind fun t ht => ?_
  dsimp only
  split
  · exact .pure (AdmitsAll.one admits_nil)
  · exact .pure ((AdmitsAll.one (ht.entries _)).cons trivial)

theorem sub_answers (hsub : V.function .sub = true) : V.Answers V.AdmitsAll (Library.sub args) := by
  refine (text_answers hargs _ 0).bind fun s hs => ?_
  dsimp only
  split
  · exact Answers.takeAny.bind fun j _ => .pure (AdmitsAll.one (V.sub hsub _ _ hs))
  · exact .pure (AdmitsAll.one (V.sub hsub _ _ hs))

theorem insert_answers : V.Answers V.AdmitsAll (Library.insert args) := by
  refine (table_answers hargs _ 0).bind fun id hid => ?_
  refine (Answers.tableAt hid).bind fun t _ => ?_
  dsimp only
  split
  · next v =>
      have hv := hargs v (.tail _ (.head _))
      refine (Answers.change hid fun t ht => ?_).bind fun _ _ => .pure AdmitsAll.nil
      exact ht.set (admits_position _) hv
  · next v =>
      have hv := hargs v (.tail _ (.tail _ (.head _)))
      refine Answers.takeAny.bind fun x _ => ?_
      split
      · exact .take fun _ h => by cases h
      · refine (Answers.change hid fun t ht => ?_).bind fun _ _ => .pure AdmitsAll.nil
        exact ht.insertAt _ _ hv
  · exact .refuse _

theorem concat_answers : V.Answers V.AdmitsAll (Library.concat args) := by
  refine (table_answers hargs _ 0).bind fun id hid => ?_
  have hjoined : ∀ separator, V.text separator = true → V.Answers V.AdmitsAll (do
      let t ← Library.tableAt id
      let joined ← Library.take (Library.joinFrom separator 1 "" (t.values t.length))
      pure [.text joined]) := by
    intro separator hseparator
    refine (Answers.tableAt hid).bind fun t ht => ?_
    refine Answers.bind (P := fun s => V.text s = true) (.take fun joined hjoined => ?_)
      fun joined hjoined => .pure (AdmitsAll.one hjoined)
    exact text_of_joinFrom hseparator V.empty (ht.values _) hjoined
  dsimp only
  split
  · exact (text_answers hargs _ 1).bind hjoined
  · exact hjoined "" V.empty

theorem unpack_answers : V.Answers V.AdmitsAll (Library.unpack args) := by
  refine (table_answers hargs _ 0).bind fun id hid => ?_
  exact (Answers.tableAt hid).bind fun t ht => .pure (ht.values _)

theorem format_answers (hformat : V.function .format = true) :
    V.Answers V.AdmitsAll (do pure [.text (← Library.take (Texts.format? address args))]) := by
  refine Answers.bind (P := fun s => V.text s = true) (.take fun r hr => ?_)
    fun r hr => .pure (AdmitsAll.one hr)
  refine V.format hformat (fun v hv s hs => ?_) hr
  have hv' := hargs v hv
  rw [hs] at hv'
  exact hv'

theorem rep_answers : V.Answers V.AdmitsAll (do
    let s ← Library.take (Argument.text? .rep args 0)
    let n := Number.toCount (← Library.take (Argument.number? .rep args 1))
    pure [.text (← Library.take (Texts.repeated? s n))]) := by
  refine (text_answers hargs _ 0).bind fun s hs => Answers.takeAny.bind fun n _ => ?_
  exact Answers.bind (P := fun s => V.text s = true) (.take fun r hr => text_of_repeated? hs hr)
    fun r hr => .pure (AdmitsAll.one hr)

end Functions

/-- Numbers are of every vocabulary. -/
theorem numeric_answers (b : Builtin) (f : Float → Float) (args : List Value) :
    V.Answers V.AdmitsAll (Library.numeric b f args) :=
  Answers.takeAny.bind fun _ _ => .pure (AdmitsAll.one trivial)

theorem logarithm_answers (args : List Value) : V.Answers V.AdmitsAll (Library.logarithm args) := by
  refine Answers.takeAny.bind fun x _ => ?_
  split
  · exact Answers.takeAny.bind fun base _ => .pure (AdmitsAll.one trivial)
  · exact .pure (AdmitsAll.one trivial)

theorem extremum_answers (b : Builtin) (isAsGood : Float → Float → Bool) (args : List Value) :
    V.Answers V.AdmitsAll (Library.extremum b isAsGood args) :=
  Answers.takeAny.bind fun _ _ => Answers.takeAny.bind fun _ _ => .pure (AdmitsAll.one trivial)

/-- Every library function of a vocabulary keeps it. -/
theorem call_answers {b : Builtin} {args : List Value} (hb : V.function b = true)
    (hargs : V.AdmitsAll args) : V.Answers V.AdmitsAll (Library.call address b args) := by
  cases b with
  | assert => exact assert_answers hargs
  | error => exact .refuse _
  | type => exact .pure (AdmitsAll.one (V.typeName _))
  | toText => exact .pure (AdmitsAll.one (admits_display (admits_value hargs 0)))
  | toNumber =>
      refine .pure (AdmitsAll.one ?_)
      split
      · trivial
      · next s _ =>
          cases readNumber? s with
          | none => trivial
          | some x => trivial
      · trivial
  | select => exact select_answers hargs
  | pairs =>
      refine (table_answers hargs _ 0).bind fun id hid => .pure ?_
      have htable : V.Admits (.table id) := hid
      exact ((AdmitsAll.one admits_nil).cons htable).cons V.next
  | next => exact next_answers hargs
  | ipairs =>
      refine (table_answers hargs _ 0).bind fun id hid => .pure ?_
      have htable : V.Admits (.table id) := hid
      exact ((AdmitsAll.one (admits_number 0)).cons htable).cons V.ipairsStep
  | ipairsStep => exact ipairsStep_answers hargs
  | abs | ceil | cos | exp | floor | sin | sqrt | tan => exact numeric_answers _ _ args
  | log => exact logarithm_answers args
  | fmod =>
      exact Answers.takeAny.bind fun _ _ => Answers.takeAny.bind fun _ _ =>
        .pure (AdmitsAll.one trivial)
  | max | min => exact extremum_answers _ _ args
  | len => exact Answers.takeAny.bind fun _ _ => .pure (AdmitsAll.one trivial)
  | lower => exact (text_answers hargs _ 0).bind fun _ hs => .pure (AdmitsAll.one (V.lower hb hs))
  | upper => exact (text_answers hargs _ 0).bind fun _ hs => .pure (AdmitsAll.one (V.upper hb hs))
  | rep => exact rep_answers hargs
  | sub => exact sub_answers hargs hb
  | format => exact format_answers hargs hb
  | insert => exact insert_answers hargs
  | concat => exact concat_answers hargs
  | unpack => exact unpack_answers hargs

end Vocabulary

end Script

end PixelEffects
