import PixelEffects.Proofs.Number.Digits
import PixelEffects.Proofs.Number.Truncate
import PixelEffects.Proofs.Script.Library.Argument
import PixelEffects.Proofs.Script.Library.Texts

/-!
# The Language of Formats

Which formats are accepted, and what they are filled in to.

A format is a text that is put together from elements. An element is a character that stands for
itself, a doubled percent sign, or a conversion, and the last two may have a precision between the
percent sign and what follows it. A text can be taken apart into elements in one way only, since what
follows the digits of a precision is not a digit.

Filling in goes through the elements from the left. A conversion takes the next of the arguments that
are given, and the others take none. What each of them puts out is independent of the rest, so the
result is what they put out one after the other. A conversion with which the result becomes too long is
refused.

The value of a precision is limited, but not by its digits. Where they are too many for 64 bits, it
counts as zero, and the format is accepted.

## Main definitions

* `Texts.Element`, `Texts.Element.written`: The elements of formats, and how they are written.
* `Texts.Element.IsProper`: Elements with precisions that are admitted.
* `Texts.pieces?`: What elements put out for the arguments that are given.
* `Texts.Fits`: Conversions never make the result too long.

## Theorems

* `Texts.precisionValue_eq`: The value of the digits of a precision.
* `Texts.written_inj`: A format has only one way to take it apart.
* `Texts.directive?_written`, `Texts.written_of_directive?`: Reading one element.
* `Texts.formatFrom?_eq_ok_iff`: Filling in elements from some point on.
* `format_accepts_iff`: Which formats are accepted, and what they are filled in to.
-/

namespace PixelEffects

namespace Script

namespace Texts

/-! ## Precisions -/

section Digits

open Numeral

variable {ds : List Char}

/-- A precision has the value of its digits, or none if that needs more than 64 bits. -/
theorem precisionValue_eq (hds : ∀ c ∈ ds, c.isDigit = true) :
    precisionValue ds = if digitsValue ds < 2 ^ 64 then digitsValue ds else 0 := by
  have hpow : Nat.pow 2 64 = 2 ^ 64 := rfl
  unfold precisionValue
  dsimp only
  rw [digitsValue_significant, hpow]
  split
  · next hlong => rw [if_neg (Nat.not_lt_of_le (le_digitsValue_of_long hds hlong))]
  · rfl

theorem spanDigits_append {c : Char} {rest : List Char} (hds : ∀ c ∈ ds, c.isDigit = true)
    (hc : c.isDigit = false) : spanDigits (ds ++ c :: rest) = (ds, c :: rest) := by
  unfold spanDigits
  rw [List.takeWhile_append_of_pos hds, List.dropWhile_append_of_pos hds,
    List.takeWhile_cons_of_neg (Bool.not_eq_true _ ▸ hc), List.append_nil,
    List.dropWhile_cons_of_neg (Bool.not_eq_true _ ▸ hc)]

end Digits

/-! ## Elements -/

/-- One element of a format as it is written, with the digits of its precision if it has one. -/
inductive Element
  | literal (c : Char)
  | percent (digits : Option (List Char))
  | convert (digits : Option (List Char)) (letter : Char)

/-- A precision as it is written. -/
def precisionWritten : Option (List Char) → List Char
  | none => []
  | some ds => '.' :: ds

/-- An element as it is written. -/
def Element.written : Element → List Char
  | .literal c => [c]
  | .percent digits => '%' :: (precisionWritten digits ++ ['%'])
  | .convert digits letter => '%' :: (precisionWritten digits ++ [letter])

/-- A precision of digits with a value that is admitted. -/
def IsPrecision (admits : Nat → Prop) (digits : Option (List Char)) : Prop :=
  ∀ ds ∈ digits, (∀ c ∈ ds, c.isDigit = true) ∧ admits (Numeral.digitsValue ds)

/-- The letters of conversions. -/
def letters : List Char :=
  ['d', 'i', 'x', 'f', 's']

/-- An element that belongs to the language of formats, if the values of precisions are those that are
    admitted. -/
def Element.IsProper (admits : Nat → Prop) : Element → Prop
  | .literal c => c ≠ '%'
  | .percent digits => IsPrecision admits digits
  | .convert digits letter => IsPrecision admits digits ∧ letter ∈ letters

/-- The values of precisions with which a format is accepted: those up to 99, and those for which 64
    bits are not enough. -/
def isAccepted (n : Nat) : Prop :=
  n ≤ 99 ∨ 2 ^ 64 ≤ n

variable {admits admits' : Nat → Prop} {digits digits' : Option (List Char)} {c c' : Char}
  {rest rest' : List Char}

/-- What follows a precision is neither a digit nor a point. -/
def EndsPrecision (c : Char) : Prop :=
  c.isDigit = false ∧ c ≠ '.'

theorem endsPrecision_percent : EndsPrecision '%' :=
  ⟨rfl, by decide⟩

theorem endsPrecision_letter (hc : c ∈ letters) : EndsPrecision c := by
  simp only [letters, List.mem_cons, List.not_mem_nil, or_false] at hc
  rcases hc with rfl | rfl | rfl | rfl | rfl <;> exact ⟨rfl, by decide⟩

/-- A precision is told from what follows it. -/
theorem precisionWritten_inj (hdigits : IsPrecision admits digits)
    (hdigits' : IsPrecision admits' digits') (hc : EndsPrecision c) (hc' : EndsPrecision c')
    (h : precisionWritten digits ++ c :: rest = precisionWritten digits' ++ c' :: rest') :
    digits = digits' ∧ c = c' ∧ rest = rest' := by
  cases digits with
  | none =>
      cases digits' with
      | none =>
          cases h
          exact ⟨rfl, rfl, rfl⟩
      | some ds' => exact absurd (List.cons.inj h).1 hc.2
  | some ds =>
      cases digits' with
      | none => exact absurd (List.cons.inj h).1.symm hc'.2
      | some ds' =>
          -- The digits end where the first character stands that is none, on both sides.
          have hspan := @spanDigits_append _ _ rest (hdigits ds rfl).1 hc.1
          have hspan' := @spanDigits_append _ _ rest' (hdigits' ds' rfl).1 hc'.1
          have hsame : ds ++ c :: rest = ds' ++ c' :: rest' := (List.cons.inj h).2
          rw [hsame, hspan'] at hspan
          cases hspan
          exact ⟨rfl, rfl, rfl⟩

/-- An element is told from what follows it. -/
theorem written_append_inj {e e' : Element} (he : e.IsProper admits) (he' : e'.IsProper admits')
    (h : e.written ++ rest = e'.written ++ rest') : e = e' ∧ rest = rest' := by
  have hmarked : ∀ {digits c digits' c'}, IsPrecision admits digits → IsPrecision admits' digits' →
      EndsPrecision c → EndsPrecision c' →
      '%' :: (precisionWritten digits ++ [c]) ++ rest =
        '%' :: (precisionWritten digits' ++ [c']) ++ rest' →
      digits = digits' ∧ c = c' ∧ rest = rest' := by
    intro digits c digits' c' hd hd' hc hc' h
    rw [List.cons_append, List.cons_append, List.append_assoc, List.append_assoc] at h
    exact precisionWritten_inj hd hd' hc hc' (List.cons.inj h).2
  have hpercent : '%' ∉ letters := by decide
  -- Kinds differ in their first character, or in the one that ends the precision.
  cases e with
  | literal c =>
      cases e' with
      | literal c' =>
          cases h
          exact ⟨rfl, rfl⟩
      | _ => exact absurd (List.cons.inj h).1 he
  | percent digits =>
      cases e' with
      | literal c' => exact absurd (List.cons.inj h).1.symm he'
      | percent digits' =>
          rcases hmarked he he' endsPrecision_percent endsPrecision_percent h with ⟨rfl, -, rfl⟩
          exact ⟨rfl, rfl⟩
      | convert digits' letter' =>
          rcases hmarked he he'.1 endsPrecision_percent (endsPrecision_letter he'.2) h with ⟨-, rfl, -⟩
          exact absurd he'.2 hpercent
  | convert digits letter =>
      cases e' with
      | literal c' => exact absurd (List.cons.inj h).1.symm he'
      | percent digits' =>
          rcases hmarked he.1 he' (endsPrecision_letter he.2) endsPrecision_percent h with ⟨-, rfl, -⟩
          exact absurd he.2 hpercent
      | convert digits' letter' =>
          rcases hmarked he.1 he'.1 (endsPrecision_letter he.2) (endsPrecision_letter he'.2) h with
            ⟨rfl, rfl, rfl⟩
          exact ⟨rfl, rfl⟩

theorem written_ne_nil (e : Element) : e.written ≠ [] := by
  cases e <;> exact List.cons_ne_nil _ _

/-- A format has only one way to take it apart. -/
theorem written_inj {es es' : List Element} (hes : ∀ e ∈ es, e.IsProper admits)
    (hes' : ∀ e ∈ es', e.IsProper admits')
    (h : es.flatMap Element.written = es'.flatMap Element.written) : es = es' := by
  induction es generalizing es' with
  | nil =>
      cases es' with
      | nil => rfl
      | cons e' es' => exact absurd (List.append_eq_nil_iff.mp h.symm).1 (written_ne_nil e')
  | cons e es ih =>
      cases es' with
      | nil => exact absurd (List.append_eq_nil_iff.mp h).1 (written_ne_nil e)
      | cons e' es' =>
          rw [List.forall_mem_cons] at hes hes'
          rcases written_append_inj hes.1 hes'.1 h with ⟨rfl, hrest⟩
          rw [ih hes.2 hes'.2 hrest]

/-! ## Reading an element -/

/-- What an element is read as. -/
def Element.directive : Element → Directive
  | .literal c => .literal c
  | .percent _ => .percent
  | .convert digits letter =>
    .convert ((Conversion.ofLetter? letter).getD .display) (digits.map precisionValue)

theorem precisionValue_le_iff {ds : List Char} (hds : ∀ c ∈ ds, c.isDigit = true) :
    precisionValue ds ≤ 99 ↔ isAccepted (Numeral.digitsValue ds) := by
  rw [precisionValue_eq hds]
  unfold isAccepted
  split <;> omega

theorem precision?_written (hdigits : IsPrecision isAccepted digits) (hc : EndsPrecision c) :
    precision? (precisionWritten digits ++ c :: rest) =
      .ok (digits.map precisionValue, c :: rest) := by
  cases digits with
  | none =>
      show precision? (c :: rest) = _
      unfold precision?
      split
      · next heq => exact absurd (List.cons.inj heq).1 hc.2
      · rfl
  | some ds =>
      have hds := (hdigits ds rfl).1
      have hsmall := (precisionValue_le_iff hds).mpr (hdigits ds rfl).2
      show precision? ('.' :: (ds ++ c :: rest)) = _
      simp only [precision?, spanDigits_append hds hc.1]
      rw [if_neg (Nat.not_lt_of_le hsmall)]
      rfl

theorem written_of_precision? {cs : List Char} {precision : Option Nat}
    (h : precision? cs = .ok (precision, rest)) :
    ∃ digits, IsPrecision isAccepted digits ∧ cs = precisionWritten digits ++ rest ∧
      precision = digits.map precisionValue := by
  unfold precision? at h
  split at h
  · next cs =>
      have hds : ∀ c ∈ cs.takeWhile Char.isDigit, c.isDigit = true :=
        fun c hc => List.mem_takeWhile_imp hc
      dsimp only [Numeral.spanDigits] at h
      split at h
      · cases h
      · next hsmall =>
          cases h
          refine ⟨some (cs.takeWhile Char.isDigit), ?_, ?_, rfl⟩
          · rintro ds ⟨⟩
            exact ⟨hds, (precisionValue_le_iff hds).mp (Nat.le_of_not_lt hsmall)⟩
          · exact congrArg ('.' :: ·) (List.takeWhile_append_dropWhile).symm
  · cases h
    refine ⟨none, ?_, rfl, rfl⟩
    rintro _ ⟨⟩

theorem mem_letters_of_ofLetter? {conversion : Conversion}
    (h : Conversion.ofLetter? c = some conversion) : c ∈ letters := by
  unfold Conversion.ofLetter? at h
  split at h
  case h_6 => cases h
  all_goals decide

theorem ofLetter?_of_mem_letters (h : c ∈ letters) :
    Conversion.ofLetter? c = some ((Conversion.ofLetter? c).getD .display) := by
  simp only [letters, List.mem_cons, List.not_mem_nil, or_false] at h
  rcases h with rfl | rfl | rfl | rfl | rfl <;> rfl

/-- What follows a percent sign, once its precision is read. -/
theorem marked?_written (hdigits : IsPrecision isAccepted digits) (hc : EndsPrecision c) :
    marked? (precisionWritten digits ++ [c] ++ rest) =
      if c == '%' then .ok (.percent, rest)
      else match Conversion.ofLetter? c with
        | some conversion => .ok (.convert conversion (digits.map precisionValue), rest)
        | none => .error (.conversion (some c)) := by
  unfold marked?
  rw [List.append_assoc, List.singleton_append, precision?_written hdigits hc]
  rfl

/-- An element is read as what it is written for. -/
theorem directive?_written {e : Element} (he : e.IsProper isAccepted) (rest : List Char) :
    ∃ c cs, e.written ++ rest = c :: cs ∧ directive? c cs = .ok (e.directive, rest) := by
  cases e with
  | literal c =>
      refine ⟨c, rest, rfl, ?_⟩
      unfold directive?
      rw [if_neg (mt beq_iff_eq.mp he)]
      rfl
  | percent digits =>
      refine ⟨'%', _, rfl, ?_⟩
      show marked? (precisionWritten digits ++ ['%'] ++ rest) = _
      rw [marked?_written he endsPrecision_percent]
      rfl
  | convert digits letter =>
      have hpercent : (letter == '%') = false := beq_false_of_ne fun h => by
        rw [h] at he
        exact absurd he.2 (by decide)
      refine ⟨'%', _, rfl, ?_⟩
      show marked? (precisionWritten digits ++ [letter] ++ rest) = _
      rw [marked?_written he.1 (endsPrecision_letter he.2), hpercent, if_neg Bool.false_ne_true,
        ofLetter?_of_mem_letters he.2]
      rfl

/-- What is read as an element is written as one. -/
theorem written_of_directive? {cs : List Char} {d : Directive} (h : directive? c cs = .ok (d, rest)) :
    ∃ e : Element, e.IsProper isAccepted ∧ c :: cs = e.written ++ rest := by
  unfold directive? at h
  split at h
  · next hpercent =>
      rw [beq_iff_eq] at hpercent
      subst hpercent
      -- Behind a percent sign there is a precision, perhaps an empty one, and then one character.
      unfold marked? at h
      cases hprecision : precision? cs with
      | error cause =>
          rw [hprecision] at h
          cases h
      | ok found =>
          rcases found with ⟨precision, behind⟩
          rcases written_of_precision? hprecision with ⟨digits, hdigits, rfl, -⟩
          rw [hprecision] at h
          cases behind with
          | nil => cases h
          | cons letter behind =>
              simp only [bind, Except.bind] at h
              split at h
              · next hdouble =>
                  rw [beq_iff_eq] at hdouble
                  subst hdouble
                  cases h
                  exact ⟨.percent digits, hdigits, by simp [Element.written]⟩
              · split at h
                · next conversion hletter =>
                    cases h
                    exact ⟨.convert digits letter, ⟨hdigits, mem_letters_of_ofLetter? hletter⟩,
                      by simp [Element.written]⟩
                · cases h
  · next hliteral =>
      cases h
      exact ⟨.literal c, fun heq => hliteral (beq_iff_eq.mpr heq), rfl⟩

/-! ## Filling in -/

/-- The places that a precision asks for, six without one. -/
def placesOf (digits : Option (List Char)) : Nat :=
  digits.elim 6 fun ds => if Numeral.digitsValue ds ≤ 99 then Numeral.digitsValue ds else 0

/-- What a conversion puts out for the argument that it takes, if there is one. All letters but one ask
    for a number. -/
def convertedBy? (address : Addressing) (digits : Option (List Char)) (letter : Char)
    (v : Option Value) : Option String :=
  match letter with
  | 'd' | 'i' => (v.bind Value.asNumber?).map fun x => Numeral.ofInt x.toModel.toInt64.toInt
  | 'x' => (v.bind Value.asNumber?).map fun x => hexText x.toModel.toInt64.toInt
  | 'f' => (v.bind Value.asNumber?).map fun x => Numeral.fixed (placesOf digits) x
  | 's' => some ((v.getD .nil).display address)
  | _ => none

/-- What an element puts out, given the next argument. -/
def Element.piece? (address : Addressing) (v : Option Value) : Element → Option String
  | .literal c => some (String.singleton c)
  | .percent _ => some "%"
  | .convert digits letter => convertedBy? address digits letter v

/-- Whether an element takes an argument. -/
def Element.takesArgument : Element → Bool
  | .convert _ _ => true
  | _ => false

/-- What elements put out for the arguments that are given, of which each conversion takes the next. -/
def pieces? (address : Addressing) : List Element → List Value → Option (List String)
  | [], _ => some []
  | e :: es, given => do
    let piece ← e.piece? address given.head?
    let pieces ← pieces? address es (if e.takesArgument then given.tail else given)
    pure (piece :: pieces)

/-- With none of the conversions does the result become too long, after what was built already. -/
def Fits (built : String) (es : List Element) (pieces : List String) : Prop :=
  ∀ n e, es[n]? = some e → e.takesArgument = true →
    (built ++ String.join (pieces.take (n + 1))).utf8ByteSize ≤ maxTextLength

variable {address : Addressing} {v : Value} {given : List Value} {i bound : Nat} {built r : String}
  {e : Element} {es : List Element} {p : String} {ps : List String}

theorem fits_cons : Fits built (e :: es) (p :: ps) ↔
    (e.takesArgument = true → (built ++ p).utf8ByteSize ≤ maxTextLength) ∧
      Fits (built ++ p) es ps := by
  constructor
  · intro h
    refine ⟨fun he => ?_, fun n e' hn he' => ?_⟩
    · simpa using h 0 e rfl he
    · simpa [String.append_assoc] using h (n + 1) e' hn he'
  · rintro ⟨hfirst, hothers⟩ n e' hn he'
    cases n with
    | zero =>
        cases hn
        simpa using hfirst he'
    | succ n => simpa [String.append_assoc] using hothers n e' hn he'

theorem placesOf_eq (hdigits : IsPrecision isAccepted digits) :
    (digits.map precisionValue).getD 6 = placesOf digits := by
  cases digits with
  | none => rfl
  | some ds =>
      have hvalue := (hdigits ds rfl).2
      show precisionValue ds = if Numeral.digitsValue ds ≤ 99 then Numeral.digitsValue ds else 0
      rw [precisionValue_eq (hdigits ds rfl).1]
      unfold isAccepted at hvalue
      split_ifs <;> omega

/-- The format is the first argument, and those that are given follow it. -/
theorem numberAt?_eq_ok_iff {x : Float} :
    numberAt? (v :: given) i = .ok x ↔ given[i]?.bind Value.asNumber? = some x := by
  unfold numberAt?
  rw [Argument.number?_eq_ok_iff, List.getElem?_cons_succ]

theorem numberAt?_bind_eq_ok_iff (f : Float → String) :
    (numberAt? (v :: given) i >>= fun x => pure (f x)) = .ok p ↔
      (given[i]?.bind Value.asNumber?).map f = some p := by
  cases hnumber : numberAt? (v :: given) i with
  | ok x =>
      rw [numberAt?_eq_ok_iff.mp hnumber, Option.map_some, Option.some.injEq]
      show (.ok (f x) : Except LibraryCause String) = .ok p ↔ f x = p
      rw [Except.ok.injEq]
  | error cause =>
      cases hx : given[i]?.bind Value.asNumber? with
      | none => exact ⟨nofun, nofun⟩
      | some x =>
          rw [numberAt?_eq_ok_iff.mpr hx] at hnumber
          cases hnumber

/-- What a conversion puts out. -/
theorem converted?_eq_ok_iff {letter : Char} (hdigits : IsPrecision isAccepted digits)
    (hletter : letter ∈ letters) :
    converted? address (v :: given) i ((Conversion.ofLetter? letter).getD .display)
      (digits.map precisionValue) = .ok p ↔ convertedBy? address digits letter given[i]? = some p := by
  have hinteger : ∀ x, Number.toInt64 x = x.toModel.toInt64.toInt := Number.toInt64_eq
  simp only [letters, List.mem_cons, List.not_mem_nil, or_false] at hletter
  rcases hletter with rfl | rfl | rfl | rfl | rfl
  · simp only [convertedBy?, ← hinteger]
    exact numberAt?_bind_eq_ok_iff _
  · simp only [convertedBy?, ← hinteger]
    exact numberAt?_bind_eq_ok_iff _
  · simp only [convertedBy?, ← hinteger]
    exact numberAt?_bind_eq_ok_iff _
  · simp only [convertedBy?, ← placesOf_eq hdigits]
    exact numberAt?_bind_eq_ok_iff _
  · have hvalue : Argument.value (v :: given) (i + 1) = given[i]?.getD .nil := rfl
    simp only [convertedBy?, ← hvalue, Option.some.injEq]
    exact Iff.of_eq (Except.ok.injEq _ _)

/-- Filling in an element and what follows it. -/
theorem formatFrom?_written (he : e.IsProper isAccepted) (rest : List Char) :
    formatFrom? address (v :: given) (bound + 1) built i (e.written ++ rest) = .ok r ↔
      ∃ p, e.piece? address given[i]? = some p ∧
        (e.takesArgument = true → (built ++ p).utf8ByteSize ≤ maxTextLength) ∧
        formatFrom? address (v :: given) bound (built ++ p)
          (if e.takesArgument then i + 1 else i) rest = .ok r := by
  rcases directive?_written he rest with ⟨c, cs, hwritten, hdirective⟩
  rw [hwritten, formatFrom?, hdirective]
  -- Elements without an argument put out one character, whatever the length.
  have hplain : ∀ c, formatFrom? address (v :: given) bound (built.push c) i rest = .ok r ↔
      ∃ p, some (String.singleton c) = some p ∧
        (false = true → (built ++ p).utf8ByteSize ≤ maxTextLength) ∧
        formatFrom? address (v :: given) bound (built ++ p) i rest = .ok r := by
    intro c
    rw [← String.append_singleton]
    constructor
    · intro h
      exact ⟨_, rfl, fun hfalse => absurd hfalse Bool.false_ne_true, h⟩
    · rintro ⟨_, ⟨⟩, _, h⟩
      exact h
  cases e with
  | literal c => exact hplain c
  | percent digits => exact hplain '%'
  | convert digits letter =>
      have hpiece : ∀ p, convertedBy? address digits letter given[i]? = some p ↔
          converted? address (v :: given) i ((Conversion.ofLetter? letter).getD .display)
            (digits.map precisionValue) = .ok p :=
        fun p => (converted?_eq_ok_iff he.1 he.2).symm
      simp only [bind, Except.bind, Element.directive, Element.piece?, Element.takesArgument, if_true,
        hpiece]
      cases hconverted : converted? address (v :: given) i
          ((Conversion.ofLetter? letter).getD .display) (digits.map precisionValue) with
      | error cause =>
          constructor
          · rintro ⟨⟩
          · rintro ⟨_, ⟨⟩, _⟩
      | ok piece =>
          dsimp only
          split
          · next hlong =>
              constructor
              · rintro ⟨⟩
              · rintro ⟨_, ⟨⟩, hfits, _⟩
                exact absurd (hfits trivial) (Nat.not_le_of_lt hlong)
          · next hfits =>
              constructor
              · intro h
                exact ⟨_, rfl, fun _ => Nat.le_of_not_lt hfits, h⟩
              · rintro ⟨_, ⟨⟩, _, h⟩
                exact h

theorem pieces?_cons_eq_some_iff : pieces? address (e :: es) given = some ps ↔
    ∃ p ps', e.piece? address given.head? = some p ∧
      pieces? address es (if e.takesArgument then given.tail else given) = some ps' ∧
      ps = p :: ps' := by
  simp only [pieces?, Option.bind_eq_bind, Option.bind_eq_some_iff, Option.pure_def,
    Option.some.injEq, eq_comm (a := ps)]
  constructor
  · rintro ⟨p, hp, ps', hps', h⟩
    exact ⟨p, ps', hp, hps', h⟩
  · rintro ⟨p, ps', hp, hps', h⟩
    exact ⟨p, hp, ps', hps', h⟩

theorem formatFrom?_nil {args : List Value} :
    formatFrom? address args bound built i [] = .ok built := by
  cases bound <;> simp only [formatFrom?]

/-- Elements with what they put out, and with a result that is made of it after what was built already. -/
def IsFilled (address : Addressing) (given : List Value) (built : String) (cs : List Char)
    (r : String) : Prop :=
  ∃ es ps, (∀ e ∈ es, e.IsProper isAccepted) ∧ cs = es.flatMap Element.written ∧
    pieces? address es given = some ps ∧ Fits built es ps ∧ r = built ++ String.join ps

theorem isFilled_nil : IsFilled address given built [] r ↔ r = built := by
  constructor
  · rintro ⟨es, ps, -, hes, hps, -, hr⟩
    cases es with
    | nil =>
        cases hps
        rw [hr, String.join_nil, String.append_empty]
    | cons e es => exact absurd (List.append_eq_nil_iff.mp hes.symm).1 (written_ne_nil e)
  · rintro rfl
    exact ⟨[], [], nofun, rfl, rfl, nofun, by rw [String.join_nil, String.append_empty]⟩

/-- What an element is filled in to comes first, and what follows is filled in after it. -/
theorem isFilled_written (he : e.IsProper isAccepted) (rest : List Char) :
    IsFilled address given built (e.written ++ rest) r ↔
      ∃ p, e.piece? address given.head? = some p ∧
        (e.takesArgument = true → (built ++ p).utf8ByteSize ≤ maxTextLength) ∧
        IsFilled address (if e.takesArgument then given.tail else given) (built ++ p) rest r := by
  have hjoin : ∀ p ps, built ++ String.join (p :: ps) = built ++ p ++ String.join ps := by
    intro p ps
    rw [String.join_cons, String.append_assoc]
  constructor
  · rintro ⟨es, ps, hes, hcs, hps, hfits, rfl⟩
    cases es with
    | nil => exact absurd (List.append_eq_nil_iff.mp hcs).1 (written_ne_nil e)
    | cons e' es =>
        -- The first element can be no other one, and the others make up the rest.
        rw [List.forall_mem_cons] at hes
        rcases written_append_inj he hes.1 hcs with ⟨rfl, rfl⟩
        rcases pieces?_cons_eq_some_iff.mp hps with ⟨p, ps', hp, hps', rfl⟩
        rw [fits_cons] at hfits
        exact ⟨p, hp, hfits.1, es, ps', hes.2, rfl, hps', hfits.2, hjoin p ps'⟩
  · rintro ⟨p, hp, hfits, es, ps, hes, rfl, hps, hfits', rfl⟩
    exact ⟨e :: es, p :: ps, List.forall_mem_cons.mpr ⟨he, hes⟩, rfl,
      pieces?_cons_eq_some_iff.mpr ⟨p, ps, hp, hps, rfl⟩, fits_cons.mpr ⟨hfits, hfits'⟩,
      (hjoin p ps).symm⟩

/-- A format that is read to its end is put together from elements, and it is filled in if each
    conversion finds what it asks for. -/
theorem formatFrom?_eq_ok_iff {cs : List Char} (hbound : cs.length ≤ bound) :
    formatFrom? address (v :: given) bound built i cs = .ok r ↔
      IsFilled address (given.drop i) built cs r := by
  -- The induction is on the bound, which is that of the elements still to be read.
  induction bound generalizing built i cs with
  | zero =>
      rw [List.length_eq_zero_iff.mp (Nat.le_zero.mp hbound), formatFrom?_nil, isFilled_nil,
        Except.ok.injEq, eq_comm]
  | succ bound ih =>
      cases cs with
      | nil => rw [formatFrom?_nil, isFilled_nil, Except.ok.injEq, eq_comm]
      | cons c cs =>
          cases hdirective : directive? c cs with
          | error cause =>
              -- An element that stands here would have been read.
              rw [formatFrom?, hdirective]
              constructor
              · rintro ⟨⟩
              · rintro ⟨es, _, hes, hcs, _⟩
                cases es with
                | nil => cases hcs
                | cons e es =>
                    rcases directive?_written (hes e List.mem_cons_self)
                      (es.flatMap Element.written) with ⟨c', cs', hwritten, hread⟩
                    cases hcs.trans hwritten
                    rw [hread] at hdirective
                    cases hdirective
          | ok found =>
              rcases written_of_directive? hdirective with ⟨e, he, hcs⟩
              have hlength : found.2.length ≤ bound := by
                have hsum := congrArg List.length hcs
                have hpos := List.length_pos_iff.mpr (written_ne_nil e)
                rw [List.length_append] at hsum
                omega
              -- A conversion takes the argument at hand, and the next one takes the one behind it.
              have hdrop : ∀ p, IsFilled address (given.drop (if e.takesArgument then i + 1 else i))
                  (built ++ p) found.2 r ↔ IsFilled address
                    (if e.takesArgument then (given.drop i).tail else given.drop i) (built ++ p)
                    found.2 r := by
                intro p
                rw [List.tail_drop]
                split <;> exact Iff.rfl
              rw [hcs, formatFrom?_written he, isFilled_written he, List.head?_drop]
              simp only [ih hlength, hdrop]

/-- The conversions that ask for a number find one: each takes the argument that has its position among
    the conversions. -/
def FindNumbers (es : List Element) (given : List Value) : Prop :=
  ∀ (k : Nat) digits letter,
    (es.filter Element.takesArgument)[k]? = some (Element.convert digits letter) → letter ≠ 's' →
      ∃ x, given[k]?.bind Value.asNumber? = some x

theorem number_of_convertedBy? {letter : Char} {w : Option Value}
    (h : convertedBy? address digits letter w = some p) (hletter : letter ≠ 's') :
    ∃ x, w.bind Value.asNumber? = some x := by
  unfold convertedBy? at h
  split at h
  case h_5 => exact absurd rfl hletter
  case h_6 => cases h
  all_goals
    rcases Option.map_eq_some_iff.mp h with ⟨x, hx, -⟩
    exact ⟨x, hx⟩

theorem findNumbers_of_pieces? (hps : pieces? address es given = some ps) :
    FindNumbers es given := by
  induction es generalizing given ps with
  | nil =>
      intro k digits letter hk
      cases hk
  | cons e es ih =>
      rcases pieces?_cons_eq_some_iff.mp hps with ⟨p, ps', hp, hps', rfl⟩
      have hrest := ih hps'
      unfold FindNumbers at hrest ⊢
      rw [List.filter_cons]
      cases e with
      | literal c => exact hrest
      | percent digits => exact hrest
      | convert digits letter =>
          intro k digits' letter' hk hletter
          cases k with
          | zero =>
              cases hk
              rw [← List.head?_eq_getElem?]
              exact number_of_convertedBy? hp hletter
          | succ k =>
              have hnumber : ∃ x, given.tail[k]?.bind Value.asNumber? = some x :=
                hrest k digits' letter' hk hletter
              rwa [List.getElem?_tail] at hnumber

end Texts

/-- Filling in a format as a library function. -/
theorem Library.call_format (address : Addressing) (format : String) (given : List Value)
    (heap : Heap) : Library.call address .format (.text format :: given) heap =
      match Texts.formatFrom? address (.text format :: given) format.toList.length "" 0
          format.toList with
      | .ok r => .ok [.text r] heap
      | .error cause => .error cause heap := by
  show (Library.take (Texts.formatFrom? address (.text format :: given) format.toList.length "" 0
    format.toList) >>= fun r => pure [.text r] : Library.Call (List Value)) heap = _
  cases Texts.formatFrom? address (.text format :: given) format.toList.length "" 0
    format.toList <;> rfl

/-- A format is accepted if it is put together from elements with precisions that are admitted, if each
    conversion that asks for a number finds one among the arguments, and if none of them makes the
    result too long. The result is what the elements put out, one after the other. -/
theorem format_accepts_iff (address : Addressing) (format : String) (given : List Value)
    (heap : Heap) :
    (∀ r, Library.call address .format (.text format :: given) heap = .ok [.text r] heap ↔
      ∃ es ps, (∀ e ∈ es, e.IsProper Texts.isAccepted) ∧
        format.toList = es.flatMap Texts.Element.written ∧ Texts.FindNumbers es given ∧
        Texts.pieces? address es given = some ps ∧ Texts.Fits "" es ps ∧ r = String.join ps) ∧
    ((∀ r, Library.call address .format (.text format :: given) heap ≠ .ok [.text r] heap) →
      ∃ cause, Library.call address .format (.text format :: given) heap = .error cause heap) := by
  rw [Library.call_format]
  constructor
  · intro r
    have hfilled : Texts.formatFrom? address (.text format :: given) format.toList.length "" 0
          format.toList = .ok r ↔ Texts.IsFilled address given "" format.toList r :=
      Texts.formatFrom?_eq_ok_iff (Nat.le_refl _)
    unfold Texts.IsFilled at hfilled
    simp only [String.empty_append] at hfilled
    refine Iff.trans ?_ (hfilled.trans ?_)
    · cases Texts.formatFrom? address (.text format :: given) format.toList.length "" 0
        format.toList with
      | ok r' => simp
      | error cause => simp
    · constructor
      · rintro ⟨es, ps, hes, hcs, hps, hfits, hr⟩
        exact ⟨es, ps, hes, hcs, Texts.findNumbers_of_pieces? hps, hps, hfits, hr⟩
      · rintro ⟨es, ps, hes, hcs, -, hps, hfits, hr⟩
        exact ⟨es, ps, hes, hcs, hps, hfits, hr⟩
  · intro hnone
    cases hfrom : Texts.formatFrom? address (.text format :: given) format.toList.length "" 0
      format.toList with
    | ok r =>
        rw [hfrom] at hnone
        exact absurd rfl (hnone r)
    | error cause => exact ⟨cause, rfl⟩

/-- A precision that takes more than 64 bits is accepted, although it is above 99. -/
theorem format_accepts_long_precision :
    ¬ ∀ (address : Addressing) (format : String) (given : List Value) (heap : Heap) (r : String),
      Library.call address .format (.text format :: given) heap = .ok [.text r] heap →
        ∃ es : List Texts.Element, (∀ e ∈ es, e.IsProper (· ≤ 99)) ∧
          format.toList = es.flatMap Texts.Element.written := by
  intro h
  let digits := "18446744073709551616".toList
  have hok : ∀ {x : Except LibraryCause String}, x.toOption = some "2" → x = .ok "2" := by
    rintro (_ | r) h
    · cases h
    · rw [Option.some.inj h]
  have hformat : Texts.formatFrom? (fun _ => 0)
      [.text "%.18446744073709551616f", .number 1.5] "%.18446744073709551616f".toList.length "" 0
        "%.18446744073709551616f".toList = .ok "2" :=
    hok (by decide +kernel)
  have hrun : Library.call (fun _ => 0) .format
      [.text "%.18446744073709551616f", .number 1.5] #[] = .ok [.text "2"] #[] := by
    rw [Library.call_format, hformat]
  rcases h _ _ _ _ _ hrun with ⟨es, hes, hwritten⟩
  -- The format has one conversion, and no other way to take it apart.
  have hdigits : digits.all Char.isDigit = true := by decide +kernel
  have hone : ∀ e ∈ [Texts.Element.convert (some digits) 'f'], e.IsProper fun _ => True := by
    intro e he
    rw [List.mem_singleton.mp he]
    refine ⟨?_, by decide⟩
    rintro ds ⟨⟩
    exact ⟨List.all_eq_true.mp hdigits, trivial⟩
  have hsame := Texts.written_inj hone hes ((show _ = _ by decide +kernel).trans hwritten)
  rw [← hsame] at hes
  have hvalue : Numeral.digitsValue digits ≤ 99 := ((hes _ List.mem_cons_self).1 digits rfl).2
  exact absurd hvalue (by decide +kernel)

end Script

end PixelEffects
