import PixelEffects.Script.Library

/-!
# Values That Count as Numbers

What counts as a number, for operators between values and for library functions.

Three places decide that a text is as good as a number: operands, arguments, and the conversion that a
script asks for by name. They decide by the same rule, and each of them says something else about what
does not count.

## Main definitions

* `Value.asNumber?`: The number that a value counts as.
* `Value.converted`: That number as a value, or `nil`.

## Theorems

* `operand?_of_asNumber`, `Argument.number?_of_asNumber`: What counts as a number is taken as it.
* `operand?_eq_ok_iff`, `Argument.number?_eq_ok_iff`: Nothing else is.
* `Library.call_toNumber`: What the conversion gives.
-/

namespace PixelEffects

namespace Script

/-- The number that a value counts as: a number does, and a text that reads as one. -/
def Value.asNumber? : Value → Option Float
  | .number x => some x
  | .text s => readNumber? s
  | _ => none

/-- What a script gets for a value when it asks for a number. -/
def Value.converted (v : Value) : Value :=
  v.asNumber?.elim .nil .number

theorem Value.converted_of_asNumber {v : Value} {x : Float} (h : v.asNumber? = some x) :
    v.converted = .number x := by
  unfold Value.converted
  rw [h]
  rfl

theorem Value.converted_ne_nil_iff {v : Value} : v.converted ≠ .nil ↔ ∃ x, v.asNumber? = some x := by
  unfold Value.converted
  cases v.asNumber? with
  | none => exact ⟨fun h => absurd rfl h, nofun⟩
  | some x => exact ⟨fun _ => ⟨x, rfl⟩, fun _ => nofun⟩

section Takes

variable {b : Builtin} {args : List Value} {i : Nat} {v : Value} {x : Float}

/-! ## Operands -/

theorem operand?_of_asNumber (h : v.asNumber? = some x) : operand? v = .ok x := by
  cases v with
  | number y =>
      cases h
      rfl
  | text s =>
      have hread : readNumber? s = some x := h
      simp only [operand?, hread]
  | _ => cases h

theorem operand?_of_not_asNumber (h : v.asNumber? = none) : ∃ cause, operand? v = .error cause := by
  cases v with
  | number y => cases h
  | text s =>
      have hread : readNumber? s = none := h
      simp only [operand?, hread]
      exact ⟨_, rfl⟩
  | _ => exact ⟨_, rfl⟩

theorem operand?_eq_ok_iff : operand? v = .ok x ↔ v.asNumber? = some x := by
  refine ⟨fun h => ?_, operand?_of_asNumber⟩
  cases hnumber : v.asNumber? with
  | none =>
      rcases operand?_of_not_asNumber hnumber with ⟨cause, hcause⟩
      rw [hcause] at h
      cases h
  | some y =>
      rw [operand?_of_asNumber hnumber] at h
      cases h
      rfl

/-! ## Arguments -/

namespace Argument

theorem number?_of_asNumber (hv : args[i]? = some v) (h : v.asNumber? = some x) :
    number? b args i = .ok x := by
  unfold number?
  rw [hv]
  cases v with
  | number y =>
      cases h
      rfl
  | text s =>
      have hread : readNumber? s = some x := h
      simp only [hread]
  | _ => cases h

theorem number?_of_not_asNumber (hv : args[i]? = some v) (h : v.asNumber? = none) :
    ∃ cause, number? b args i = .error cause := by
  unfold number?
  rw [hv]
  cases v with
  | number y => cases h
  | text s =>
      have hread : readNumber? s = none := h
      simp only [hread]
      exact ⟨_, rfl⟩
  | _ => exact ⟨_, rfl⟩

theorem number?_of_missing (hv : args[i]? = none) : ∃ cause, number? b args i = .error cause := by
  unfold number?
  rw [hv]
  exact ⟨_, rfl⟩

theorem isGiven_of_asNumber (hv : args[i]? = some v) (h : v.asNumber? = some x) :
    isGiven args i = true := by
  unfold isGiven value
  rw [hv]
  cases v with
  | nil => cases h
  | _ => rfl

/-- An argument is taken as a number if it is there and counts as one. -/
theorem number?_eq_ok_iff : number? b args i = .ok x ↔ args[i]?.bind Value.asNumber? = some x := by
  cases hv : args[i]? with
  | none =>
      rcases number?_of_missing (b := b) hv with ⟨cause, hcause⟩
      rw [hcause, Option.bind_none]
      exact ⟨nofun, nofun⟩
  | some v =>
      rw [Option.bind_some]
      cases hnumber : v.asNumber? with
      | none =>
          rcases number?_of_not_asNumber (b := b) hv hnumber with ⟨cause, hcause⟩
          rw [hcause]
          exact ⟨nofun, nofun⟩
      | some y =>
          rw [number?_of_asNumber hv hnumber, Except.ok.injEq, Option.some.injEq]

end Argument

end Takes

/-! ## The conversion -/

/-- The conversion gives the number that a value counts as, and `nil` if there is none. -/
theorem Library.call_toNumber (address : Addressing) (v : Value) (rest : List Value) (heap : Heap) :
    Library.call address .toNumber (v :: rest) heap = .ok [v.converted] heap := by
  cases v <;> rfl

end Script

end PixelEffects
