import PixelEffects.Error

/-!
# Steps That May Fail

What is known of several steps, of which the first that fails is the end.

## Theorems

* `bind_eq_ok`, `bind_eq_error`: Two steps.
* `toOption_eq_some`: A result, as an option.
* `mem_of_mapM`, `error_of_mapM`: The same step for all elements of a list.
* `error_of_foldlM`: Steps along a list.
-/

namespace PixelEffects

variable {ε α β : Type}

/-- Two steps that have a result together: both have one. -/
theorem bind_eq_ok {x : Except ε α} {f : α → Except ε β} {b : β} (h : x >>= f = .ok b) :
    ∃ a, x = .ok a ∧ f a = .ok b := by
  cases x with
  | error e => cases h
  | ok a => exact ⟨a, rfl, h⟩

/-- Two steps that fail together: the first one fails, or the second one does. -/
theorem bind_eq_error {x : Except ε α} {f : α → Except ε β} {e : ε} (h : x >>= f = .error e) :
    x = .error e ∨ ∃ a, x = .ok a ∧ f a = .error e := by
  cases x with
  | error e' =>
      cases h
      exact .inl rfl
  | ok a => exact .inr ⟨a, rfl, h⟩

theorem toOption_eq_some {x : Except ε α} {a : α} : x.toOption = some a ↔ x = .ok a := by
  cases x with
  | error e => constructor <;> (intro h; cases h)
  | ok a' => constructor <;> (intro h; cases h; rfl)

theorem mem_of_mapM {f : α → Except ε β} {items : List α} {results : List β}
    (h : items.mapM f = .ok results) {b : β} (hb : b ∈ results) : ∃ a ∈ items, f a = .ok b := by
  induction items generalizing results with
  | nil =>
      rw [List.mapM_nil] at h
      cases h
      cases hb
  | cons a items ih =>
      rw [List.mapM_cons] at h
      rcases bind_eq_ok h with ⟨first, hfirst, h⟩
      rcases bind_eq_ok h with ⟨others, hothers, h⟩
      cases h
      rcases List.mem_cons.mp hb with rfl | hb
      · exact ⟨a, List.mem_cons_self, hfirst⟩
      · rcases ih hothers hb with ⟨a', ha', hfound⟩
        exact ⟨a', List.mem_cons_of_mem a ha', hfound⟩

theorem error_of_mapM {f : α → Except ε β} {items : List α} {e : ε}
    (h : items.mapM f = .error e) : ∃ a ∈ items, f a = .error e := by
  induction items with
  | nil =>
      rw [List.mapM_nil] at h
      cases h
  | cons a items ih =>
      rw [List.mapM_cons] at h
      rcases bind_eq_error h with hfirst | ⟨first, _, h⟩
      · exact ⟨a, List.mem_cons_self, hfirst⟩
      · rcases bind_eq_error h with hothers | ⟨others, _, h⟩
        · rcases ih hothers with ⟨a', ha', hfailed⟩
          exact ⟨a', List.mem_cons_of_mem a ha', hfailed⟩
        · cases h

theorem error_of_foldlM {step : β → α → Except ε β} {items : List α} {b : β} {e : ε}
    (h : items.foldlM step b = .error e) : ∃ b a, a ∈ items ∧ step b a = .error e := by
  induction items generalizing b with
  | nil =>
      rw [List.foldlM_nil] at h
      cases h
  | cons a items ih =>
      rw [List.foldlM_cons] at h
      rcases bind_eq_error h with hfirst | ⟨b', _, hrest⟩
      · exact ⟨b, a, List.mem_cons_self, hfirst⟩
      · rcases ih hrest with ⟨b'', a', ha', hfailed⟩
        exact ⟨b'', a', List.mem_cons_of_mem a ha', hfailed⟩

end PixelEffects
