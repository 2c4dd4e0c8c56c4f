import PixelEffects.Proofs.Script.Library.Argument
import PixelEffects.Proofs.Script.Plain

/-!
# Texts in Arithmetic

Where a text is as good as the number that it reads as.

An operator between two values and a mathematical function look at a value only to find the number
that it counts as. So a text can stand where a number is wanted if the conversion to numbers gives one,
and it makes no difference which of the two stands there. If the conversion gives `nil` the text is
refused. Negation is not of this kind: it takes numbers only.

What is to be seen of a mathematical function is at which positions it takes a number, since it ends
with a result if each of these holds one, and it sees nothing else of its arguments.

## Main definitions

* `BinaryOp.isArithmetic`: The operators that calculate.
* `Builtin.takesNumberAt`: The positions at which a mathematical function takes a number.
* `Library.Decides`: When a library function ends with results.
* `SameNumbers`: Arguments that hold the same numbers.

## Theorems

* `Library.decides_math`: When a mathematical function ends with results.
* `Library.call_math_congr`: What it sees of its arguments.
* `text_counts_as_converted`: A text stands for what it is converted to, except in a negation.
-/

namespace PixelEffects

namespace Script

/-! ## Operators -/

/-- Whether an operator calculates with numbers. -/
def BinaryOp.isArithmetic : BinaryOp → Bool
  | .add | .sub | .mul | .div | .floorDiv | .mod | .pow => true
  | _ => false

section Operators

variable {op : BinaryOp} {l r : Value}

theorem binary?_eq_calculated? (hop : op.isArithmetic = true) (l r : Value) :
    binary? op l r = calculated? op l r := by
  cases op with
  | add | sub | mul | div | floorDiv | mod | pow => rfl
  | _ => cases hop

/-- Calculating succeeds if both sides count as numbers. -/
theorem calculated?_isOk_iff :
    (∃ v, calculated? op l r = .ok v) ↔ (∃ x, l.asNumber? = some x) ∧ ∃ y, r.asNumber? = some y := by
  simp only [← operand?_eq_ok_iff]
  unfold calculated?
  cases operand? l with
  | error cause => simp [bind, Except.bind]
  | ok x =>
      cases operand? r with
      | error cause => simp [bind, Except.bind]
      | ok y => simp [bind, Except.bind, pure, Except.pure]

/-- Calculating sees nothing of its sides but what they count as. -/
theorem calculated?_congr {l' r' : Value} (hl : operand? l = operand? l')
    (hr : operand? r = operand? r') : calculated? op l r = calculated? op l' r' := by
  unfold calculated?
  rw [hl, hr]

end Operators

/-! ## Mathematical functions -/

/-- The positions at which a mathematical function takes a number. -/
def Builtin.takesNumberAt (args : List Value) (i : Nat) : Builtin → Prop
  | .fmod => i < 2
  | .log => i = 0 ∨ i = 1 ∧ Argument.isGiven args 1 = true
  | .max | .min => i = 0 ∨ i < args.length
  | _ => i = 0

/-- Arguments that hold the same numbers at the same positions. -/
structure SameNumbers (args args' : List Value) : Prop where
  length : args.length = args'.length
  given : ∀ i, Argument.isGiven args i = Argument.isGiven args' i
  number : ∀ b i, Argument.number? b args i = Argument.number? b args' i

/-- It makes no difference to replace an argument by the number that it counts as. -/
theorem sameNumbers_set {args : List Value} {i : Nat} {v : Value} {x : Float}
    (hv : args[i]? = some v) (hx : v.asNumber? = some x) :
    SameNumbers args (args.set i (.number x)) := by
  have hi : i < args.length := (List.getElem?_eq_some_iff.mp hv).1
  have hself : (args.set i (.number x))[i]? = some (.number x) := List.getElem?_set_self hi
  have hother : ∀ {j}, i ≠ j → (args.set i (.number x))[j]? = args[j]? :=
    fun hj => List.getElem?_set_ne hj
  refine ⟨List.length_set.symm, fun j => ?_, fun b j => ?_⟩
  · rcases eq_or_ne i j with rfl | hj
    · rw [Argument.isGiven_of_asNumber hv hx, Argument.isGiven_of_asNumber hself rfl]
    · unfold Argument.isGiven Argument.value
      rw [hother hj]
  · rcases eq_or_ne i j with rfl | hj
    · rw [Argument.number?_of_asNumber hv hx, Argument.number?_of_asNumber hself rfl]
    · unfold Argument.number?
      rw [hother hj]

namespace Library

/-- A library function that changes no table, and ends with results under a condition and with a cause
    otherwise. -/
def Decides (c : Call (List Value)) (P : Prop) : Prop :=
  ∀ heap, P ∧ (∃ vs, c heap = .ok vs heap) ∨ ¬P ∧ ∃ cause, c heap = .error cause heap

namespace Decides

variable {α : Type} {c : Call (List Value)} {P Q : Prop}

theorem of_iff (h : Decides c P) (hPQ : P ↔ Q) : Decides c Q := by
  rwa [← propext hPQ]

theorem pure (vs : List Value) : Decides (pure vs) True :=
  fun _ => .inl ⟨trivial, vs, rfl⟩

/-- What is taken first has to fit. -/
theorem take_bind {r : Except LibraryCause α} {f : α → Call (List Value)}
    (hf : ∀ a, Decides (f a) P) : Decides (take r >>= f) ((∃ a, r = .ok a) ∧ P) := by
  intro heap
  cases r with
  | error cause => exact .inr ⟨fun h => h.1.elim nofun, cause, rfl⟩
  | ok a =>
      rcases hf a heap with ⟨hP, hresults⟩ | ⟨hP, hcause⟩
      · exact .inl ⟨⟨⟨a, rfl⟩, hP⟩, hresults⟩
      · exact .inr ⟨fun h => hP h.2, hcause⟩

/-- What is taken last is all that matters. -/
theorem take_pure (r : Except LibraryCause α) (f : α → List Value) :
    Decides (take r >>= fun a => Pure.pure (f a)) (∃ a, r = .ok a) :=
  (take_bind fun a => pure (f a)).of_iff (Iff.of_eq (and_true _))

theorem isOk_iff (h : Decides c P) (heap : Heap) : (∃ vs, c heap = .ok vs heap) ↔ P := by
  rcases h heap with ⟨hP, hresults⟩ | ⟨hP, cause, hcause⟩
  · exact ⟨fun _ => hP, fun _ => hresults⟩
  · rw [hcause]
    exact ⟨nofun, fun h => absurd h hP⟩

end Decides

variable {address : Addressing} {b : Builtin} {args args' : List Value}

/-- Whether an argument is taken as a number. -/
def HoldsNumber (b : Builtin) (args : List Value) (i : Nat) : Prop :=
  ∃ x, Argument.number? b args i = .ok x

/-- The best of some arguments is found if all of them are numbers. -/
theorem bestFrom_isOk_iff (isAsGood : Float → Float → Bool) (count i : Nat) (best : Float) :
    (∃ x, bestFrom b isAsGood args count i best = .ok x) ↔
      ∀ j, i ≤ j → j < i + count → HoldsNumber b args j := by
  induction count generalizing i best with
  | zero =>
      refine ⟨fun _ j hle hlt => ?_, fun _ => ⟨best, rfl⟩⟩
      omega
  | succ count ih =>
      unfold bestFrom
      cases hx : Argument.number? b args i with
      | error cause =>
          constructor
          · rintro ⟨_, ⟨⟩⟩
          · intro h
            rcases h i (Nat.le_refl i) (by omega) with ⟨x, hok⟩
            rw [hx] at hok
            cases hok
      | ok x =>
          refine (ih (i + 1) (better isAsGood best x)).trans ⟨fun h j hle hlt => ?_, fun h j hle hlt => ?_⟩
          · rcases Nat.eq_or_lt_of_le hle with rfl | hlt'
            · exact ⟨x, hx⟩
            · exact h j hlt' (by omega)
          · exact h j (by omega) (by omega)

theorem bestFrom_congr (h : SameNumbers args args') (isAsGood : Float → Float → Bool)
    (count i : Nat) (best : Float) :
    bestFrom b isAsGood args count i best = bestFrom b isAsGood args' count i best := by
  induction count generalizing i best with
  | zero => rfl
  | succ count ih =>
      unfold bestFrom
      rw [h.number]
      exact congrArg _ (funext fun x => ih (i + 1) (better isAsGood best x))

/-- The forms of mathematical functions: most are functions of one number, two look for the best of
    their arguments, and two are on their own. -/
theorem math_forms (address : Addressing) (hb : b ∈ Builtin.math.map Prod.snd) :
    (∃ f, call address b = numeric b f ∧ ∀ args i, b.takesNumberAt args i ↔ i = 0) ∨
    (∃ isAsGood, call address b = extremum b isAsGood ∧
      ∀ args i, b.takesNumberAt args i ↔ i = 0 ∨ i < args.length) ∨
    b = .fmod ∨ b = .log := by
  simp only [Builtin.math, List.map_cons, List.map_nil, List.mem_cons, List.not_mem_nil,
    or_false] at hb
  rcases hb with rfl | rfl | rfl | rfl | rfl | rfl | rfl | rfl | rfl | rfl | rfl | rfl
  case inr.inr.inr.inr.inr.inl => exact .inr (.inr (.inl rfl))
  case inr.inr.inr.inr.inr.inr.inl => exact .inr (.inr (.inr rfl))
  case inr.inr.inr.inr.inr.inr.inr.inl => exact .inr (.inl ⟨_, rfl, fun _ _ => Iff.rfl⟩)
  case inr.inr.inr.inr.inr.inr.inr.inr.inl => exact .inr (.inl ⟨_, rfl, fun _ _ => Iff.rfl⟩)
  all_goals exact .inl ⟨_, rfl, fun _ _ => Iff.rfl⟩

/-- A mathematical function ends with results if there are numbers where it takes numbers. -/
theorem decides_math (hb : b ∈ Builtin.math.map Prod.snd) :
    Decides (call address b args) (∀ i, b.takesNumberAt args i → HoldsNumber b args i) := by
  rcases math_forms address hb with ⟨f, hcall, hat⟩ | ⟨isAsGood, hcall, hat⟩ | rfl | rfl
  · -- A function of one number.
    rw [hcall]
    refine (Decides.take_pure _ _).of_iff ?_
    simp only [hat, forall_eq]
    rfl
  · -- The first argument is the best so far, and the others are compared with it.
    rw [hcall]
    refine (Decides.take_bind fun first =>
      (Decides.take_pure _ _).of_iff (bestFrom_isOk_iff isAsGood _ 1 first)).of_iff ?_
    simp only [hat]
    constructor
    · rintro ⟨hfirst, hothers⟩ i (rfl | hi)
      · exact hfirst
      · rcases Nat.eq_zero_or_pos i with rfl | hpos
        · exact hfirst
        · exact hothers i hpos (by omega)
    · exact fun h => ⟨h 0 (.inl rfl), fun i hpos hi => h i (.inr (by omega))⟩
  · refine (Decides.take_bind fun x => Decides.take_pure _ _).of_iff ?_
    constructor
    · rintro ⟨hx, hy⟩ i hi
      have hlt : i < 2 := hi
      rcases (by omega : i = 0 ∨ i = 1) with rfl | rfl
      · exact hx
      · exact hy
    · exact fun h => ⟨h 0 Nat.zero_lt_two, h 1 Nat.one_lt_two⟩
  · -- The second argument is taken if it is given.
    show Decides (logarithm args) _
    unfold logarithm
    cases hgiven : Argument.isGiven args 1 with
    | false =>
        refine (Decides.take_pure _ _).of_iff ⟨?_, fun h => h 0 (.inl rfl)⟩
        rintro hx i (rfl | ⟨-, hi⟩)
        · exact hx
        · rw [hgiven] at hi
          cases hi
    | true =>
        refine (Decides.take_bind fun x => Decides.take_pure _ _).of_iff
          ⟨?_, fun h => ⟨h 0 (.inl rfl), h 1 (.inr ⟨rfl, hgiven⟩)⟩⟩
        rintro ⟨hx, hbase⟩ i (rfl | ⟨rfl, -⟩)
        · exact hx
        · exact hbase

/-- A mathematical function sees nothing of its arguments but the numbers that they hold. -/
theorem call_math_congr (hb : b ∈ Builtin.math.map Prod.snd) (h : SameNumbers args args') :
    call address b args = call address b args' := by
  rcases math_forms address hb with ⟨f, hcall, hat⟩ | ⟨isAsGood, hcall, hat⟩ | rfl | rfl
  · rw [hcall]
    unfold numeric
    rw [h.number]
  · rw [hcall]
    unfold extremum
    simp only [h.number, h.length, bestFrom_congr h]
  · unfold call
    simp only [h.number]
  · unfold call logarithm
    simp only [h.number, h.given]

/-- A mathematical function shows no places. -/
theorem shown_math (hb : b ∈ Builtin.math.map Prod.snd) : shown b args = [] := by
  unfold shown
  split <;> first | rfl | exact absurd hb (by decide)

end Library

/-! ## Texts for numbers -/

section Runs

variable {ν : Type} {b : Builtin} {args args' : List Value} {t : String}

theorem callLibrary_math_isOk_iff (hb : b ∈ Builtin.math.map Prod.snd) (s : Setting)
    (m : Machine ν) : (∃ vs, callLibrary b args s m = .ok vs m) ↔
      ∀ i, b.takesNumberAt args i → Library.HoldsNumber b args i := by
  have hdecides : Library.Decides (Library.call s.address b args)
      (∀ i, b.takesNumberAt args i → Library.HoldsNumber b args i) := Library.decides_math hb
  rw [run_callLibrary (Library.shown_math hb), ← hdecides.isOk_iff m.tables]
  cases Library.call s.address b args m.tables with
  | error cause heap => exact ⟨nofun, nofun⟩
  | ok vs heap =>
      constructor
      · rintro ⟨_, h⟩
        cases congrArg Machine.tables (EStateM.Result.ok.inj h).2
        exact ⟨vs, rfl⟩
      · rintro ⟨_, h⟩
        cases h
        exact ⟨vs, rfl⟩

theorem callLibrary_math_congr (hb : b ∈ Builtin.math.map Prod.snd) (h : SameNumbers args args')
    (s : Setting) (m : Machine ν) : callLibrary b args s m = callLibrary b args' s m := by
  rw [run_callLibrary (Library.shown_math hb), run_callLibrary (Library.shown_math hb),
    Library.call_math_congr hb h]

theorem run_toNumber (v : Value) (s : Setting) (m : Machine ν) :
    callLibrary .toNumber [v] s m = .ok [v.converted] m := by
  rw [run_callLibrary (show Library.shown .toNumber [v] = [] from rfl), Library.call_toNumber]

/-- A text stands for what the conversion to numbers gives for it. Between two values, and wherever a
    mathematical function takes a number, it is accepted if that is not `nil`, and then it makes no
    difference which of the two stands there. Negation takes no text. -/
theorem text_counts_as_converted (t : String) (s : Setting) (m : Machine ν) : ∃ n : Value,
    callLibrary .toNumber [.text t] s m = .ok [n] m ∧ (n ≠ .nil → ∃ x, n = .number x) ∧
    (∀ op : BinaryOp, op.isArithmetic = true → ∀ v : Value,
      ((∃ r, binary? op (.text t) v = .ok r) ↔ n ≠ .nil ∧ ∃ y, operand? v = .ok y) ∧
      ((∃ r, binary? op v (.text t) = .ok r) ↔ n ≠ .nil ∧ ∃ y, operand? v = .ok y) ∧
      (n ≠ .nil → binary? op (.text t) v = binary? op n v ∧
        binary? op v (.text t) = binary? op v n)) ∧
    (∀ b ∈ Builtin.math.map Prod.snd, ∀ args i, args[i]? = some (.text t) →
      (b.takesNumberAt args i →
        ((∃ vs, callLibrary b args s m = .ok vs m) ↔
          n ≠ .nil ∧ ∀ j ≠ i, b.takesNumberAt args j → Library.HoldsNumber b args j)) ∧
      (n ≠ .nil → callLibrary b args s m = callLibrary b (args.set i n) s m)) ∧
    ∀ heap, unary? heap .neg (.text t) = .error (.arithmetic .string) := by
  refine ⟨_, run_toNumber _ s m, ?_, ?_, ?_, fun _ => rfl⟩
  · rw [Value.converted_ne_nil_iff]
    exact fun ⟨x, hx⟩ => ⟨x, Value.converted_of_asNumber hx⟩
  · intro op hop v
    rw [Value.converted_ne_nil_iff]
    simp only [binary?_eq_calculated? hop, calculated?_isOk_iff, operand?_eq_ok_iff]
    refine ⟨trivial, and_comm, ?_⟩
    rintro ⟨x, hx⟩
    have hsame : operand? (.text t) = operand? (.number x) := operand?_of_asNumber hx
    rw [Value.converted_of_asNumber hx]
    exact ⟨calculated?_congr hsame rfl, calculated?_congr rfl hsame⟩
  · intro b hb args i hi
    rw [Value.converted_ne_nil_iff]
    refine ⟨fun hat => ?_, ?_⟩
    · have hholds : Library.HoldsNumber b args i ↔ ∃ x, (Value.text t).asNumber? = some x := by
        simp only [Library.HoldsNumber, Argument.number?_eq_ok_iff, hi, Option.bind_some]
      rw [callLibrary_math_isOk_iff hb, ← hholds]
      refine ⟨fun h => ⟨h i hat, fun j _ => h j⟩, fun h j hj => ?_⟩
      rcases eq_or_ne j i with rfl | hne
      · exact h.1
      · exact h.2 j hne hj
    · rintro ⟨x, hx⟩
      rw [Value.converted_of_asNumber hx]
      exact callLibrary_math_congr hb (sameNumbers_set hi hx) s m

end Runs

/-- A negation refuses a text that the conversion accepts. -/
theorem negation_refuses_numeric_text :
    ¬ ∀ (t : String) (heap : Heap), (∃ v, unary? heap .neg (.text t) = .ok v) ↔
      Library.call (fun _ => 0) .toNumber [.text t] heap ≠ .ok [.nil] heap := by
  intro h
  have hconverted : Library.call (fun _ => 0) .toNumber [.text "5"] #[] ≠ .ok [.nil] #[] := by
    rw [Library.call_toNumber]
    intro hnil
    have hread : (Value.text "5").asNumber?.isSome = true := by decide +kernel
    refine Value.converted_ne_nil_iff.mpr (Option.isSome_iff_exists.mp hread) ?_
    exact (List.cons.inj (EStateM.Result.ok.inj hnil).1).1
  rcases (h "5" #[]).mpr hconverted with ⟨v, hv⟩
  cases hv

end Script

end PixelEffects
