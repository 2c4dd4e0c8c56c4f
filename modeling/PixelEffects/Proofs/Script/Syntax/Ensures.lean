import PixelEffects.Script.Syntax.Parser

/-!
# What Parsers Ensure

Statements about what a parser gives, whatever the tokens are.

A rule of the grammar is put together from other rules by the steps of a monad and by two loops. So
what it gives follows from what those rules give, and the tokens never have to be looked at. A rule
that does not accept gives nothing, and nothing has to be shown of it.

## Main definitions

* `Ensures`: Everything that a parser gives has a property.

## Theorems

* `Ensures.bind`, `Ensures.andThen`: One rule after another.
* `Ensures.repeated`, `Ensures.separated`: The two loops.
-/

namespace PixelEffects

namespace Script

variable {α β σ : Type}

/-- Everything that a parser gives has a property. -/
def Ensures (P : α → Prop) (p : Parser α) : Prop :=
  ∀ ts a rest, p ts = .ok (a, rest) → P a

namespace Ensures

variable {P : α → Prop} {Q : β → Prop}

theorem pure {a : α} (h : P a) : Ensures P (pure a) := by
  intro ts b rest hb
  cases hb
  exact h

theorem bind {p : Parser α} {f : α → Parser β} (hp : Ensures P p)
    (hf : ∀ a, P a → Ensures Q (f a)) : Ensures Q (p >>= f) := by
  intro ts b rest h
  simp only [Bind.bind, StateT.bind, Except.bind] at h
  cases hr : p ts with
  | error e =>
      rw [hr] at h
      cases h
  | ok r =>
      rw [hr] at h
      exact hf r.1 (hp ts r.1 r.2 hr) r.2 b rest h

/-- One rule after another of which nothing is known. -/
theorem andThen {p : Parser α} {f : α → Parser β} (hf : ∀ a, Ensures Q (f a)) :
    Ensures Q (p >>= f) :=
  bind (P := fun _ => True) (fun _ _ _ _ => trivial) fun a _ => hf a

theorem throw (e : SyntaxError) : Ensures P (throw e : Parser α) := by
  intro ts a rest h
  cases h

theorem fail (cause : SyntaxCause) : Ensures P (Parser.fail cause) :=
  andThen fun _ => throw _

theorem failAt (cause : Token → SyntaxCause) : Ensures P (Parser.failAt cause) :=
  andThen fun _ => throw _

/-- A loop keeps what each of its rounds keeps. The induction is on the rounds that are left. -/
theorem repeated {step : σ → Parser (σ × Bool)} {I : σ → Prop}
    (hstep : ∀ s, I s → Ensures (fun r => I r.1) (step s)) (n : Nat) (s : σ) (hs : I s) :
    Ensures I (Parser.repeated step n s) := by
  induction n generalizing s with
  | zero => exact pure hs
  | succ n ih =>
      refine bind (hstep s hs) ?_
      rintro ⟨s', goOn⟩ hs'
      cases goOn with
      | true => exact ih s' hs'
      | false => exact pure hs'

theorem separated {rounds : Nat} {separator : Mark} {item : Parser α} (hitem : Ensures P item) :
    Ensures (fun items => ∀ i ∈ items, P i) (Parser.separated rounds separator item) := by
  refine bind hitem fun first hfirst => ?_
  have hone : ∀ i ∈ [first], P i := by
    intro i hi
    rw [List.mem_singleton] at hi
    rw [hi]
    exact hfirst
  refine bind (repeated (I := fun items => ∀ i ∈ items, P i) (fun items hitems => ?_)
    rounds [first] hone) fun items hitems => ?_
  · refine andThen fun more => ?_
    split
    · refine bind hitem fun i hi => pure ?_
      intro j hj
      rcases List.mem_cons.mp hj with rfl | hj
      · exact hi
      · exact hitems j hj
    · exact pure hitems
  · refine pure fun i hi => hitems i ?_
    exact List.mem_reverse.mp hi

end Ensures

end Script

end PixelEffects
