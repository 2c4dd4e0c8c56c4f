import PixelEffects.Proofs.Script.Syntax.Printing
import PixelEffects.Proofs.Script.Syntax.Takes

/-!
# What Parsers Read

Statements that a parser accepts some tokens and takes no more than these.

That a parser reads some tokens has to be said for all tokens that come behind them, or else nothing
could be read one after the other. But where it stops depends on the token that comes next, so this
token is fixed. The lines of the tokens are left open, and what a parser gives is described by a
property, as it may contain lines.

As for what parsers take, the number of all tokens is limited, so that the rounds of the loops are
enough.

## Main definitions

* `Reads`: A parser accepts some tokens in front of a token.
* `Loops`: A loop does, with any number of rounds.

## Theorems

* `Reads.bind`: One parser after another.
* `Reads.accept_some`, `Reads.accept_none`, `Reads.expect` and others: One for each step.
* `Loops.again`, `Loops.ended`: A round of a loop, and its end.
* `Loops.separated`, `Reads.separated`: Items with a mark between them.
-/

namespace PixelEffects

namespace Script

open PixelEffects.Script.Parser

variable {α β γ σ : Type}

/-- A parser that is run on the tokens `u`, with the token `t` behind them and no more than `n` tokens
    in all, accepts them, leaves what is behind, and gives something with a property. -/
def Reads (n : Nat) (p : Parser α) (u : List Token) (t : Token) (Q : α → Prop) : Prop :=
  ∀ us vs, tokensOf us = u → us.length + vs.length ≤ n → upcoming vs = t →
    ∃ a, p (us ++ vs) = .ok (a, vs) ∧ Q a

/-- A loop reads some tokens with any number of rounds up to `k`, as long as there are no more tokens
    than rounds. -/
def Loops (k : Nat) (step : σ → Parser (σ × Bool)) (s : σ) (u : List Token) (t : Token)
    (Q : σ → Prop) : Prop :=
  ∀ n ≤ k, Reads n (Parser.repeated step n s) u t Q

theorem upcoming_append (us vs : List Lexeme) :
    upcoming (us ++ vs) = (tokensOf us).headD (upcoming vs) := by
  cases us <;> rfl

theorem tokensOf_eq_cons {us : List Lexeme} {t : Token} {u : List Token}
    (h : tokensOf us = t :: u) : ∃ line us', us = ⟨t, line⟩ :: us' ∧ tokensOf us' = u := by
  cases us with
  | nil => cases h
  | cons l us =>
      cases h
      exact ⟨l.line, us, rfl, rfl⟩

namespace Reads

variable {n : Nat} {u v : List Token} {t : Token} {P : α → Prop} {Q : β → Prop}

theorem imp {R : α → Prop} {p : Parser α} (hp : Reads n p u t P) (himp : ∀ a, P a → R a) :
    Reads n p u t R := by
  intro us vs hus hlen ht
  rcases hp us vs hus hlen ht with ⟨a, hrun, ha⟩
  exact ⟨a, hrun, himp a ha⟩

/-- The first parser stops in front of what the second one reads. -/
theorem bind {p : Parser α} {f : α → Parser β} (hp : Reads n p u (v.headD t) P)
    (hf : ∀ a, P a → Reads n (f a) v t Q) : Reads n (p >>= f) (u ++ v) t Q := by
  intro us vs hus hlen ht
  rcases List.map_eq_append_iff.mp hus with ⟨us, us', rfl, hu, hv⟩
  rw [List.length_append] at hlen
  have hnext : upcoming (us' ++ vs) = v.headD t := by
    rw [upcoming_append, ht]
    exact congrArg (fun w => List.headD w t) hv
  rcases hp us (us' ++ vs) hu (by rw [List.length_append]; omega) hnext with ⟨a, hrun, ha⟩
  rcases hf a ha us' vs hv (by omega) ht with ⟨b, hrun', hb⟩
  refine ⟨b, ?_, hb⟩
  rw [List.append_assoc, parse_bind, hrun]
  exact hrun'

/-- The second parser takes nothing. -/
theorem bind_nil {p : Parser α} {f : α → Parser β} (hp : Reads n p u t P)
    (hf : ∀ a, P a → Reads n (f a) [] t Q) : Reads n (p >>= f) u t Q := by
  rw [← List.append_nil u]
  exact bind hp hf

/-- What a parser gives can be put into another form. -/
theorem map {p : Parser α} {f : α → β} (hp : Reads n p u t fun a => Q (f a)) :
    Reads n (p >>= fun a => pure (f a)) u t Q := by
  intro us vs hus hlen ht
  rcases hp us vs hus hlen ht with ⟨a, hrun, ha⟩
  refine ⟨f a, ?_, ha⟩
  rw [parse_bind, hrun]
  rfl

theorem pure {a : α} (ha : P a) : Reads n (Pure.pure a) [] t P := by
  intro us vs hus _ _
  rw [List.map_eq_nil_iff.mp hus]
  exact ⟨a, rfl, ha⟩

/-- Looking at the next token. -/
theorem next {f : Lexeme → Parser β} (hf : ∀ line, Reads n (f ⟨u.headD t, line⟩) u t Q) :
    Reads n (Parser.next >>= f) u t Q := by
  intro us vs hus hlen ht
  have hnext : upcoming (us ++ vs) = u.headD t := by
    rw [upcoming_append, hus, ht]
  have hsame : ∃ line, (Parser.next >>= f) (us ++ vs) = f ⟨u.headD t, line⟩ (us ++ vs) := by
    rw [← hnext]
    cases us ++ vs with
    | nil => exact ⟨0, rfl⟩
    | cons l rest => exact ⟨l.line, rfl⟩
  rcases hsame with ⟨line, hsame⟩
  rw [hsame]
  exact hf line us vs hus hlen ht

/-- Taking the next token, when it is not the end of the source. -/
theorem advance {t' : Token} {f : Unit → Parser β} (ht' : t' ≠ .endOfSource)
    (hf : Reads n (f ()) u t Q) : Reads n (Parser.advance >>= f) (t' :: u) t Q := by
  intro us vs hus hlen ht
  cases us with
  | nil => cases hus
  | cons l us =>
      rcases l with ⟨token, line⟩
      cases hus
      rw [List.length_cons] at hlen
      rcases hf us vs rfl (by omega) ht with ⟨b, hrun, hb⟩
      refine ⟨b, ?_, hb⟩
      -- Only the end of the source is not taken.
      cases token with
      | endOfSource => exact (ht' rfl).elim
      | _ => exact hrun

theorem sees_some {m : Mark} {f : Bool → Parser β} (hf : Reads n (f true) (.mark m :: u) t Q) :
    Reads n (Parser.sees m >>= f) (.mark m :: u) t Q := by
  unfold Parser.sees
  rw [bind_assoc]
  refine next fun line => ?_
  rw [pure_bind]
  simp only [List.headD_cons, Token.isMark, beq_self_eq_true]
  exact hf

theorem sees_none {m : Mark} {f : Bool → Parser β} (hm : u.headD t ≠ .mark m)
    (hf : Reads n (f false) u t Q) : Reads n (Parser.sees m >>= f) u t Q := by
  unfold Parser.sees
  rw [bind_assoc]
  refine next fun line => ?_
  rw [pure_bind]
  have hnot : (u.headD t).isMark m = false := by
    cases hnext : u.headD t with
    | mark m' =>
        rw [hnext] at hm
        refine beq_false_of_ne fun heq => hm ?_
        rw [heq]
    | _ => rfl
  dsimp only
  rw [hnot]
  exact hf

/-- A mark that may be there, and is. -/
theorem accept_some {m : Mark} {f : Bool → Parser β} (hf : Reads n (f true) u t Q) :
    Reads n (Parser.accept m >>= f) (.mark m :: u) t Q := by
  unfold Parser.accept
  rw [bind_assoc]
  refine sees_some ?_
  rw [if_pos rfl, bind_assoc]
  refine advance (fun h => by cases h) ?_
  rw [pure_bind]
  exact hf

/-- A mark that may be there, and is not. -/
theorem accept_none {m : Mark} {f : Bool → Parser β} (hm : u.headD t ≠ .mark m)
    (hf : Reads n (f false) u t Q) : Reads n (Parser.accept m >>= f) u t Q := by
  unfold Parser.accept
  rw [bind_assoc]
  refine sees_none hm ?_
  rw [if_neg Bool.false_ne_true, pure_bind]
  exact hf

/-- A mark that has to be there. -/
theorem expect {m : Mark} {f : Unit → Parser β} (hf : Reads n (f ()) u t Q) :
    Reads n (Parser.expect m >>= f) (.mark m :: u) t Q := by
  unfold Parser.expect
  rw [bind_assoc]
  refine accept_some ?_
  rw [if_pos rfl, pure_bind]
  exact hf

theorem name {word : String} {f : String → Parser β} (hf : Reads n (f word) u t Q) :
    Reads n (Parser.name >>= f) (.name word :: u) t Q := by
  unfold Parser.name
  rw [bind_assoc]
  refine next fun line => ?_
  dsimp only [List.headD_cons]
  rw [bind_assoc]
  refine advance (fun h => by cases h) ?_
  rw [pure_bind]
  exact hf

/-- A name that has to be there, with nothing behind it. -/
theorem word {word : String} : Reads n Parser.name (nameTokens word) t fun w => w = word := by
  have hname : Reads n (Parser.name >>= Pure.pure) (nameTokens word) t fun w => w = word :=
    name (pure rfl)
  rw [bind_pure] at hname
  exact hname

end Reads

namespace Loops

variable {k : Nat} {step : σ → Parser (σ × Bool)} {s : σ} {u v : List Token} {t : Token}
  {P Q : σ → Prop}

/-- A round that takes something, after which the loop goes on. -/
theorem again (hround : Reads k (step s) u (v.headD t) fun r => r.2 = true ∧ P r.1) (hu : u ≠ [])
    (hrest : ∀ s', P s' → Loops k step s' v t Q) : Loops k step s (u ++ v) t Q := by
  intro n hn
  cases n with
  | zero =>
      intro us vs hus hlen _
      -- Without rounds there are no tokens either.
      have hnil : us = [] := List.eq_nil_of_length_eq_zero (by omega)
      rw [hnil] at hus
      exact (hu (List.append_eq_nil_iff.mp hus.symm).1).elim
  | succ n =>
      intro us vs hus hlen ht
      rcases List.map_eq_append_iff.mp hus with ⟨us, us', rfl, hu', hv⟩
      have htaken : 0 < us.length := by
        rw [← hu'] at hu
        exact List.length_pos_iff.mpr fun hnil => hu (congrArg tokensOf hnil)
      rw [List.length_append] at hlen
      have hnext : upcoming (us' ++ vs) = v.headD t := by
        rw [upcoming_append, ht]
        exact congrArg (fun w => List.headD w t) hv
      rcases hround us (us' ++ vs) hu' (by rw [List.length_append]; omega) hnext with
        ⟨⟨s', goOn⟩, hrun, hgoOn, hs'⟩
      dsimp only at hgoOn hs'
      subst hgoOn
      rcases hrest s' hs' n (by omega) us' vs hv (by omega) ht with ⟨b, hrun', hb⟩
      refine ⟨b, ?_, hb⟩
      rw [Parser.repeated, List.append_assoc, parse_bind, hrun]
      exact hrun'

/-- A last round. If it takes nothing, the loop might as well not have had it. -/
theorem ended (hround : Reads k (step s) u t fun r => r.2 = false ∧ Q r.1) (hnil : u = [] → Q s) :
    Loops k step s u t Q := by
  intro n hn
  cases n with
  | zero =>
      intro us vs hus hlen _
      have hus' : us = [] := List.eq_nil_of_length_eq_zero (by omega)
      have hvs : vs = [] := List.eq_nil_of_length_eq_zero (by omega)
      subst hus' hvs
      exact ⟨s, rfl, hnil hus.symm⟩
  | succ n =>
      intro us vs hus hlen ht
      rcases hround us vs hus (by omega) ht with ⟨⟨s', goOn⟩, hrun, hgoOn, hs'⟩
      dsimp only at hgoOn hs'
      subst hgoOn
      refine ⟨s', ?_, hs'⟩
      rw [Parser.repeated, parse_bind, hrun]
      rfl

end Loops

/-- Items are collected in reverse. One more item that is like the first of those to come leaves what
    all of them are like. -/
theorem map_reverse_cons {g : β → γ} {g' : α → γ} {b : β} {a : α} (h : g b = g' a) (bs : List β)
    (rest : List α) :
    (b :: bs).reverse.map g ++ rest.map g' = bs.reverse.map g ++ (a :: rest).map g' := by
  simp only [List.reverse_cons, List.map_append, List.append_assoc, List.map_cons, List.map_nil, h,
    List.cons_append, List.nil_append]

section Separated

variable {rounds : Nat} {separator : Mark} {item : Parser β} {t : Token}
  {tokens : α → List Token} {g : β → γ} {g' : α → γ}

/-- What is behind an item begins with the mark or is behind all items. -/
theorem headD_flatMap (separator : Mark) (us : List (List Token)) (t : Token) :
    (us.flatMap (Token.mark separator :: ·)).headD t = .mark separator ∨
      (us.flatMap (Token.mark separator :: ·)).headD t = t := by
  cases us with
  | nil => exact .inr rfl
  | cons u us => exact .inl rfl

/-- The items that are still to come, each behind a mark. -/
theorem Loops.separated {rest : List α}
    (hitem : ∀ a ∈ rest, ∀ t', t' = .mark separator ∨ t' = t →
      Reads rounds item (tokens a) t' fun b => g b = g' a)
    (ht : t ≠ .mark separator) (bs : List β) :
    Loops rounds (fun items => do
        if ← accept separator then
          let i ← item
          Pure.pure (i :: items, true)
        else Pure.pure (items, false)) bs
      ((rest.map tokens).flatMap (Token.mark separator :: ·)) t
      fun bs' => bs'.reverse.map g = bs.reverse.map g ++ rest.map g' := by
  induction rest generalizing bs with
  | nil =>
      have hsame : bs.reverse.map g = bs.reverse.map g ++ ([] : List α).map g' := by
        rw [List.map_nil, List.append_nil]
      refine Loops.ended (Reads.accept_none ht ?_) fun _ => hsame
      rw [if_neg Bool.false_ne_true]
      exact Reads.pure ⟨rfl, hsame⟩
  | cons a rest ih =>
      have hread := hitem a List.mem_cons_self _ (headD_flatMap separator (rest.map tokens) t)
      rw [List.map_cons, List.flatMap_cons]
      refine Loops.again (P := fun bs' => ∃ b, bs' = b :: bs ∧ g b = g' a)
        (Reads.accept_some ?_) (List.cons_ne_nil _ _) ?_
      · rw [if_pos rfl]
        exact Reads.map (hread.imp fun b hb => ⟨rfl, b, rfl, hb⟩)
      · rintro _ ⟨b, rfl, hb⟩
        rw [← map_reverse_cons hb]
        exact ih (fun a' ha' => hitem a' (List.mem_cons_of_mem a ha')) (b :: bs)

/-- Items with a mark between them, of which each is read in front of the mark and of what comes
    behind the last. What is given is told by what `g` tells of each. -/
theorem Reads.separated {items : List α} (hitems : items ≠ [])
    (hitem : ∀ a ∈ items, ∀ t', t' = .mark separator ∨ t' = t →
      Reads rounds item (tokens a) t' fun b => g b = g' a)
    (ht : t ≠ .mark separator) :
    Reads rounds (Parser.separated rounds separator item)
      (joined separator (items.map tokens)) t fun bs => bs.map g = items.map g' := by
  cases items with
  | nil => exact (hitems rfl).elim
  | cons first items =>
      have hfirst := hitem first List.mem_cons_self _
        (headD_flatMap separator (items.map tokens) t)
      refine Reads.bind hfirst fun b hb => ?_
      have hloop := Loops.separated (fun a ha => hitem a (List.mem_cons_of_mem first ha)) ht [b]
      refine Reads.map ((hloop rounds (Nat.le_refl _)).imp fun bs hbs => ?_)
      rw [hbs, List.map_cons, ← hb]
      rfl

end Separated

end Script

end PixelEffects
