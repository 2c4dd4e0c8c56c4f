import PixelEffects.Proofs.Script.Syntax.Takes

/-!
# Parsers That Agree

What a parser does with a source is decided by the tokens of the source, and by nothing else.

Two things could get in between. A parser could take the end of the source and look at what lies
behind it, and a loop could stop because its rounds are used up. To rule out both, two parsers are
compared, of which the second may have other rounds, on tokens with anything behind the end of the
source. They *agree* if there is one outcome that both of them have, whatever lies behind. Where they
accept, what they leave still has the end of the source, and everything that lies behind it.

The statements are about tokens up to some number. A loop that is given more rounds than there are
tokens ends by itself, because every round that goes on takes at least one of them. So how many tokens
were taken belongs to what is known of a parser.

## Main definitions

* `upTo`: The tokens of a source, with its end and what lies behind.
* `AgreesOn`, `Agrees`: Two parsers have one outcome.
* `Goes`: What is known after a round of a loop.

## Theorems

* `Agrees.bind`: One parser after another.
* `Agrees.accept`, `Agrees.expect`, `Agrees.name` and others: One for each step.
* `Agrees.repeated`, `Agrees.separated`: The two loops.
-/

namespace PixelEffects

namespace Script

open PixelEffects.Script.Parser

variable {α β σ : Type}

/-- Tokens, then the end of the source, which is on some line, and what lies behind it. -/
def upTo (us : List Lexeme) (line : Nat) (behind : List Lexeme) : List Lexeme :=
  us ++ ⟨.endOfSource, line⟩ :: behind

/-- Two parsers have one outcome on the tokens of a source, whatever lies behind its end. If they
    accept, they take some of the tokens, and `Q` holds of how many and of what they give. -/
inductive AgreesOn (us : List Lexeme) (line : Nat) (Q : Nat → α → Prop) (p p' : Parser α) : Prop
  | gives (used rest : List Lexeme) {a : α} (hus : us = used ++ rest) (hQ : Q used.length a)
      (hrun : ∀ behind, p (upTo us line behind) = .ok (a, upTo rest line behind))
      (hrun' : ∀ behind, p' (upTo us line behind) = .ok (a, upTo rest line behind))
  | stops {e : SyntaxError} (hrun : ∀ behind, p (upTo us line behind) = .error e)
      (hrun' : ∀ behind, p' (upTo us line behind) = .error e)

/-- Parsers that do on a source what others do behind its first tokens have the outcome of those. -/
theorem AgreesOn.behind (first : List Lexeme) {us : List Lexeme} {line : Nat}
    {Q : Nat → α → Prop} {p p' q q' : Parser α}
    (h : AgreesOn us line (fun k a => Q (k + first.length) a) p p')
    (hq : ∀ behind, q (upTo (first ++ us) line behind) = p (upTo us line behind))
    (hq' : ∀ behind, q' (upTo (first ++ us) line behind) = p' (upTo us line behind)) :
    AgreesOn (first ++ us) line Q q q' := by
  cases h with
  | @gives used rest a hus hQ hrun hrun' =>
      subst hus
      refine .gives (first ++ used) rest (a := a) (List.append_assoc first used rest).symm ?_
        (fun behind => (hq behind).trans (hrun behind))
        fun behind => (hq' behind).trans (hrun' behind)
      rw [List.length_append, Nat.add_comm]
      exact hQ
  | stops hrun hrun' =>
      exact .stops (fun behind => (hq behind).trans (hrun behind))
        fun behind => (hq' behind).trans (hrun' behind)

/-- Two parsers agree where the token `t` comes next, with no more than `n` tokens to go before the
    end of the source. -/
def Agrees (n : Nat) (t : Token) (Q : Nat → α → Prop) (p p' : Parser α) : Prop :=
  ∀ us line, us.length ≤ n → (∀ u ∈ us, u.token ≠ .endOfSource) → upcoming us = t →
    AgreesOn us line Q p p'

/-- What is known after a round of a loop that has taken so many tokens: it goes on, something was
    taken and the invariant `I` holds, or the loop is over and `R` holds. -/
inductive Goes (I R : σ → Prop) : Nat → σ × Bool → Prop
  | again {j : Nat} {s : σ} (hsome : 0 < j) (h : I s) : Goes I R j (s, true)
  | ended {j : Nat} {s : σ} (h : R s) : Goes I R j (s, false)

namespace Agrees

variable {n : Nat} {t : Token} {P : Nat → α → Prop} {Q : Nat → β → Prop}

theorem imp {R : Nat → α → Prop} {p p' : Parser α} (hp : Agrees n t P p p')
    (himp : ∀ j a, P j a → R j a) : Agrees n t R p p' := by
  intro us line hlen hend ht
  cases hp us line hlen hend ht with
  | gives used rest hus hP hrun hrun' => exact .gives used rest hus (himp _ _ hP) hrun hrun'
  | stops hrun hrun' => exact .stops hrun hrun'

theorem shorter {m : Nat} {p p' : Parser α} (hp : Agrees n t P p p') (hm : m ≤ n) :
    Agrees m t P p p' :=
  fun us line hlen => hp us line (Nat.le_trans hlen hm)

/-- The second parser begins where the first one has left off, with so many fewer tokens to go. -/
theorem bind {p p' : Parser α} {f f' : α → Parser β} (hp : Agrees n t P p p')
    (hf : ∀ j a t' m, P j a → m + j ≤ n → Agrees m t' (fun k b => Q (j + k) b) (f a) (f' a)) :
    Agrees n t Q (p >>= f) (p' >>= f') := by
  intro us line hlen hend ht
  cases hp us line hlen hend ht with
  | @stops e hrun hrun' =>
      refine .stops (e := e) (fun behind => ?_) fun behind => ?_
      · rw [parse_bind, hrun]
      · rw [parse_bind, hrun']
  | @gives used rest a hus hP hrun hrun' =>
      subst hus
      have hleft : rest.length + used.length ≤ n := by
        rw [List.length_append] at hlen
        omega
      have hend' : ∀ u ∈ rest, u.token ≠ .endOfSource :=
        fun u hu => hend u (List.mem_append_right used hu)
      cases hf _ a _ _ hP hleft rest line (Nat.le_refl _) hend' rfl with
      | @stops e hnext hnext' =>
          refine .stops (e := e) (fun behind => ?_) fun behind => ?_
          · rw [parse_bind, hrun]
            exact hnext behind
          · rw [parse_bind, hrun']
            exact hnext' behind
      | @gives more last b hrest hQ hnext hnext' =>
          subst hrest
          refine .gives (used ++ more) last (a := b) (List.append_assoc used more last).symm ?_
            (fun behind => ?_) fun behind => ?_
          · rw [List.length_append]
            exact hQ
          · rw [parse_bind, hrun]
            exact hnext behind
          · rw [parse_bind, hrun']
            exact hnext' behind

/-- What parsers give can be put into another form. -/
theorem map {p p' : Parser α} {f : α → β} (hp : Agrees n t (fun j a => Q j (f a)) p p') :
    Agrees n t Q (p >>= fun a => Pure.pure (f a)) (p' >>= fun a => Pure.pure (f a)) := by
  intro us line hlen hend ht
  cases hp us line hlen hend ht with
  | @stops e hrun hrun' =>
      refine .stops (e := e) (fun behind => ?_) fun behind => ?_
      · rw [parse_bind, hrun]
      · rw [parse_bind, hrun']
  | gives used rest hus hQ hrun hrun' =>
      refine .gives used rest hus hQ (fun behind => ?_) fun behind => ?_
      · rw [parse_bind, hrun]
        rfl
      · rw [parse_bind, hrun']
        rfl

theorem pure {a : α} (h : P 0 a) : Agrees n t P (Pure.pure a) (Pure.pure a) :=
  fun us _ _ _ _ => .gives [] us rfl h (fun _ => rfl) fun _ => rfl

theorem throw (e : SyntaxError) : Agrees n t P (throw e : Parser α) (throw e) :=
  fun _ _ _ _ _ => .stops (fun _ => rfl) fun _ => rfl

/-- Looking at the next token. At the end of the source there is one still. -/
theorem next {f f' : Lexeme → Parser β} (hf : ∀ line, Agrees n t Q (f ⟨t, line⟩) (f' ⟨t, line⟩)) :
    Agrees n t Q (Parser.next >>= f) (Parser.next >>= f') := by
  intro us line hlen hend ht
  cases us with
  | nil =>
      cases ht
      exact AgreesOn.behind [] (hf line [] line hlen hend rfl) (fun _ => rfl) fun _ => rfl
  | cons u us =>
      rcases u with ⟨token, line'⟩
      cases ht
      exact AgreesOn.behind [] (hf line' _ line hlen hend rfl) (fun _ => rfl) fun _ => rfl

theorem fail (cause : SyntaxCause) :
    Agrees n t P (Parser.fail cause : Parser α) (Parser.fail cause) :=
  next fun _ => throw _

theorem failAt (cause : Token → SyntaxCause) :
    Agrees n t P (Parser.failAt cause : Parser α) (Parser.failAt cause) :=
  next fun _ => throw _

/-- Taking the next token, which is not the end of the source. -/
theorem advance {f f' : Unit → Parser β} (ht : t ≠ .endOfSource)
    (hf : ∀ t' m, m + 1 ≤ n → Agrees m t' (fun k b => Q (1 + k) b) (f ()) (f' ())) :
    Agrees n t Q (Parser.advance >>= f) (Parser.advance >>= f') := by
  have hone : Agrees n t (fun j _ => j = 1) Parser.advance Parser.advance := by
    intro us line hlen hend htoken
    cases us with
    | nil => exact absurd htoken.symm ht
    | cons u us =>
        rcases u with ⟨token, line'⟩
        cases htoken
        have hrun : ∀ behind, Parser.advance (upTo (⟨token, line'⟩ :: us) line behind) =
            .ok ((), upTo us line behind) := by
          intro behind
          cases token with
          | endOfSource => exact absurd rfl ht
          | _ => rfl
        exact .gives [⟨token, line'⟩] us rfl rfl hrun hrun
  refine hone.bind fun j _ t' m hj hm => ?_
  subst hj
  exact hf t' m hm

theorem sees {m : Mark} {f f' : Bool → Parser β}
    (hyes : t = .mark m → Agrees n t Q (f true) (f' true))
    (hno : t ≠ .mark m → Agrees n t Q (f false) (f' false)) :
    Agrees n t Q (Parser.sees m >>= f) (Parser.sees m >>= f') := by
  unfold Parser.sees
  rw [bind_assoc, bind_assoc]
  refine next fun line => ?_
  rw [pure_bind, pure_bind]
  by_cases ht : t = .mark m
  · subst ht
    simp only [Token.isMark, beq_self_eq_true]
    exact hyes rfl
  · have hmark : t.isMark m = false := by
      cases t with
      | mark m' =>
          simp only [Token.isMark]
          exact beq_false_of_ne fun h => ht (congrArg Token.mark h)
      | _ => rfl
    simp only [hmark]
    exact hno ht

/-- Whether a block ends takes nothing to find out. It does at the end of the source. -/
theorem blockEnds {f f' : Bool → Parser β} (hyes : Agrees n t Q (f true) (f' true))
    (hno : t ≠ .endOfSource → Agrees n t Q (f false) (f' false)) :
    Agrees n t Q (Parser.blockEnds >>= f) (Parser.blockEnds >>= f') := by
  unfold Parser.blockEnds
  rw [bind_assoc, bind_assoc]
  refine next fun line => ?_
  rw [pure_bind, pure_bind]
  dsimp only
  split <;> first | exact hyes | skip
  next h =>
    exact hno fun ht => h ht

/-- A mark that may be there. -/
theorem accept {mark : Mark} {f f' : Bool → Parser β}
    (hyes : ∀ t' m, m + 1 ≤ n → Agrees m t' (fun k b => Q (1 + k) b) (f true) (f' true))
    (hno : t ≠ .mark mark → Agrees n t Q (f false) (f' false)) :
    Agrees n t Q (Parser.accept mark >>= f) (Parser.accept mark >>= f') := by
  unfold Parser.accept
  rw [bind_assoc, bind_assoc]
  refine sees (fun h => ?_) fun h => ?_
  · subst h
    rw [if_pos rfl, bind_assoc, bind_assoc]
    refine advance (fun h => by cases h) fun t' m hm => ?_
    rw [pure_bind, pure_bind]
    exact hyes t' m hm
  · rw [if_neg Bool.false_ne_true, pure_bind, pure_bind]
    exact hno h

/-- A mark that has to be there. -/
theorem expect {mark : Mark} {f f' : Unit → Parser β}
    (hf : ∀ t' m, m + 1 ≤ n → Agrees m t' (fun k b => Q (1 + k) b) (f ()) (f' ())) :
    Agrees n t Q (Parser.expect mark >>= f) (Parser.expect mark >>= f') := by
  unfold Parser.expect
  rw [bind_assoc, bind_assoc]
  refine accept (fun t' m hm => ?_) fun _ => ?_
  · rw [if_pos rfl, pure_bind, pure_bind]
    exact hf t' m hm
  · rw [if_neg Bool.false_ne_true]
    exact bind (P := fun _ _ => False) (failAt _) fun _ _ _ _ h => h.elim

theorem name {f f' : String → Parser β}
    (hf : ∀ word t' m, m + 1 ≤ n → Agrees m t' (fun k b => Q (1 + k) b) (f word) (f' word)) :
    Agrees n t Q (Parser.name >>= f) (Parser.name >>= f') := by
  unfold Parser.name
  rw [bind_assoc, bind_assoc]
  refine next fun line => ?_
  cases t with
  | name word =>
      dsimp only
      rw [bind_assoc, bind_assoc]
      refine advance (fun h => by cases h) fun t' m hm => ?_
      rw [pure_bind, pure_bind]
      exact hf word t' m hm
  | _ => exact bind (P := fun _ _ => False) (throw _) fun _ _ _ _ h => h.elim

/-- A name, with nothing behind it. -/
theorem word : Agrees n t (fun j _ => 0 < j) Parser.name Parser.name := by
  have hname : Agrees n t (fun j (_ : String) => 0 < j) (Parser.name >>= Pure.pure)
      (Parser.name >>= Pure.pure) :=
    name fun word t' m hm => pure Nat.one_pos
  rw [bind_pure] at hname
  exact hname

/-- A loop keeps what each of its rounds keeps, and ends with what its last round leads to. With more
    rounds than tokens it ends by itself, so the number of rounds does not matter. The induction is on
    the rounds that are left. -/
theorem repeated {step step' : σ → Parser (σ × Bool)} {I R : σ → Prop} {k : Nat}
    (hstep : ∀ s t, I s → Agrees k t (Goes I R) (step s) (step' s)) {rounds rounds' : Nat}
    (hrounds : n < rounds) (hrounds' : n < rounds') (hk : n ≤ k) {s : σ} (hI : I s) :
    Agrees n t (fun _ r => R r) (Parser.repeated step rounds s)
      (Parser.repeated step' rounds' s) := by
  induction rounds generalizing rounds' n t s with
  | zero => omega
  | succ rounds ih =>
      cases rounds' with
      | zero => omega
      | succ rounds' =>
          refine bind ((hstep s t hI).shorter hk) fun j r t' m hgoes hm => ?_
          cases hgoes with
          | ended h => exact pure h
          | again hsome h => exact ih (by omega) (by omega) (by omega) h

/-- Items with a mark between them. -/
theorem separated {rounds rounds' : Nat} {separator : Mark} {item item' : Parser α}
    {P : α → Prop} (hitem : ∀ t, Agrees n t (fun j a => 0 < j ∧ P a) item item')
    (hrounds : n < rounds) (hrounds' : n < rounds') :
    Agrees n t (fun j items => 0 < j ∧ ∀ a ∈ items, P a)
      (Parser.separated rounds separator item) (Parser.separated rounds' separator item') := by
  have hstep : ∀ (items : List α) t, (∀ a ∈ items, P a) → Agrees n t
      (Goes (fun items => ∀ a ∈ items, P a) fun items => ∀ a ∈ items, P a)
      (do
        if ← Parser.accept separator then
          let i ← item
          Pure.pure (i :: items, true)
        else Pure.pure (items, false))
      (do
        if ← Parser.accept separator then
          let i ← item'
          Pure.pure (i :: items, true)
        else Pure.pure (items, false)) := by
    intro items t hitems
    refine accept (fun t' m hm => ?_) fun _ => ?_
    · rw [if_pos rfl, if_pos rfl]
      refine bind ((hitem t').shorter (by omega)) fun j a t'' m' ha hm' => pure ?_
      exact .again (by omega) (List.forall_mem_cons.mpr ⟨ha.2, hitems⟩)
    · rw [if_neg Bool.false_ne_true, if_neg Bool.false_ne_true]
      exact pure (.ended hitems)
  refine bind (hitem t) fun j first t' m hfirst hm => ?_
  refine map ((repeated hstep (by omega) (by omega) (by omega)
    (List.forall_mem_singleton.mpr hfirst.2)).imp fun k items hitems => ?_)
  exact ⟨by omega, fun a ha => hitems a (List.mem_reverse.mp ha)⟩

end Agrees

end Script

end PixelEffects
