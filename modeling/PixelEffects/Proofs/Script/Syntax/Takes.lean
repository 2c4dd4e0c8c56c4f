import PixelEffects.Proofs.Script.Syntax.Grammar
import PixelEffects.Script.Syntax.Parser

/-!
# What Parsers Take

Statements about the tokens that a parser takes, and about the token that it leaves as the next.

A parser that accepts has taken some tokens off the front, in their order, and leaves the rest. What
it gives can be told from the tokens that were taken, and often also something about the token that
comes next, because a parser that stops does so on seeing it. The end of the source is never among
the tokens that are taken.

The loops are given a number of rounds. For what is known when they end it matters that they have
ended by themselves, so statements are about lists of tokens up to some length, and the rounds are
no fewer.

## Main definitions

* `upcoming`: The token that comes next.
* `tokensOf`: Tokens without their lines.
* `Takes`: What a parser takes, gives and leaves.
* `Round`: What is known after a round of a loop.

## Theorems

* `Takes.bind`: One parser after another.
* `Takes.accept`, `Takes.expect`, `Takes.name` and others: One for each step.
* `Takes.repeated`, `Takes.separated`: The two loops.
-/

namespace PixelEffects

namespace Script

open PixelEffects.Script.Parser

variable {α β σ : Type}

/-- The token that comes next. -/
def upcoming : List Lexeme → Token
  | [] => .endOfSource
  | t :: _ => t.token

/-- Tokens without their lines. -/
def tokensOf (ts : List Lexeme) : List Token :=
  ts.map (·.token)

/-- A parser that is run where the token `t` comes next, with no more than `n` tokens to go. What is
    known of it relates the tokens that it takes, what it gives, and the token that comes next then.
    -/
def Takes (n : Nat) (t : Token) (Q : List Token → α → Token → Prop) (p : Parser α) : Prop :=
  ∀ ts a rest, ts.length ≤ n → upcoming ts = t → p ts = .ok (a, rest) →
    ∃ used, ts = used ++ rest ∧ (∀ t ∈ tokensOf used, t ≠ .endOfSource) ∧
      Q (tokensOf used) a (upcoming rest)

/-- What is known after a round of a loop, behind the tokens `u` that were taken before: the loop goes
    on, something was taken and the invariant `I` holds, or the loop is over and `R` holds. -/
inductive Round (I R : List Token → σ → Token → Prop) (u : List Token) :
    List Token → σ × Bool → Token → Prop
  | again {v : List Token} {s : σ} {t : Token} (hsome : v ≠ []) (h : I (u ++ v) s t) :
      Round I R u v (s, true) t
  | ended {v : List Token} {s : σ} {t : Token} (h : R (u ++ v) s t) : Round I R u v (s, false) t

/-- One parser after another, on tokens. -/
theorem parse_bind (p : Parser α) (f : α → Parser β) (ts : List Lexeme) :
    (p >>= f) ts = match p ts with
      | .ok (a, rest) => f a rest
      | .error e => .error e := by
  simp only [Bind.bind, StateT.bind, Except.bind]
  cases p ts <;> rfl

namespace Takes

variable {n : Nat} {t : Token} {P : List Token → α → Token → Prop}
  {Q : List Token → β → Token → Prop}

theorem imp {R : List Token → α → Token → Prop} {p : Parser α} (hp : Takes n t P p)
    (himp : ∀ u a t', P u a t' → R u a t') : Takes n t R p := by
  intro ts a rest hlen ht hrun
  rcases hp ts a rest hlen ht hrun with ⟨used, hts, hend, hpost⟩
  exact ⟨used, hts, hend, himp _ _ _ hpost⟩

theorem shorter {n' : Nat} {p : Parser α} (hp : Takes n t P p) (hn : n' ≤ n) : Takes n' t P p :=
  fun ts a rest hlen => hp ts a rest (Nat.le_trans hlen hn)

/-- The second parser begins where the first one has left off, and if something was taken by then,
    with fewer tokens to go. -/
theorem bind {p : Parser α} {f : α → Parser β} (hp : Takes n t P p)
    (hf : ∀ u a t', P u a t' → ∀ m, m + u.length ≤ n →
      Takes m t' (fun v b t'' => Q (u ++ v) b t'') (f a)) :
    Takes n t Q (p >>= f) := by
  intro ts b rest hlen ht hrun
  rw [parse_bind] at hrun
  cases hp' : p ts with
  | error e =>
      rw [hp'] at hrun
      cases hrun
  | ok r =>
      rcases r with ⟨a, mid⟩
      rw [hp'] at hrun
      rcases hp ts a mid hlen ht hp' with ⟨used, rfl, hend, hpost⟩
      have hleft : mid.length + (tokensOf used).length ≤ n := by
        rw [List.length_append] at hlen
        simp only [tokensOf, List.length_map]
        omega
      rcases hf _ a _ hpost mid.length hleft mid b rest (Nat.le_refl _) rfl hrun with
        ⟨last, rfl, hend', hpost'⟩
      refine ⟨used ++ last, (List.append_assoc used last rest).symm, ?_, ?_⟩
      · intro t' ht'
        simp only [tokensOf, List.map_append, List.mem_append] at ht'
        rcases ht' with ht' | ht'
        · exact hend t' ht'
        · exact hend' t' ht'
      · simp only [tokensOf, List.map_append] at hpost' ⊢
        exact hpost'

/-- What a parser gives can be put into another form. -/
theorem map {p : Parser α} {f : α → β} (hp : Takes n t (fun u a t' => Q u (f a) t') p) :
    Takes n t Q (p >>= fun a => pure (f a)) := by
  intro ts b rest hlen ht hrun
  rw [parse_bind] at hrun
  cases hp' : p ts with
  | error e =>
      rw [hp'] at hrun
      cases hrun
  | ok r =>
      rcases r with ⟨a, mid⟩
      rw [hp'] at hrun
      cases hrun
      exact hp ts a rest hlen ht hp'

theorem pure {a : α} (h : P [] a t) : Takes n t P (Pure.pure a) := by
  intro ts b rest _ ht hrun
  cases hrun
  refine ⟨[], rfl, fun _ h => (List.not_mem_nil h).elim, ?_⟩
  rw [ht]
  exact h

theorem throw (e : SyntaxError) : Takes n t P (throw e : Parser α) := by
  intro ts a rest _ _ hrun
  cases hrun

theorem fail (cause : SyntaxCause) : Takes n t P (Parser.fail cause) := by
  intro ts a rest _ _ hrun
  cases ts <;> cases hrun

theorem failAt (cause : Token → SyntaxCause) : Takes n t P (Parser.failAt cause) := by
  intro ts a rest _ _ hrun
  cases ts <;> cases hrun

/-- Looking at the next token. -/
theorem next {f : Lexeme → Parser β} (hf : ∀ line, Takes n t Q (f ⟨t, line⟩)) :
    Takes n t Q (Parser.next >>= f) := by
  intro ts b rest hlen ht hrun
  cases ts with
  | nil => exact hf 0 [] b rest hlen ht (by rw [← ht]; exact hrun)
  | cons t' ts =>
      rcases t' with ⟨token, line⟩
      cases ht
      exact hf line _ b rest hlen rfl hrun

/-- Taking the next token, when it is not the end of the source. -/
theorem advance {f : Unit → Parser β} (ht : t ≠ .endOfSource)
    (hf : ∀ t' m, m + 1 ≤ n → Takes m t' (fun v b t'' => Q (t :: v) b t'') (f ())) :
    Takes n t Q (Parser.advance >>= f) := by
  have hone : Takes n t (fun u _ _ => u = [t]) Parser.advance := by
    intro ts a rest _ htoken hrun
    cases ts with
    | nil => exact (ht htoken.symm).elim
    | cons t' ts =>
        rcases t' with ⟨token, line⟩
        cases htoken
        -- Only the end of the source is not taken.
        have hrest : rest = ts := by
          cases token with
          | endOfSource => exact (ht rfl).elim
          | _ => cases hrun; rfl
        refine ⟨[⟨token, line⟩], by rw [hrest]; rfl, fun t' ht' => ?_, rfl⟩
        rw [List.mem_singleton.mp ht']
        exact ht
  refine hone.bind fun u a t' hu m hm => ?_
  subst hu
  exact hf t' m hm

theorem sees {m : Mark} {f : Bool → Parser β} (hyes : t = .mark m → Takes n t Q (f true))
    (hno : t ≠ .mark m → Takes n t Q (f false)) : Takes n t Q (Parser.sees m >>= f) := by
  unfold Parser.sees
  rw [bind_assoc]
  refine next fun line => ?_
  rw [pure_bind]
  cases t with
  | mark m' =>
      simp only [Token.isMark]
      by_cases h : m' = m
      · rw [h, beq_self_eq_true]
        rw [h] at hyes
        exact hyes rfl
      · rw [beq_false_of_ne h]
        refine hno fun heq => h ?_
        cases heq
        rfl
  | _ => exact hno fun heq => by cases heq

/-- Whether a block ends takes nothing to find out. -/
theorem blockEnds {f : Bool → Parser β} (hf : ∀ b, Takes n t Q (f b)) :
    Takes n t Q (Parser.blockEnds >>= f) := by
  unfold Parser.blockEnds
  rw [bind_assoc]
  refine next fun line => ?_
  rw [pure_bind]
  exact hf _

/-- A mark that may be there. -/
theorem accept {mark : Mark} {f : Bool → Parser β}
    (hyes : t = .mark mark → ∀ t' m, m + 1 ≤ n →
      Takes m t' (fun v b t'' => Q (.mark mark :: v) b t'') (f true))
    (hno : t ≠ .mark mark → Takes n t Q (f false)) :
    Takes n t Q (Parser.accept mark >>= f) := by
  unfold Parser.accept
  rw [bind_assoc]
  refine sees (fun h => ?_) fun h => ?_
  · rw [if_pos rfl, bind_assoc]
    subst h
    refine advance (fun h => by cases h) fun t' m hm => ?_
    rw [pure_bind]
    exact hyes rfl t' m hm
  · rw [if_neg Bool.false_ne_true, pure_bind]
    exact hno h

/-- A mark that has to be there. -/
theorem expect {mark : Mark} {f : Unit → Parser β}
    (hf : ∀ t' m, m + 1 ≤ n → Takes m t' (fun v b t'' => Q (.mark mark :: v) b t'') (f ())) :
    Takes n t Q (Parser.expect mark >>= f) := by
  unfold Parser.expect
  rw [bind_assoc]
  refine accept (fun _ t' m hm => ?_) fun _ => ?_
  · rw [if_pos rfl, pure_bind]
    exact hf t' m hm
  · rw [if_neg Bool.false_ne_true]
    exact bind (P := fun _ _ _ => False) (failAt _) fun _ _ _ h => h.elim

theorem name {f : String → Parser β}
    (hf : ∀ word t' m, m + 1 ≤ n →
      Takes m t' (fun v b t'' => Q (.name word :: v) b t'') (f word)) :
    Takes n t Q (Parser.name >>= f) := by
  unfold Parser.name
  rw [bind_assoc]
  refine next fun line => ?_
  cases t with
  | name word =>
      dsimp only
      rw [bind_assoc]
      refine advance (fun h => by cases h) fun t' m hm => ?_
      rw [pure_bind]
      exact hf word t' m hm
  | _ => exact bind (P := fun _ _ _ => False) (throw _) fun _ _ _ h => h.elim

/-- A name that has to be there, with nothing behind it. -/
theorem word : Takes n t (fun u word _ => NameForm u word) Parser.name := by
  have hname : Takes n t (fun u word _ => NameForm u word) (Parser.name >>= Pure.pure) :=
    name fun word t' m hm => pure rfl
  rw [bind_pure] at hname
  exact hname

/-- A parser that is run behind tokens that were taken in some other way. -/
theorem behind (first : List Lexeme) {R : List Token → α → Token → Prop} {p : Parser α}
    {ts rest : List Lexeme} {a : α} (hfirst : ∀ t ∈ tokensOf first, t ≠ .endOfSource)
    (hp : Takes ts.length (upcoming ts) (fun u b t' => R (tokensOf first ++ u) b t') p)
    (hrun : p ts = .ok (a, rest)) :
    ∃ used, first ++ ts = used ++ rest ∧ (∀ t ∈ tokensOf used, t ≠ .endOfSource) ∧
      R (tokensOf used) a (upcoming rest) := by
  rcases hp ts a rest (Nat.le_refl _) rfl hrun with ⟨used, rfl, hend, hpost⟩
  refine ⟨first ++ used, (List.append_assoc first used rest).symm, ?_, ?_⟩
  · intro t' ht'
    simp only [tokensOf, List.map_append, List.mem_append] at ht'
    rcases ht' with ht' | ht'
    · exact hfirst t' ht'
    · exact hend t' ht'
  · simp only [tokensOf, List.map_append] at hpost ⊢
    exact hpost

/-- A loop keeps what each of its rounds keeps, and ends with what its last round leads to. The rounds
    that go on take something, so with as many rounds as there are tokens the loop ends by itself,
    unless it is at the end of the source by then. The induction is on the rounds that are left. -/
theorem repeated {step : σ → Parser (σ × Bool)} {I : List Token → σ → Token → Prop}
    {R : List Token → σ → Token → Prop} {k : Nat}
    (hstep : ∀ u s t, I u s t → Takes k t (Round I R u) (step s))
    (rounds : Nat) (hn : n ≤ rounds) (hk : n ≤ k)
    (hover : n = rounds → ∀ u s, I u s .endOfSource → R u s .endOfSource) (u : List Token) (s : σ)
    (hI : I u s t) : Takes n t (fun v r t' => R (u ++ v) r t') (Parser.repeated step rounds s) := by
  induction rounds generalizing n t u s with
  | zero =>
      intro ts a rest hlen ht hrun
      cases hrun
      -- There are no rounds left only if there are no tokens left either.
      have hnil : ts = [] := List.eq_nil_of_length_eq_zero (by omega)
      subst hnil
      refine ⟨[], rfl, fun _ h => (List.not_mem_nil h).elim, ?_⟩
      cases ht
      simp only [tokensOf, List.map_nil, List.append_nil]
      exact hover (by omega) u s hI
  | succ rounds ih =>
      refine bind ((hstep u s t hI).shorter hk) fun v r t' hround m hm => ?_
      cases hround with
      | ended h =>
          refine pure ?_
          rw [List.append_nil]
          exact h
      | again hsome h =>
          have htaken : 0 < v.length := List.length_pos_iff.mpr hsome
          have hrest := ih (n := m) (by omega) (by omega) (fun h => hover (by omega)) (u ++ v) _ h
          refine imp hrest fun w b t'' h => ?_
          rw [← List.append_assoc]
          exact h

/-- Items with a mark between them, each of which takes what an item does. -/
theorem separated {rounds : Nat} {separator : Mark} {item : Parser α} {P : List Token → α → Prop}
    (hitem : ∀ n ≤ rounds, ∀ t, Takes n t (fun u a _ => P u a) item) (hn : n ≤ rounds) :
    Takes n t (fun u items _ => Separated separator P u items)
      (Parser.separated rounds separator item) := by
  refine bind (hitem n hn t) fun u first t' hfirst m hm => ?_
  -- The items are collected in front of one another.
  let Collected : List Token → List α → Token → Prop :=
    fun u items _ => Separated separator P u items.reverse
  refine map (repeated (I := Collected) (R := Collected) (k := rounds) (fun u items t hitems => ?_)
    rounds (by omega) (by omega) (fun _ _ _ h => h) u [first] (.one hfirst))
  refine accept (fun _ t' m hm => ?_) fun _ => ?_
  · rw [if_pos rfl]
    refine map ((hitem m (by omega) t').imp fun v a _ ha => .again (List.cons_ne_nil _ _) ?_)
    change Separated separator P _ (a :: items).reverse
    rw [List.reverse_cons]
    exact hitems.snoc ha
  · rw [if_neg Bool.false_ne_true]
    refine pure (.ended ?_)
    rw [List.append_nil]
    exact hitems

end Takes

/-- What does not begin like another entry is one without a key. -/
theorem Level.field_eq_item (l : Level) {ts : List Lexeme}
    (hnamed : ∀ x i j rest, ts ≠ ⟨.name x, i⟩ :: ⟨.mark .assign, j⟩ :: rest)
    (hkeyed : ∀ i rest, ts ≠ ⟨.mark .lBracket, i⟩ :: rest) :
    l.field ts = (do
      let value ← l.expr
      pure ⟨.item value.expr, value.height⟩ : Parser MeasuredField) ts := by
  unfold Level.field
  split
  · exact (hnamed _ _ _ _ rfl).elim
  · exact (hkeyed _ _ rfl).elim
  · rfl

end Script

end PixelEffects
