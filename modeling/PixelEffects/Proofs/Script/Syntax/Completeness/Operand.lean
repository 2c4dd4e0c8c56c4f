import PixelEffects.Proofs.Script.Syntax.Completeness.Block

/-!
# Completeness: Operands

The expressions that can be written are read, one level further out than their parts.

Operators and suffixes lean to the left. The parser reads the innermost operand first and then goes
on in a loop, while in the tree the innermost operand is furthest down. So it is shown that an
expression is read together with whatever the loop reads behind it, going down the left rim of the
expression; what the loop reads grows on the way.

Heights are part of it, because the parser refuses expressions by the height that it has counted.

## Theorems

* `Level.Complete.table`, `Level.Complete.arguments`: Tables and the arguments of calls.
* `Level.Complete.suffixed_then`, `Level.Complete.suffixed`: What has a head, with its suffixes.
* `Level.Complete.operandBelow_then`, `Level.Complete.operandBelow`: Expressions.
-/

namespace PixelEffects

namespace Script

open PixelEffects.Script.Parser

variable {chunk : String}

namespace Level

/-- The first operand, with the operators behind it. -/
theorem operandBelow_first {l : Level} {e : Expr} (he : e.every (printChecks chunk) = true)
    {limit : Nat} {v : List Token} {t : Token} {Q : Measured → Prop}
    (hfirst : Reads l.rounds (l.prefixed chunk) e.tokens (v.headD t) fun e' => e'.seen = e.seen)
    (hrest : ∀ e' : Measured, e'.seen = e.seen → Loops l.rounds (l.binaryStep limit) e' v t Q) :
    Reads l.rounds (l.operandBelow chunk limit) (e.tokens ++ v) t Q := by
  unfold Level.operandBelow
  refine Reads.bind hfirst fun e' he' => ?_
  have hheight := (Expr.fits he).height
  rw [← Measured.height_of_seen he'] at hheight
  exact Reads.check hheight (hrest e' he' l.rounds (Nat.le_refl _))

namespace Complete

variable {l : Level} {n : Nat} {t : Token} (h : l.Complete chunk n)

include h

/-! ### Tables and calls -/

theorem field_named {name : String} {value : Expr} (he : value.every (printChecks chunk) = true)
    (hn : value.levels ≤ n) (ht : t.endsExpr = true) :
    Reads l.rounds l.field (Field.named name value).tokens t
      fun f' => f'.seen = (Field.named name value).seen := by
  have hread : Reads l.rounds (do
      let value ← l.expr
      pure ⟨.named name value.expr, value.height⟩ : Parser MeasuredField) value.tokens t
      fun f' => f'.seen = (Field.named name value).seen := by
    refine Reads.map ((h.expr he hn ht).imp fun value' hvalue => ?_)
    simp only [MeasuredField.seen, Field.seen, Field.unlined, Field.height,
      Measured.unlined_of_seen hvalue, Measured.height_of_seen hvalue]
  rw [Field.tokens]
  intro us vs hus hlen ht
  rcases tokensOf_eq_cons hus with ⟨i, us₁, rfl, hus₁⟩
  rcases tokensOf_eq_cons hus₁ with ⟨j, us₂, rfl, hus₂⟩
  rw [List.length_cons, List.length_cons] at hlen
  exact hread us₂ vs hus₂ (by omega) ht

theorem field_keyed {key value : Expr}
    (hkey : key.every (printChecks chunk) = true ∧ key.levels ≤ n)
    (hvalue : value.every (printChecks chunk) = true ∧ value.levels ≤ n) (ht : t.endsExpr = true) :
    Reads l.rounds l.field (Field.keyed key value).tokens t
      fun f' => f'.seen = (Field.keyed key value).seen := by
  have hread : Reads l.rounds (do
      let key ← l.expr
      expect .rBracket
      expect .assign
      let value ← l.expr
      pure ⟨.keyed key.expr value.expr, max key.height value.height⟩ : Parser MeasuredField)
      (key.tokens ++ .mark .rBracket :: .mark .assign :: value.tokens) t
      fun f' => f'.seen = (Field.keyed key value).seen := by
    refine Reads.bind (h.expr hkey.1 hkey.2 rfl) fun key' hkey' => ?_
    refine Reads.expect (Reads.expect ?_)
    refine Reads.map ((h.expr hvalue.1 hvalue.2 ht).imp fun value' hvalue' => ?_)
    simp only [MeasuredField.seen, Field.seen, Field.unlined, Field.height,
      Measured.unlined_of_seen hkey', Measured.height_of_seen hkey',
      Measured.unlined_of_seen hvalue', Measured.height_of_seen hvalue']
  rw [Field.tokens]
  intro us vs hus hlen ht
  rcases tokensOf_eq_cons hus with ⟨i, us₁, rfl, hus₁⟩
  rw [List.length_cons] at hlen
  exact hread us₁ vs hus₁ (by omega) ht

theorem field_item {value : Expr} (he : value.every (printChecks chunk) = true)
    (hn : value.levels ≤ n) (ht : t.endsExpr = true) (hassign : t ≠ .mark .assign) :
    Reads l.rounds l.field (Field.item value).tokens t
      fun f' => f'.seen = (Field.item value).seen := by
  have hread : Reads l.rounds (do
      let value ← l.expr
      pure ⟨.item value.expr, value.height⟩ : Parser MeasuredField) value.tokens t
      fun f' => f'.seen = (Field.item value).seen := by
    refine Reads.map ((h.expr he hn ht).imp fun value' hvalue => ?_)
    simp only [MeasuredField.seen, Field.seen, Field.unlined, Field.height,
      Measured.unlined_of_seen hvalue, Measured.height_of_seen hvalue]
  rw [Field.tokens]
  intro us vs hus hlen hvs
  have hnext : upcoming (us ++ vs) = value.tokens.headD t := by
    rw [upcoming_append, hvs]
    exact congrArg (fun w => List.headD w t) hus
  rw [field_eq_item l]
  · exact hread us vs hus hlen hvs
  · -- The mark would be the second token of the value, or the one behind it.
    intro x i j rest hts
    rcases Expr.begins he with ⟨t₀, w, hw, _⟩
    rcases tokensOf_eq_cons (hus.trans hw) with ⟨k, us₁, rfl, hus₁⟩
    rw [List.cons_append, List.cons.injEq] at hts
    cases hts.1
    refine Expr.notNamed he x w hw t hassign ?_
    rw [← hus₁, ← hvs, ← upcoming_append, hts.2]
    rfl
  · intro i rest hts
    rw [hts] at hnext
    exact Token.ne_mark Token.startsExpr ((Expr.begins he).headD t) rfl hnext.symm

theorem field {f : Field} (hf : f.every (printChecks chunk) = true) (hn : f.levels ≤ n)
    (ht : t.endsExpr = true) (hassign : t ≠ .mark .assign) :
    Reads l.rounds l.field f.tokens t fun f' => f'.seen = f.seen := by
  cases f with
  | named name value => exact h.field_named hf hn ht
  | keyed key value =>
      rw [Field.every, Bool.and_eq_true] at hf
      rw [Field.levels] at hn
      exact h.field_keyed ⟨hf.1, by omega⟩ ⟨hf.2, by omega⟩ ht
  | item value => exact h.field_item hf hn ht hassign

/-- An entry and what follows it in a table constructor. -/
theorem fieldStep {f : Field} (hf : f.every (printChecks chunk) = true) (hn : f.levels ≤ n)
    {m : Mark} {goOn : Bool} (hm : (m, goOn) = (.comma, true) ∨ (m, goOn) = (.rBrace, false))
    (fields : List MeasuredField) :
    Reads l.rounds (l.fieldStep fields) (f.tokens ++ [.mark m]) t
      fun r => r.2 = goOn ∧ ∃ f', r.1 = f' :: fields ∧ f'.seen = f.seen := by
  have hfirst := ((Field.begins hf).append [.mark m]).headD t
  have hends : (Token.mark m).endsExpr = true ∧ Token.mark m ≠ .mark .assign := by
    rcases hm with hm | hm <;> cases hm <;> exact ⟨rfl, fun h => by cases h⟩
  unfold Level.fieldStep
  refine Reads.accept_none (Token.ne_mark Token.startsField hfirst rfl) ?_
  rw [if_neg Bool.false_ne_true]
  refine Reads.bind (h.field hf hn hends.1 hends.2) fun f' hf' => ?_
  refine Reads.map (Q := fun r : List MeasuredField × Bool =>
    r.2 = goOn ∧ ∃ f', r.1 = f' :: fields ∧ f'.seen = f.seen) ?_
  unfold fieldEnd
  rcases hm with hm | hm
  · cases hm
    refine Reads.accept_some ?_
    rw [if_pos rfl]
    exact Reads.pure ⟨rfl, f', rfl, hf'⟩
  · cases hm
    refine Reads.accept_none (fun h => by cases h) ?_
    rw [if_neg Bool.false_ne_true]
    refine Reads.accept_none (fun h => by cases h) ?_
    rw [if_neg Bool.false_ne_true]
    exact Reads.expect (Reads.pure ⟨rfl, f', rfl, hf'⟩)

/-- The entries that are still to come are read behind those that were. -/
theorem fields {fs : List Field} (hfs : everyField (printChecks chunk) fs = true)
    (hn : levelsOfFields fs ≤ n) (before : List MeasuredField) :
    Loops l.rounds l.fieldStep before (joined .comma (tokensOfFields fs) ++ [.mark .rBrace]) t
      fun fs' => fs'.reverse.map MeasuredField.seen =
        before.reverse.map MeasuredField.seen ++ fs.map Field.seen := by
  induction fs generalizing before with
  | nil =>
      refine Loops.ended (Reads.accept_some ?_) fun hnil => by cases hnil
      rw [if_pos rfl, List.map_nil, List.append_nil]
      exact Reads.pure ⟨rfl, rfl⟩
  | cons f fs ih =>
      rw [everyField, Bool.and_eq_true] at hfs
      rw [levelsOfFields] at hn
      have hf : f.levels ≤ n := by omega
      have hsome := (Field.begins hfs.1).ne_nil
      cases fs with
      | nil =>
          rw [tokensOfFields, tokensOfFields, joined_singleton]
          have hstep := h.fieldStep (t := t) hfs.1 hf (.inr rfl) before
          refine Loops.ended (hstep.imp fun r hr => ?_) fun hnil => ?_
          · rcases hr with ⟨hover, f', hr, hf'⟩
            rw [hr, ← map_reverse_cons hf', List.map_nil, List.append_nil]
            exact ⟨hover, rfl⟩
          · exact (hsome (List.append_eq_nil_iff.mp hnil).1).elim
      | cons f₂ fs =>
          have htokens : joined .comma (tokensOfFields (f :: f₂ :: fs)) ++ [.mark .rBrace] =
              (f.tokens ++ [.mark .comma]) ++
                (joined .comma (tokensOfFields (f₂ :: fs)) ++ [.mark .rBrace]) := by
            rw [tokensOfFields, tokensOfFields, joined_cons_cons]
            simp only [List.append_assoc, List.cons_append, List.nil_append]
          rw [htokens]
          refine Loops.again (P := fun r => ∃ f', r = f' :: before ∧ f'.seen = f.seen)
            (h.fieldStep hfs.1 hf (.inl rfl) before)
            (fun hnil => hsome (List.append_eq_nil_iff.mp hnil).1) ?_
          rintro _ ⟨f', rfl, hf'⟩
          rw [← map_reverse_cons hf']
          exact ih hfs.2 (by omega) (f' :: before)

theorem table {fs : List Field} (hfs : everyField (printChecks chunk) fs = true)
    (hn : levelsOfFields fs ≤ n) :
    Reads l.rounds l.table (Expr.table fs).tokens t fun e' => e'.seen = (Expr.table fs).seen := by
  rw [Expr.tokens]
  unfold Level.table
  refine Reads.expect (Reads.map ?_)
  refine ((h.fields hfs hn [] _ (Nat.le_refl _)).imp fun fs' hfs' => ?_)
  exact table_seen hfs'

/-- Arguments in parentheses. -/
theorem arguments {args : List Expr} (hargs : everyExpr (printChecks chunk) args = true)
    (hn : levelsOfExprs args ≤ n) :
    Reads l.rounds l.arguments
      (.mark .lParen :: (joined .comma (tokensOfExprs args) ++ [.mark .rParen])) t
      fun args' => args'.map Measured.seen = args.map Expr.seen := by
  unfold Level.arguments
  refine Reads.next fun line => Reads.advance (fun h => by cases h) ?_
  cases args with
  | nil =>
      refine Reads.accept_some ?_
      rw [if_pos rfl]
      exact Reads.pure rfl
  | cons arg args =>
      have hfirst := ((begins_exprs hargs .comma).append [.mark .rParen]).headD t
      refine Reads.accept_none (Token.ne_mark Token.startsExpr hfirst rfl) ?_
      rw [if_neg Bool.false_ne_true]
      refine Reads.bind (h.exprs (List.cons_ne_nil _ _) hargs hn rfl fun h => by cases h) ?_
      exact fun args' hargs' => Reads.expect (Reads.pure hargs')

/-! ### Suffixes -/

theorem suffixStep_index {object key : Expr}
    (he : (Expr.index object key).every (printChecks chunk) = true)
    (hn : (Expr.index object key).levels ≤ n + 1) {e : Measured} (hseen : e.seen = object.seen) :
    Reads l.rounds (l.suffixStep e) (.mark .lBracket :: (key.tokens ++ [.mark .rBracket])) t
      fun r => r.2 = true ∧ r.1.seen = (Expr.index object key).seen := by
  rw [Expr.every, Bool.and_eq_true, Bool.and_eq_true] at he
  rw [Expr.levels] at hn
  have hheight := (Expr.fits he.2.1).height
  rw [← Measured.height_of_seen hseen] at hheight
  unfold Level.suffixStep
  refine Reads.check hheight (Reads.next fun line => Reads.advance (fun h => by cases h) ?_)
  refine Reads.bind (h.expr he.2.2 (by omega) rfl) fun key' hkey => ?_
  refine Reads.expect (Reads.pure ⟨rfl, ?_⟩)
  simp only [Measured.seen, Expr.seen, Expr.unlined, Expr.height,
    Measured.unlined_of_seen hseen, Measured.height_of_seen hseen,
    Measured.unlined_of_seen hkey, Measured.height_of_seen hkey]

theorem suffixStep_call {callee : Expr} {args : List Expr}
    (he : (Expr.call callee args).every (printChecks chunk) = true)
    (hn : (Expr.call callee args).levels ≤ n + 1) {e : Measured} (hseen : e.seen = callee.seen) :
    Reads l.rounds (l.suffixStep e)
      (.mark .lParen :: (joined .comma (tokensOfExprs args) ++ [.mark .rParen])) t
      fun r => r.2 = true ∧ r.1.seen = (Expr.call callee args).seen := by
  rw [Expr.every, Bool.and_eq_true, Bool.and_eq_true] at he
  rw [Expr.levels] at hn
  have hheight := (Expr.fits he.2.1).height
  rw [← Measured.height_of_seen hseen] at hheight
  unfold Level.suffixStep Level.callSuffix
  refine Reads.check hheight (Reads.next fun line => Reads.map (Reads.map ?_))
  refine (h.arguments he.2.2 (by omega)).imp fun args' hargs => ⟨rfl, ?_⟩
  simp only [Measured.seen, Expr.seen, Expr.unlined, Expr.height,
    Measured.unlined_of_seen hseen, Measured.height_of_seen hseen,
    unlinedExprs_of_seen hargs, tallest_of_seen hargs]

theorem suffixStep_method {object : Expr} {name : String} {args : List Expr}
    (he : (Expr.method object name args).every (printChecks chunk) = true)
    (hn : (Expr.method object name args).levels ≤ n + 1) {e : Measured}
    (hseen : e.seen = object.seen) :
    Reads l.rounds (l.suffixStep e) (.mark .colon :: .name name :: .mark .lParen ::
        (joined .comma (tokensOfExprs args) ++ [.mark .rParen])) t
      fun r => r.2 = true ∧ r.1.seen = (Expr.method object name args).seen := by
  rw [Expr.every, Bool.and_eq_true, Bool.and_eq_true] at he
  rw [Expr.levels] at hn
  have hheight := (Expr.fits he.2.1).height
  rw [← Measured.height_of_seen hseen] at hheight
  unfold Level.suffixStep
  refine Reads.check hheight (Reads.next fun line => Reads.advance (fun h => by cases h) ?_)
  refine Reads.name (Reads.map ?_)
  refine (h.arguments he.2.2 (by omega)).imp fun args' hargs => ⟨rfl, ?_⟩
  simp only [Measured.seen, Expr.seen, Expr.unlined, Expr.height,
    Measured.unlined_of_seen hseen, Measured.height_of_seen hseen,
    unlinedExprs_of_seen hargs, tallest_of_seen hargs]

/-- What has a head is read with all the suffixes behind it. Those that it ends with itself are rounds
    of the loop behind what is furthest down on its left. -/
theorem suffixed_then : ∀ {e : Expr}, e.isHead = true → e.every (printChecks chunk) = true →
    e.levels ≤ n + 1 → ∀ {v : List Token} {Q : Measured → Prop},
    (∀ e' : Measured, e'.seen = e.seen → Loops l.rounds l.suffixStep e' v t Q) →
    Reads l.rounds l.suffixed (e.tokens ++ v) t Q
  | .name x, _, _, _, v, Q, hrest => by
      rw [Expr.tokens]
      unfold Level.suffixed
      refine Reads.bind (u := [.name x]) (P := fun e => e.seen = (Expr.name x).seen) ?_
        fun e he => hrest e he l.rounds (Nat.le_refl _)
      unfold Level.primary
      exact Reads.next fun line => Reads.advance (fun h => by cases h) (Reads.pure rfl)
  | .paren inner, _, he, hn, v, Q, hrest => by
      rw [Expr.every, Bool.and_eq_true] at he
      rw [Expr.levels] at hn
      rw [Expr.tokens]
      unfold Level.suffixed
      refine Reads.bind (P := fun e => e.seen = (Expr.paren inner).seen) ?_
        fun e he => hrest e he l.rounds (Nat.le_refl _)
      unfold Level.primary
      refine Reads.next fun line => Reads.advance (fun h => by cases h) ?_
      refine Reads.bind (h.expr he.2 (by omega) rfl) fun inner' hinner => ?_
      refine Reads.expect (Reads.pure ?_)
      simp only [Measured.seen, Expr.seen, Expr.unlined, Expr.height,
        Measured.unlined_of_seen hinner, Measured.height_of_seen hinner]
  | .index object key, _, he, hn, v, Q, hrest => by
      have hobject : object.every (printChecks chunk) = true ∧ object.levels ≤ n + 1 := by
        rw [Expr.every, Bool.and_eq_true, Bool.and_eq_true] at he
        rw [Expr.levels] at hn
        exact ⟨he.2.1, by omega⟩
      rw [Expr.tokens, List.append_assoc]
      refine suffixed_then (Expr.fits he).headed hobject.1 hobject.2 fun e' he' => ?_
      exact Loops.again (h.suffixStep_index he hn he') (List.cons_ne_nil _ _) hrest
  | .call callee args, _, he, hn, v, Q, hrest => by
      have hcallee : callee.every (printChecks chunk) = true ∧ callee.levels ≤ n + 1 := by
        rw [Expr.every, Bool.and_eq_true, Bool.and_eq_true] at he
        rw [Expr.levels] at hn
        exact ⟨he.2.1, by omega⟩
      rw [Expr.tokens, List.append_assoc]
      refine suffixed_then (Expr.fits he).headed hcallee.1 hcallee.2 fun e' he' => ?_
      exact Loops.again (h.suffixStep_call he hn he') (List.cons_ne_nil _ _) hrest
  | .method object name args, _, he, hn, v, Q, hrest => by
      have hobject : object.every (printChecks chunk) = true ∧ object.levels ≤ n + 1 := by
        rw [Expr.every, Bool.and_eq_true, Bool.and_eq_true] at he
        rw [Expr.levels] at hn
        exact ⟨he.2.1, by omega⟩
      rw [Expr.tokens, List.append_assoc]
      refine suffixed_then (Expr.fits he).headed hobject.1 hobject.2 fun e' he' => ?_
      exact Loops.again (h.suffixStep_method he hn he') (List.cons_ne_nil _ _) hrest

/-- In front of a token that is no suffix, the loop is over. -/
theorem suffixed {e : Expr} (hhead : e.isHead = true) (he : e.every (printChecks chunk) = true)
    (hn : e.levels ≤ n + 1) (ht : t.isSuffix = false) :
    Reads l.rounds l.suffixed e.tokens t fun e' => e'.seen = e.seen := by
  rw [← List.append_nil e.tokens]
  refine h.suffixed_then hhead he hn fun e' he' => Loops.ended ?_ fun _ => he'
  have hheight := (Expr.fits he).height
  rw [← Measured.height_of_seen he'] at hheight
  unfold Level.suffixStep
  refine Reads.check hheight (Reads.next fun line => ?_)
  rw [List.headD_nil]
  have hover : Reads l.rounds (Pure.pure (e', false) : Parser (Measured × Bool)) [] t
      fun r => r.2 = false ∧ r.1.seen = e.seen := Reads.pure ⟨rfl, he'⟩
  cases t with
  | mark m => cases m <;> first | exact hover | cases ht
  | text s => cases ht
  | _ => exact hover

/-! ### Operators -/

/-- What has a head is an operand without operators. -/
theorem simple_head {e : Expr} (hhead : e.isHead = true)
    (he : e.every (printChecks chunk) = true) (hn : e.levels ≤ n + 1) (ht : t.isSuffix = false) :
    Reads l.rounds (l.simple chunk) e.tokens t fun e' => e'.seen = e.seen := by
  have hfirst := (Expr.begins_head hhead he).headD t
  have hread := h.suffixed hhead he hn ht
  unfold Level.simple
  refine Reads.next fun line => ?_
  generalize e.tokens.headD t = t₀ at hfirst ⊢
  cases t₀ with
  | name x => exact hread
  | mark m => cases m <;> first | exact hread | cases hfirst
  | _ => cases hfirst

theorem simple {e : Expr} (hsimple : e.isSimple = true) (he : e.every (printChecks chunk) = true)
    (hn : e.levels ≤ n + 1) (ht : t.isSuffix = false) :
    Reads l.rounds (l.simple chunk) e.tokens t fun e' => e'.seen = e.seen := by
  -- A token that is an operand on its own.
  have hleaf : ∀ {t' : Token} {e : Expr}, t' ≠ .endOfSource → e.height = 1 →
      Reads l.rounds (do advance; pure (.leaf e) : Parser Measured) [t'] t
        fun e' => e'.seen = e.seen := by
    intro t' e ht' hheight
    refine Reads.advance ht' (Reads.pure ?_)
    rw [Expr.seen, hheight]
    rfl
  cases e with
  | nil => exact Reads.next fun line => hleaf (fun h => by cases h) rfl
  | bool b => cases b <;> exact Reads.next fun line => hleaf (fun h => by cases h) rfl
  | number x => exact Reads.next fun line => hleaf (fun h => by cases h) rfl
  | text s => exact Reads.next fun line => hleaf (fun h => by cases h) rfl
  | function f =>
      have hnamed := (Expr.fits he).named
      simp only [Expr.named, Bool.and_eq_true, beq_iff_eq] at hnamed
      rw [Expr.every, Bool.and_eq_true] at he
      rw [Expr.levels] at hn
      rw [Expr.tokens]
      refine Reads.next fun line => Reads.advance (fun h => by cases h) (Reads.map ?_)
      have hread := h.functionBody (t := t) he.2 hnamed.2 (by omega)
        (fun hmethod => (Bool.false_ne_true hmethod).elim) line
      rw [hnamed.1] at hread
      refine hread.imp fun f' hf' => ?_
      simp only [Measured.leaf, Measured.seen, Expr.seen, Expr.unlined, Expr.height, hf']
  | table fields =>
      rw [Expr.every, Bool.and_eq_true] at he
      rw [Expr.levels] at hn
      have hread := h.table (t := t) he.2 (by omega)
      rw [Expr.tokens] at hread ⊢
      exact Reads.next fun line => hread
  | unary op operand => cases hsimple
  | binary op left right => cases hsimple
  | _ => exact h.simple_head rfl he hn ht

/-- Without a unary operator in front, the first operand is one without operators. -/
theorem prefixed_simple {e : Expr} (hsimple : e.isSimple = true)
    (he : e.every (printChecks chunk) = true) (hn : e.levels ≤ n + 1) (ht : t.isSuffix = false) :
    Reads l.rounds (l.prefixed chunk) e.tokens t fun e' => e'.seen = e.seen := by
  unfold Level.prefixed
  refine Reads.next fun line => ?_
  rw [Token.unaryOp?_of_startsSimple ((Expr.begins_simple hsimple he).headD t)]
  exact h.simple hsimple he hn ht

theorem prefixed_unary {op : UnaryOp} {operand : Expr}
    (he : (Expr.unary op operand).every (printChecks chunk) = true)
    (hn : (Expr.unary op operand).levels ≤ n + 1) (ht : t.isSuffix = false)
    (hstops : Stops unaryStrength operand t) :
    Reads l.rounds (l.prefixed chunk) (Expr.unary op operand).tokens t
      fun e' => e'.seen = (Expr.unary op operand).seen := by
  have hopens := (Expr.fits he).ranks
  rw [Expr.every, Bool.and_eq_true] at he
  rw [Expr.levels] at hn
  rw [Expr.tokens]
  unfold Level.prefixed
  refine Reads.next fun line => ?_
  rw [List.headD_cons, unaryOp?_mark]
  refine Reads.advance (fun h => by cases h) (Reads.map ?_)
  refine (h.operand he.2 hopens (by omega) hstops ht).imp fun operand' hoperand => ?_
  simp only [Measured.seen, Expr.seen, Expr.unlined, Expr.height,
    Measured.unlined_of_seen hoperand, Measured.height_of_seen hoperand]

/-- An operator that binds its left operand more strongly than what is in front of that. -/
theorem binaryStep {op : BinaryOp} {left right : Expr}
    (he : (Expr.binary op left right).every (printChecks chunk) = true)
    (hn : (Expr.binary op left right).levels ≤ n + 1) {limit : Nat}
    (hopens : (Expr.binary op left right).opens limit = true) (ht : t.isSuffix = false)
    (hstops : Stops op.strength.2 right t) {e : Measured} (hseen : e.seen = left.seen) :
    Reads l.rounds (l.binaryStep limit e) (.mark op.mark :: right.tokens) t
      fun r => r.2 = true ∧ r.1.seen = (Expr.binary op left right).seen := by
  have hfits := Expr.fits he
  have hranks := hfits.ranks
  have hheight := hfits.height
  rw [Expr.ranks, Bool.and_eq_true] at hranks
  rw [Expr.every, Bool.and_eq_true, Bool.and_eq_true] at he
  rw [Expr.levels] at hn
  rw [Expr.opens, decide_eq_true_eq] at hopens
  unfold Level.binaryStep
  refine Reads.next fun line => ?_
  simp only [List.headD_cons, binaryOp?_mark]
  rw [if_neg (by omega)]
  refine Reads.advance (fun h => by cases h) ?_
  refine Reads.bind_nil (h.operand he.2.2 hranks.2 (by omega) hstops ht) fun right' hright => ?_
  have hsame : Measured.seen ⟨.binary op e.expr right'.expr, max e.height right'.height + 1⟩ =
      (Expr.binary op left right).seen := by
    simp only [Measured.seen, Expr.seen, Expr.unlined, Expr.height,
      Measured.unlined_of_seen hseen, Measured.height_of_seen hseen,
      Measured.unlined_of_seen hright, Measured.height_of_seen hright]
  rw [← Measured.height_of_seen hsame] at hheight
  exact Reads.check hheight (Reads.pure ⟨rfl, hsame⟩)

/-- An expression is read with all the operators behind it that go on with it. Its own operators are
    rounds of the loop behind what is furthest down on its left. -/
theorem operandBelow_then {limit : Nat} : ∀ {e : Expr}, e.every (printChecks chunk) = true →
    e.opens limit = true → e.levels ≤ n + 1 → ∀ {v : List Token} {Q : Measured → Prop},
    (v.headD t).isSuffix = false →
    (∀ op, binaryOp? (v.headD t) = some op → e.closes op.strength.1 = true) →
    (∀ e' : Measured, e'.seen = e.seen → Loops l.rounds (l.binaryStep limit) e' v t Q) →
    Reads l.rounds (l.operandBelow chunk limit) (e.tokens ++ v) t Q := by
  intro e he hopens hn v Q hsuffix hcloses hrest
  cases hsimple : e.isSimple with
  | true => exact operandBelow_first he (h.prefixed_simple hsimple he hn hsuffix) hrest
  | false =>
      cases e with
      | unary op operand =>
          have hstops : Stops unaryStrength operand (v.headD t) := by
            intro op' hop'
            have hclosed := hcloses op' hop'
            rw [Expr.closes, Bool.and_eq_true, decide_eq_true_eq] at hclosed
            exact hclosed
          exact operandBelow_first he (h.prefixed_unary he hn hsuffix hstops) hrest
      | binary op left right =>
          have hranks := (Expr.fits he).ranks
          rw [Expr.ranks, Bool.and_eq_true] at hranks
          have hstops : Stops op.strength.2 right (v.headD t) := by
            intro op' hop'
            have hclosed := hcloses op' hop'
            rw [Expr.closes, Bool.and_eq_true, decide_eq_true_eq] at hclosed
            exact hclosed
          have hleft : left.every (printChecks chunk) = true ∧ left.levels ≤ n + 1 ∧
              left.opens limit = true := by
            rw [Expr.every, Bool.and_eq_true, Bool.and_eq_true] at he
            rw [Expr.levels] at hn
            rw [Expr.opens, decide_eq_true_eq] at hopens
            exact ⟨he.2.1, by omega, Expr.opens_of_closes hranks.1 hopens⟩
          rw [Expr.tokens, List.append_assoc]
          -- What comes behind the left operand is the operator, which it is closed to.
          refine operandBelow_then hleft.1 hleft.2.2 hleft.2.1 (isSuffix_mark op) ?_ ?_
          · intro op' hop'
            rw [List.cons_append, List.headD_cons, binaryOp?_mark] at hop'
            cases hop'
            exact hranks.1
          · intro e' he'
            exact Loops.again (h.binaryStep he hn hopens hsuffix hstops he')
              (List.cons_ne_nil _ _) hrest
      | _ => cases hsimple
termination_by e => sizeOf e

/-- In front of an operator that does not go on with it, the loop is over. -/
theorem operandBelow {limit : Nat} {e : Expr} (he : e.every (printChecks chunk) = true)
    (hopens : e.opens limit = true) (hn : e.levels ≤ n + 1) (hstops : Stops limit e t)
    (ht : t.isSuffix = false) :
    Reads l.rounds (l.operandBelow chunk limit) e.tokens t fun e' => e'.seen = e.seen := by
  rw [← List.append_nil e.tokens]
  refine h.operandBelow_then he hopens hn ht (fun op hop => (hstops op hop).2) ?_
  intro e' he'
  refine Loops.ended ?_ fun _ => he'
  unfold Level.binaryStep
  refine Reads.next fun line => ?_
  simp only [List.headD_nil]
  cases hop : binaryOp? t with
  | none => exact Reads.pure ⟨rfl, he'⟩
  | some op =>
      have hlimit := (hstops op hop).1
      dsimp only
      rw [if_pos hlimit]
      exact Reads.pure ⟨rfl, he'⟩

end Complete

end Level

end Script

end PixelEffects
