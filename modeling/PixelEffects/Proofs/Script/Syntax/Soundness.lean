import PixelEffects.Proofs.Script.Syntax.Precedence
import PixelEffects.Proofs.Script.Syntax.Takes

/-!
# Soundness of the Parser

What the parser accepts is what the grammar says.

The tokens of a source up to its end spell the block that the parser gives for them, so none of them
is left out, used twice or used in another order. And the operators in it stand with operands that
are read as they are meant.

The proof goes through the parser rule by rule, with parsers for statements and operands that are
sound already. The spellings are put together as the tokens are taken. For the operators it matters
where an operand ends. It ends before an operator only if that binds no more strongly to its left
than the limit that the operand was read with, and if all that is on the right rim of the operand
ends there as well (`Stops`). So the loop that reads operators knows, whenever it takes one, that the
left operand is closed to it, and the right operand was read with a limit that makes it open.

## Main definitions

* `Spells`: Tokens spell an expression, which is ranked.
* `Level.Sound`: The parsers of a level are sound.
* `sourceTokens`: The tokens of a source up to its end.

## Theorems

* `Level.Sound.suffixed`, `Level.Sound.action` and others: One for each rule of the grammar.
* `Level.Sound.operandBelow`, `Level.Sound.statementBelow`: The next level.
* `parseTokens_sound`: Whatever is accepted is spelled by the source and ranked.
-/

namespace PixelEffects

namespace Script

open PixelEffects.Script.Parser

section Posts

variable (chunk : String)

/-- Some tokens spell an expression, and the expression is ranked. -/
structure Spells (u : List Token) (e : Expr) : Prop where
  some : u ≠ []
  form : ExprForm chunk u e
  ranked : e.every rankChecks = true

/-- Some tokens spell a block, and the block is ranked. -/
structure SpellsBlock (u : List Token) (body : List Stmt) : Prop where
  form : BlockForm chunk u body
  ranked : everyStmt rankChecks body = true

/-- Some tokens spell what a statement does, and it is ranked. -/
structure SpellsAction (u : List Token) (a : Action) : Prop where
  some : u ≠ []
  form : ActionForm chunk u a
  ranked : a.every rankChecks = true

/-- Some tokens spell several expressions with commas between them, which are ranked. -/
structure SpellsList (u : List Token) (es : List Expr) : Prop where
  form : Separated .comma (ExprForm chunk) u es
  ranked : everyExpr rankChecks es = true

end Posts

variable {chunk : String}

theorem Separated.spellsList {u : List Token} {es : List Measured}
    (h : Separated .comma (fun u e => Spells chunk u e.expr) u es) :
    SpellsList chunk u (es.map (·.expr)) := by
  refine ⟨h.map fun u e he => he.form, everyExpr_iff.mpr fun e he => ?_⟩
  rcases List.mem_map.mp he with ⟨e', he', rfl⟩
  exact h.all (fun u e he => he.ranked) e' he'

/-- Refusing an expression that is too tall takes nothing. -/
theorem Takes.check {β : Type} {n : Nat} {t : Token} {Q : List Token → β → Token → Prop}
    {e : Measured} {f : Unit → Parser β} (hf : Takes n t Q (f ())) :
    Takes n t Q (e.check >>= f) := by
  unfold Measured.check
  split
  · exact Takes.bind (P := fun _ _ _ => False) (Takes.fail _) fun _ _ _ h => h.elim
  · rw [pure_bind]
    exact hf

namespace Level

theorem mark_of_unaryOp? {t : Token} {op : UnaryOp} (h : unaryOp? t = some op) :
    t = .mark op.mark := by
  cases t with
  | mark m => cases m <;> cases h <;> rfl
  | _ => cases h

theorem mark_of_binaryOp? {t : Token} {op : BinaryOp} (h : binaryOp? t = some op) :
    t = .mark op.mark := by
  cases t with
  | mark m => cases m <;> cases h <;> rfl
  | _ => cases h

/-- The parsers of a level take what spells that which they give. -/
structure Sound (chunk : String) (l : Level) : Prop where
  statement : ∀ n ≤ l.rounds, ∀ t, Takes n t
    (fun u s _ => u ≠ [] ∧ StmtForm chunk u s ∧ s.every rankChecks = true) l.statement
  operand : ∀ limit, ∀ n ≤ l.rounds, ∀ t, Takes n t
    (fun u e t' => Spells chunk u e.expr ∧ e.expr.opens limit = true ∧ Stops limit e.expr t')
    (l.operand limit)

namespace Sound

variable {l : Level} {n : Nat} {t : Token} (h : l.Sound chunk) (hn : n ≤ l.rounds)

include h hn

theorem expr : Takes n t (fun u e _ => Spells chunk u e.expr) l.expr :=
  (h.operand 0 n hn t).imp fun _ _ _ he => he.1

theorem exprs : Takes n t (fun u es _ => SpellsList chunk u (es.map (·.expr))) l.exprs := by
  have hitem : ∀ n ≤ l.rounds, ∀ t, Takes n t (fun u e _ => Spells chunk u e.expr) l.expr :=
    fun n hn t => h.expr hn
  exact (Takes.separated hitem hn).imp fun _ _ _ hes => hes.spellsList

/-! ### Blocks -/

theorem returnValues : Takes n t (fun u es _ =>
    Listed .comma (ExprForm chunk) u es ∧ everyExpr rankChecks es = true) l.returnValues := by
  refine Takes.blockEnds fun ends => ?_
  split
  · exact Takes.pure ⟨.none, rfl⟩
  · refine Takes.sees (fun _ => ?_) fun _ => ?_
    · exact Takes.pure ⟨.none, rfl⟩
    · exact Takes.map ((h.exprs hn).imp fun _ _ _ hes => ⟨.some hes.form, hes.ranked⟩)

theorem returnStatement : Takes n (.mark .returnWord)
    (fun u s _ => ReturnForm chunk u s ∧ s.every rankChecks = true) l.returnStatement := by
  refine Takes.next fun line => Takes.advance (fun h => by cases h) fun t' m hm => ?_
  refine (h.returnValues (by omega)).bind fun u es t' hes m' hm' => ?_
  rcases hes with ⟨hform, hranked⟩
  have hevery : (Stmt.mk line (.returnValues es)).every rankChecks = true := by
    rw [Stmt.every, Action.every]
    exact hranked
  refine Takes.accept (fun _ t'' m'' _ => Takes.blockEnds fun ends => ?_)
    fun _ => Takes.blockEnds fun ends => ?_
  · split
    · exact Takes.pure ⟨.semi line hform, hevery⟩
    · exact Takes.failAt _
  · split
    · refine Takes.pure ⟨?_, hevery⟩
      rw [List.append_nil]
      exact .bare line hform
    · exact Takes.failAt _

theorem block : Takes n t (fun u body _ => SpellsBlock chunk u body) l.block := by
  -- What has been taken so far makes a block with whatever comes after it.
  let Begun (u : List Token) (stmts : List Stmt) (_ : Token) : Prop :=
    (∀ v rest, BlockForm chunk v rest → BlockForm chunk (u ++ v) (stmts.reverse ++ rest)) ∧
      ∀ s ∈ stmts, s.every rankChecks = true
  let Whole (u : List Token) (stmts : List Stmt) (_ : Token) : Prop :=
    SpellsBlock chunk u stmts.reverse
  have hwhole : ∀ u stmts v rest, Begun u stmts t → BlockForm chunk v rest →
      (∀ s ∈ rest, s.every rankChecks = true) →
      SpellsBlock chunk (u ++ v) (stmts.reverse ++ rest) := by
    intro u stmts v rest hbegun hform hrest
    refine ⟨hbegun.1 v rest hform, everyStmt_rankChecks.mpr fun s hs => ?_⟩
    rcases List.mem_append.mp hs with hs | hs
    · exact hbegun.2 s (List.mem_reverse.mp hs)
    · exact hrest s hs
  have hover : ∀ u stmts, Begun u stmts .endOfSource → SpellsBlock chunk u stmts.reverse := by
    intro u stmts hbegun
    have hall := hwhole u stmts [] [] hbegun .none fun s hs => (List.not_mem_nil hs).elim
    rw [List.append_nil, List.append_nil] at hall
    exact hall
  have hstep : ∀ u stmts t, Begun u stmts t →
      Takes l.rounds t (Round Begun Whole u) (l.blockStep stmts) := by
    intro u stmts t hbegun
    refine Takes.blockEnds fun ends => ?_
    split
    · refine Takes.pure (.ended ?_)
      rw [List.append_nil]
      exact hover u stmts hbegun
    · refine Takes.accept (fun _ t' m hm => ?_) fun _ => ?_
      · -- A semicolon does not show in the tree.
        refine Takes.pure (.again (List.cons_ne_nil _ _) ⟨fun v rest hform => ?_, hbegun.2⟩)
        rw [List.append_assoc]
        exact hbegun.1 _ rest (.semi hform)
      · refine Takes.sees (fun ht => ?_) fun _ => ?_
        · subst ht
          refine Takes.map ((h.returnStatement (Nat.le_refl _)).imp fun v s _ hs => .ended ?_)
          change SpellsBlock chunk (u ++ v) (s :: stmts).reverse
          rw [List.reverse_cons]
          refine hwhole u stmts v [s] hbegun (.last hs.1) fun s' hs' => ?_
          rw [List.mem_singleton.mp hs']
          exact hs.2
        · refine Takes.map ((h.statement _ (Nat.le_refl _) t).imp fun v s _ hs => ?_)
          rcases hs with ⟨hsome, hform, hranked⟩
          refine .again hsome ⟨fun w rest hrest => ?_, fun s' hs' => ?_⟩
          · rw [List.append_assoc, List.reverse_cons, List.append_assoc]
            exact hbegun.1 _ _ (.more hform hrest)
          · rcases List.mem_cons.mp hs' with rfl | hs'
            · exact hranked
            · exact hbegun.2 s' hs'
  have hloop := Takes.repeated hstep l.rounds hn hn (fun _ u stmts => hover u stmts) [] [] (t := t)
    ⟨fun v rest hform => hform, fun s hs => (List.not_mem_nil hs).elim⟩
  exact Takes.map hloop

theorem closedBlock : Takes n t
    (fun u body _ => ∃ v, u = v ++ [.mark .endWord] ∧ SpellsBlock chunk v body) l.closedBlock := by
  refine (h.block hn).bind fun u body t' hbody m hm => ?_
  refine Takes.expect fun t'' m' hm' => Takes.pure ?_
  exact ⟨u, rfl, hbody⟩

omit h hn in
theorem parameters (hn : n ≤ l.rounds) : Takes n t
    (fun u params _ => ∃ v, u = v ++ [.mark .rParen] ∧ Listed .comma NameForm v params)
    l.parameters := by
  refine Takes.accept (fun _ t' m hm => Takes.pure ⟨[], rfl, .none⟩) fun _ => ?_
  refine (Takes.separated (fun n hn t => Takes.word) hn).bind fun u params t' hparams m hm => ?_
  refine Takes.expect fun t'' m' hm' => Takes.pure ?_
  exact ⟨u, rfl, .some hparams⟩

theorem functionBody (name : String) (isMethod : Bool) (line : Nat) : Takes n t
    (fun u f _ => FunctionForm chunk name isMethod u f ∧ f.every rankChecks = true)
    (l.functionBody chunk name isMethod line) := by
  refine Takes.expect fun t' m hm => ?_
  refine (parameters (by omega)).bind fun u params t'' hparams m' hm' => ?_
  rcases hparams with ⟨v, rfl, hparams⟩
  refine Takes.map ((h.closedBlock (by omega)).imp fun w body _ hbody => ?_)
  rcases hbody with ⟨w, rfl, hbody⟩
  rw [List.append_assoc]
  refine ⟨.mk name isMethod line hparams hbody.form, ?_⟩
  rw [Function.every]
  exact hbody.ranked

/-! ### Tables -/

theorem field : Takes n t
    (fun u f _ => FieldForm chunk u f.field ∧ f.field.every rankChecks = true) l.field := by
  let Post (u : List Token) (f : MeasuredField) (_ : Token) : Prop :=
    FieldForm chunk u f.field ∧ f.field.every rankChecks = true
  intro ts f rest hlen ht hrun
  unfold Level.field at hrun
  -- What kind of entry there is can be told from the first two tokens.
  split at hrun
  · next ts' word line line' ts =>
      simp only [List.length_cons] at hlen
      have hvalue : Takes ts.length (upcoming ts)
          (fun u f t' => Post ([.name word, .mark .assign] ++ u) f t')
          (l.expr >>= fun value => pure ⟨.named word value.expr, value.height⟩) := by
        refine Takes.map ((h.expr (by omega)).imp fun u e _ he => ⟨.named word he.form, ?_⟩)
        rw [Field.every]
        exact he.ranked
      refine Takes.behind [⟨.name word, line⟩, ⟨.mark .assign, line'⟩] ?_ hvalue hrun
      intro t ht
      rcases List.mem_cons.mp ht with rfl | ht
      · exact fun h => by cases h
      · rw [List.mem_singleton.mp ht]
        exact fun h => by cases h
  · next ts' line ts =>
      simp only [List.length_cons] at hlen
      have hentry : Takes ts.length (upcoming ts)
          (fun u f t' => Post ([.mark .lBracket] ++ u) f t')
          (do
            let key ← l.expr
            expect .rBracket
            expect .assign
            let value ← l.expr
            pure ⟨.keyed key.expr value.expr, max key.height value.height⟩) := by
        refine (h.expr (by omega)).bind fun u key t' hkey m hm => ?_
        refine Takes.expect fun t'' m' hm' => Takes.expect fun t''' m'' hm'' => ?_
        refine Takes.map ((h.expr (by omega)).imp fun v value _ hvalue => ?_)
        refine ⟨.keyed hkey.form hvalue.form, ?_⟩
        rw [Field.every, Bool.and_eq_true]
        exact ⟨hkey.ranked, hvalue.ranked⟩
      refine Takes.behind [⟨.mark .lBracket, line⟩] ?_ hentry hrun
      intro t ht
      rw [List.mem_singleton.mp ht]
      exact fun h => by cases h
  · have hitem : Takes n t Post (l.expr >>= fun value => pure ⟨.item value.expr, value.height⟩) := by
      refine Takes.map ((h.expr hn).imp fun u value _ hvalue => ⟨.item hvalue.form, ?_⟩)
      rw [Field.every]
      exact hvalue.ranked
    exact hitem ts f rest hlen ht hrun

omit h hn in
/-- Behind an entry there is a comma, a semicolon, or the closing brace. -/
theorem fieldEnd : Takes n t (fun u goOn _ =>
    goOn = true ∧ (∃ m, (m = .comma ∨ m = .semi) ∧ u = [.mark m]) ∨
      goOn = false ∧ u = [.mark .rBrace]) Level.fieldEnd := by
  refine Takes.accept (fun _ t' m hm => Takes.pure (.inl ⟨rfl, _, .inl rfl, rfl⟩)) fun _ => ?_
  refine Takes.accept (fun _ t' m hm => Takes.pure (.inl ⟨rfl, _, .inr rfl, rfl⟩)) fun _ => ?_
  exact Takes.expect fun t' m hm => Takes.pure (.inr ⟨rfl, rfl⟩)

theorem table : Takes n t (fun u e _ => ∃ v fields, u = .mark .lBrace :: (v ++ [.mark .rBrace]) ∧
    e.expr = .table fields ∧ Entries (FieldForm chunk) v fields ∧
    everyField rankChecks fields = true) l.table := by
  -- What has been taken so far makes a list of entries with whatever comes after it.
  let Begun (u : List Token) (fields : List MeasuredField) (_ : Token) : Prop :=
    (∀ v rest, Entries (FieldForm chunk) v rest →
      Entries (FieldForm chunk) (u ++ v) (fields.reverse.map (·.field) ++ rest)) ∧
    ∀ f ∈ fields, f.field.every rankChecks = true
  let Closed (u : List Token) (fields : List MeasuredField) (_ : Token) : Prop :=
    ∃ v, u = v ++ [.mark .rBrace] ∧
      Entries (FieldForm chunk) v (fields.reverse.map (·.field)) ∧
      ∀ f ∈ fields, f.field.every rankChecks = true
  have hstep : ∀ u fields t, Begun u fields t →
      Takes l.rounds t (Round Begun Closed u) (l.fieldStep fields) := by
    intro u fields t hbegun
    refine Takes.accept (fun _ t' m hm => Takes.pure (.ended ?_)) fun _ => ?_
    · have hform := hbegun.1 [] [] .none
      rw [List.append_nil, List.append_nil] at hform
      exact ⟨u, rfl, hform, hbegun.2⟩
    · refine (h.field (Nat.le_refl _)).bind fun v f t' hf m hm => ?_
      have hall : ∀ f' ∈ f :: fields, f'.field.every rankChecks = true := by
        intro f' hf'
        rcases List.mem_cons.mp hf' with rfl | hf'
        · exact hf.2
        · exact hbegun.2 f' hf'
      refine Takes.map (fieldEnd.imp fun w goOn _ hend => ?_)
      rcases hend with ⟨rfl, ⟨mark, hmark, rfl⟩⟩ | ⟨rfl, rfl⟩
      · refine .again ?_ ⟨fun x rest hrest => ?_, hall⟩
        · exact fun hnil => by
            have := congrArg List.length hnil
            simp only [List.length_append, List.length_cons, List.length_nil] at this
            omega
        · have hmore := hbegun.1 _ _ (.more hf.1 hmark hrest)
          rw [List.reverse_cons, List.map_append, List.append_assoc]
          simp only [List.append_assoc, List.cons_append, List.nil_append] at hmore ⊢
          exact hmore
      · refine .ended ⟨u ++ v, (List.append_assoc u v _).symm, ?_, hall⟩
        rw [List.reverse_cons, List.map_append]
        exact hbegun.1 _ _ (.last hf.1)
  refine Takes.expect fun t' m hm => ?_
  -- The opening brace was a token, so there are more rounds than tokens to go.
  have hloop := Takes.repeated hstep l.rounds (t := t') (n := m) (by omega) (by omega)
    (fun heq => by omega) [] []
    ⟨fun v rest hrest => hrest, fun f hf => (List.not_mem_nil hf).elim⟩
  refine Takes.map (hloop.imp fun u fields _ hclosed => ?_)
  rcases hclosed with ⟨v, hu, hform, hall⟩
  refine ⟨v, _, congrArg _ hu, rfl, hform, everyField_iff.mpr fun f hf => ?_⟩
  rcases List.mem_map.mp hf with ⟨f', hf', rfl⟩
  exact hall f' (List.mem_reverse.mp hf')

/-! ### Calls and operands -/

theorem arguments : Takes n t (fun u args _ => u ≠ [] ∧ ArgsForm chunk u (args.map (·.expr)) ∧
    everyExpr rankChecks (args.map (·.expr)) = true) l.arguments := by
  refine Takes.next fun line => ?_
  dsimp only
  split
  · refine Takes.advance (fun h => by cases h) fun t' m hm => Takes.pure ?_
    exact ⟨List.cons_ne_nil _ _, .text _, rfl⟩
  · refine Takes.map ((h.table hn).imp fun u e _ htable => ?_)
    rcases htable with ⟨v, fields, rfl, he, hform, hranked⟩
    rw [List.map_singleton, he]
    refine ⟨List.cons_ne_nil _ _, .table hform, ?_⟩
    rw [everyExpr, Expr.every, hranked]
    rfl
  · refine Takes.advance (fun h => by cases h) fun t' m hm => ?_
    refine Takes.accept (fun _ t'' m' hm' => Takes.pure ?_) fun _ => ?_
    · exact ⟨List.cons_ne_nil _ _, .paren .none, rfl⟩
    · refine (h.exprs (by omega)).bind fun u args t'' hargs m' hm' => ?_
      refine Takes.expect fun t''' m'' hm'' => Takes.pure ?_
      exact ⟨List.cons_ne_nil _ _, .paren (.some hargs.form), hargs.ranked⟩
  · exact Takes.throw _

theorem primary : Takes n t
    (fun u e _ => Spells chunk u e.expr ∧ e.expr.isSimple = true) l.primary := by
  refine Takes.next fun line => ?_
  dsimp only
  split
  · refine Takes.advance (fun h => by cases h) fun t' m hm => Takes.pure ?_
    exact ⟨⟨List.cons_ne_nil _ _, .name _, rfl⟩, rfl⟩
  · refine Takes.advance (fun h => by cases h) fun t' m hm => ?_
    refine (h.expr (by omega)).bind fun u inner t'' hinner m' hm' => ?_
    refine Takes.expect fun t''' m'' hm'' => Takes.pure ?_
    refine ⟨⟨List.cons_ne_nil _ _, .paren hinner.form, ?_⟩, rfl⟩
    rw [Expr.every, hinner.ranked]
    rfl
  · exact Takes.throw _

/-- A call of what was read before, which the tokens `u` spell. -/
theorem callSuffix {u : List Token} {e : Measured} (he : Spells chunk u e.expr) : Takes n t
    (fun v e _ => v ≠ [] ∧ Spells chunk (u ++ v) e.expr ∧ e.expr.isSimple = true)
    (l.callSuffix e) := by
  refine Takes.map ((h.arguments hn).imp fun v args _ hargs => ?_)
  rcases hargs with ⟨hsome, hform, hranked⟩
  refine ⟨hsome, ⟨List.append_ne_nil_of_left_ne_nil he.some v, .call he.form hform, ?_⟩, rfl⟩
  rw [Expr.every, he.ranked, hranked]
  rfl

theorem suffixed : Takes n t
    (fun u e _ => Spells chunk u e.expr ∧ e.expr.isSimple = true) l.suffixed := by
  let Read (u : List Token) (e : Measured) (_ : Token) : Prop :=
    Spells chunk u e.expr ∧ e.expr.isSimple = true
  have hstep : ∀ u e t, Read u e t → Takes l.rounds t (Round Read Read u) (l.suffixStep e) := by
    rintro u e t ⟨he, hsimple⟩
    have hsome : ∀ v, u ++ v ≠ [] := List.append_ne_nil_of_left_ne_nil he.some
    have hcall := h.callSuffix (t := t) (Nat.le_refl _) he
    refine Takes.check (Takes.next fun line => ?_)
    dsimp only
    split
    · refine Takes.advance (fun h => by cases h) fun t' m hm => ?_
      refine Takes.name fun key t'' m' hm' => Takes.pure (.again (List.cons_ne_nil _ _) ?_)
      refine ⟨⟨hsome _, .field key he.form, ?_⟩, rfl⟩
      rw [Expr.every, he.ranked]
      rfl
    · refine Takes.advance (fun h => by cases h) fun t' m hm => ?_
      refine (h.expr (by omega)).bind fun v key t'' hkey m' hm' => ?_
      refine Takes.expect fun t''' m'' hm'' => Takes.pure (.again (List.cons_ne_nil _ _) ?_)
      refine ⟨⟨hsome _, .index he.form hkey.form, ?_⟩, rfl⟩
      rw [Expr.every, he.ranked, hkey.ranked]
      rfl
    · refine Takes.advance (fun h => by cases h) fun t' m hm => ?_
      refine Takes.name fun name t'' m' hm' => ?_
      refine Takes.map ((h.arguments (by omega)).imp fun v args _ hargs => ?_)
      rcases hargs with ⟨-, hform, hranked⟩
      refine .again (List.cons_ne_nil _ _) ⟨⟨hsome _, .method name he.form hform, ?_⟩, rfl⟩
      rw [Expr.every, he.ranked, hranked]
      rfl
    · exact Takes.map (hcall.imp fun v e _ he => .again he.1 he.2)
    · exact Takes.map (hcall.imp fun v e _ he => .again he.1 he.2)
    · exact Takes.map (hcall.imp fun v e _ he => .again he.1 he.2)
    · refine Takes.pure (.ended ?_)
      rw [List.append_nil]
      exact ⟨he, hsimple⟩
  refine (h.primary hn).bind fun u e t' he m hm => ?_
  exact Takes.repeated hstep l.rounds (by omega) (by omega) (fun _ _ _ h => h) u e he

theorem simple : Takes n t
    (fun u e _ => Spells chunk u e.expr ∧ e.expr.isSimple = true) (l.simple chunk) := by
  refine Takes.next fun line => ?_
  dsimp only
  split
  · refine Takes.advance (fun h => by cases h) fun t' m hm => Takes.pure ?_
    exact ⟨⟨List.cons_ne_nil _ _, .number _, rfl⟩, rfl⟩
  · refine Takes.advance (fun h => by cases h) fun t' m hm => Takes.pure ?_
    exact ⟨⟨List.cons_ne_nil _ _, .text _, rfl⟩, rfl⟩
  · refine Takes.advance (fun h => by cases h) fun t' m hm => Takes.pure ?_
    exact ⟨⟨List.cons_ne_nil _ _, .nil, rfl⟩, rfl⟩
  · refine Takes.advance (fun h => by cases h) fun t' m hm => Takes.pure ?_
    exact ⟨⟨List.cons_ne_nil _ _, .true, rfl⟩, rfl⟩
  · refine Takes.advance (fun h => by cases h) fun t' m hm => Takes.pure ?_
    exact ⟨⟨List.cons_ne_nil _ _, .false, rfl⟩, rfl⟩
  · refine (h.table hn).imp fun u e _ htable => ?_
    rcases htable with ⟨v, fields, rfl, he, hform, hranked⟩
    rw [he]
    refine ⟨⟨List.cons_ne_nil _ _, .table hform, ?_⟩, rfl⟩
    rw [Expr.every, hranked]
    rfl
  · refine Takes.advance (fun h => by cases h) fun t' m hm => ?_
    refine Takes.map ((h.functionBody (by omega) "anonymous" false line).imp fun u f _ hf => ?_)
    refine ⟨⟨List.cons_ne_nil _ _, .function hf.1, ?_⟩, rfl⟩
    change (Expr.function f).every rankChecks = true
    rw [Expr.every, hf.2]
    rfl
  · exact h.suffixed hn

/-- The first operand is open to every limit, and closed to what comes next. -/
theorem prefixed : Takes n t (fun u e t' => Spells chunk u e.expr ∧
    (∀ limit, e.expr.opens limit = true) ∧
    ∀ op, binaryOp? t' = some op → e.expr.closes op.strength.1 = true) (l.prefixed chunk) := by
  refine Takes.next fun line => ?_
  dsimp only
  cases hop : unaryOp? t with
  | some op =>
      rw [mark_of_unaryOp? hop]
      refine Takes.advance (fun h => by cases h) fun t' m hm => ?_
      refine Takes.map ((h.operand unaryStrength m (by omega) t').imp fun u e t'' he => ?_)
      rcases he with ⟨he, hopens, hstops⟩
      refine ⟨⟨List.cons_ne_nil _ _, .unary op he.form, ?_⟩, fun limit => rfl, fun op' hop' => ?_⟩
      · rw [Expr.every, he.ranked, Bool.and_true]
        exact hopens
      · -- The operand was read with the limit of unary operators.
        rcases hstops op' hop' with ⟨hle, hcloses⟩
        rw [Expr.closes, hcloses, decide_eq_true hle]
        rfl
  | none =>
      refine (h.simple hn).imp fun u e t' he => ?_
      refine ⟨he.1, fun limit => Expr.opens_of_isSimple he.2 limit, fun op' hop' => ?_⟩
      exact Expr.closes_of_isSimple he.2 _

/-- An operand with its operators, on the next level. -/
theorem operandBelow (limit : Nat) : Takes n t
    (fun u e t' => Spells chunk u e.expr ∧ e.expr.opens limit = true ∧ Stops limit e.expr t')
    (l.operandBelow chunk limit) := by
  -- Whatever operator comes next, what was read so far is closed to it.
  let Read (u : List Token) (e : Measured) (t : Token) : Prop :=
    Spells chunk u e.expr ∧ e.expr.opens limit = true ∧
      ∀ op, binaryOp? t = some op → e.expr.closes op.strength.1 = true
  let Whole (u : List Token) (e : Measured) (t : Token) : Prop :=
    Spells chunk u e.expr ∧ e.expr.opens limit = true ∧ Stops limit e.expr t
  have hstep : ∀ u e t, Read u e t →
      Takes l.rounds t (Round Read Whole u) (l.binaryStep limit e) := by
    rintro u e t ⟨he, hopens, hcloses⟩
    refine Takes.next fun line => ?_
    dsimp only
    cases hop : binaryOp? t with
    | none =>
        refine Takes.pure (.ended ?_)
        rw [List.append_nil]
        refine ⟨he, hopens, fun op' hop' => ?_⟩
        rw [hop] at hop'
        cases hop'
    | some op =>
        dsimp only
        by_cases hle : op.strength.1 ≤ limit
        · rw [if_pos hle]
          refine Takes.pure (.ended ?_)
          rw [List.append_nil]
          refine ⟨he, hopens, fun op' hop' => ?_⟩
          have hsame := hcloses op' hop'
          rw [hop] at hop'
          cases hop'
          exact ⟨hle, hsame⟩
        · rw [if_neg hle]
          have hleft := hcloses op hop
          rw [mark_of_binaryOp? hop]
          refine Takes.advance (fun h => by cases h) fun t' m hm => ?_
          refine (h.operand op.strength.2 m (by omega) t').bind fun v r t'' hr m' hm' => ?_
          rcases hr with ⟨hr, hropens, hrstops⟩
          refine Takes.check (Takes.pure (.again (List.cons_ne_nil _ _) ?_))
          rw [List.append_nil]
          refine ⟨⟨List.append_ne_nil_of_left_ne_nil he.some _, .binary op he.form hr.form, ?_⟩,
            decide_eq_true (Nat.lt_of_not_le hle), fun op' hop' => ?_⟩
          · rw [Expr.every, he.ranked, hr.ranked, Bool.and_true, Bool.and_true]
            exact Bool.and_eq_true_iff.mpr ⟨hleft, hropens⟩
          · -- The right operand ends before the next operator, and so does its own rim.
            rcases hrstops op' hop' with ⟨hle', hrcloses⟩
            rw [Expr.closes, hrcloses, decide_eq_true hle']
            rfl
  have hover : ∀ u e, Read u e .endOfSource → Whole u e .endOfSource := by
    rintro u e ⟨he, hopens, -⟩
    exact ⟨he, hopens, fun op hop => by cases hop⟩
  refine (h.prefixed hn).bind fun u e t' he m hm => ?_
  refine Takes.check ?_
  exact Takes.repeated hstep l.rounds (by omega) (by omega) (fun _ => hover) u e
    ⟨he.1, he.2.1 limit, he.2.2⟩

/-! ### Statements -/

theorem arm : Takes n t (fun u a _ => u ≠ [] ∧ ArmForm chunk u a ∧ a.every rankChecks = true)
    l.arm := by
  refine (h.expr hn).bind fun u condition t' hcondition m hm => ?_
  refine Takes.expect fun t'' m' hm' => ?_
  refine Takes.map ((h.block (by omega)).imp fun v body _ hbody => ?_)
  refine ⟨List.append_ne_nil_of_left_ne_nil hcondition.some _,
    .mk hcondition.form hbody.form, ?_⟩
  rw [Arm.every, hcondition.ranked, hbody.ranked]
  rfl

theorem branch : Takes n t (fun u a _ => SpellsAction chunk (.mark .ifWord :: u) a) l.branch := by
  -- The arms up to here, and in the end all of them and the last block if there is one.
  let Begun (u : List Token) (arms : List Arm × Option (List Stmt)) (_ : Token) : Prop :=
    arms.2 = none ∧ Separated .elseIfWord (ArmForm chunk) u arms.1.reverse ∧
      ∀ a ∈ arms.1, a.every rankChecks = true
  let Whole (u : List Token) (arms : List Arm × Option (List Stmt)) (_ : Token) : Prop :=
    SpellsAction chunk (.mark .ifWord :: u) (.branch arms.1.reverse arms.2)
  have hranked : ∀ {arms : List Arm}, (∀ a ∈ arms, a.every rankChecks = true) →
      everyArm rankChecks arms.reverse = true :=
    fun hall => everyArm_iff.mpr fun a ha => hall a (List.mem_reverse.mp ha)
  have hstep : ∀ u arms t, Begun u arms t →
      Takes l.rounds t (Round Begun Whole u) (l.armStep arms) := by
    rintro u ⟨arms, otherwise⟩ t ⟨hnone, hform, hall⟩
    dsimp only at hnone hform hall
    subst hnone
    refine Takes.accept (fun _ t' m hm => ?_) fun _ => ?_
    · refine Takes.map ((h.arm (by omega)).imp fun v a _ ha => ?_)
      rcases ha with ⟨-, haform, haranked⟩
      refine .again (List.cons_ne_nil _ _) ⟨rfl, ?_, fun a' ha' => ?_⟩
      · change Separated .elseIfWord (ArmForm chunk) _ (a :: arms).reverse
        rw [List.reverse_cons]
        exact hform.snoc haform
      · rcases List.mem_cons.mp ha' with rfl | ha'
        · exact haranked
        · exact hall a' ha'
    · refine Takes.accept (fun _ t' m hm => ?_) fun _ => ?_
      · refine Takes.map ((h.closedBlock (by omega)).imp fun v body _ hbody => .ended ?_)
        rcases hbody with ⟨w, rfl, hbody⟩
        refine ⟨List.cons_ne_nil _ _, .branchElse hform hbody.form, ?_⟩
        change Action.every rankChecks (.branch arms.reverse (some body)) = true
        rw [Action.every, hranked hall, hbody.ranked]
        rfl
      · refine Takes.expect fun t' m hm => Takes.pure (.ended ?_)
        refine ⟨List.cons_ne_nil _ _, .branch hform, ?_⟩
        change Action.every rankChecks (.branch arms.reverse none) = true
        rw [Action.every, hranked hall]
        rfl
  refine (h.arm hn).bind fun u first t' hfirst m hm => ?_
  rcases hfirst with ⟨hsome, hform, hfranked⟩
  have htaken : 0 < u.length := List.length_pos_iff.mpr hsome
  have hone : Begun u ([first], none) t' := by
    refine ⟨rfl, .one hform, fun a ha => ?_⟩
    rw [List.mem_singleton.mp ha]
    exact hfranked
  have hloop := Takes.repeated hstep l.rounds (n := m) (t := t') (by omega) (by omega)
    (fun heq => by omega) u ([first], none) hone
  exact Takes.map hloop

omit hn in
/-- The step of a numeric loop and the comma in front of it, or neither. -/
theorem loopStep? (hn : n ≤ l.rounds) : Takes n t (fun u step _ => step = none ∧ u = [] ∨
    ∃ e v, step = some e ∧ u = .mark .comma :: v ∧ Spells chunk v e) l.loopStep? := by
  refine Takes.accept (fun _ t' m hm => ?_) fun _ => Takes.pure (.inl ⟨rfl, rfl⟩)
  exact Takes.map ((h.expr (by omega)).imp fun u e _ he => .inr ⟨_, u, rfl, rfl, he⟩)

theorem countLoop (counter : String) : Takes n t (fun u a _ => SpellsAction chunk
    (.mark .forWord :: .name counter :: .mark .assign :: u) a) (l.countLoop counter) := by
  refine (h.expr hn).bind fun u start t' hstart m hm => ?_
  refine Takes.expect fun t'' m' hm' => ?_
  refine (h.expr (by omega)).bind fun v limit t''' hlimit m'' hm'' => ?_
  refine (h.loopStep? (by omega)).bind fun w step t₁ hstep m₁ hm₁ => ?_
  refine Takes.expect fun t₂ m₂ hm₂ => ?_
  refine Takes.map ((h.closedBlock (by omega)).imp fun x body _ hbody => ?_)
  rcases hbody with ⟨x, rfl, hbody⟩
  rcases hstep with ⟨rfl, rfl⟩ | ⟨e, w, rfl, rfl, he⟩
  · refine ⟨List.cons_ne_nil _ _, ?_, ?_⟩
    · exact .countLoop counter hstart.form hlimit.form hbody.form
    · rw [Action.every, hstart.ranked, hlimit.ranked, hbody.ranked]
      rfl
  · refine ⟨List.cons_ne_nil _ _, ?_, ?_⟩
    · exact .countLoopStep counter hstart.form hlimit.form he.form hbody.form
    · rw [Action.every, hstart.ranked, hlimit.ranked, he.ranked, hbody.ranked]
      rfl

omit h hn in
theorem moreNames (hn : n ≤ l.rounds) (first : String) : Takes n t
    (fun u names _ => Separated .comma NameForm (.name first :: u) names)
    (l.moreNames first) := by
  refine Takes.accept (fun _ t' m hm => ?_) fun _ => Takes.pure (.one rfl)
  have hnames : Takes m t' (fun u names _ => Separated .comma NameForm u names)
      (Parser.separated l.rounds .comma Parser.name) :=
    Takes.separated (fun n hn t => Takes.word) (by omega)
  exact Takes.map (hnames.imp fun u names _ hnames => .more (u := [.name first]) rfl hnames)

theorem eachLoop (first : String) : Takes n t (fun u a _ => SpellsAction chunk
    (.mark .forWord :: .name first :: u) a) (l.eachLoop first) := by
  refine (moreNames hn first).bind fun u names t' hnames m hm => ?_
  refine Takes.expect fun t'' m' hm' => ?_
  refine (h.exprs (by omega)).bind fun v exprs t''' hexprs m'' hm'' => ?_
  refine Takes.expect fun t₁ m₁ hm₁ => ?_
  refine Takes.map ((h.closedBlock (by omega)).imp fun w body _ hbody => ?_)
  rcases hbody with ⟨w, rfl, hbody⟩
  refine ⟨List.cons_ne_nil _ _, .eachLoop hnames hexprs.form hbody.form, ?_⟩
  rw [Action.every, hexprs.ranked, hbody.ranked]
  rfl

theorem forLoop : Takes n t (fun u a _ => SpellsAction chunk (.mark .forWord :: u) a)
    l.forLoop := by
  refine Takes.name fun first t' m hm => ?_
  refine Takes.accept (fun _ t'' m' hm' => ?_) fun _ => ?_
  · exact h.countLoop (by omega) first
  · exact h.eachLoop (by omega) first

omit h hn in
/-- The name of a method and the colon in front of it, or neither. -/
theorem methodName? : Takes n t (fun u method _ => method = none ∧ u = [] ∨
    ∃ name, method = some name ∧ u = [.mark .colon, .name name]) Level.methodName? := by
  refine Takes.accept (fun _ t' m hm => ?_) fun _ => Takes.pure (.inl ⟨rfl, rfl⟩)
  exact Takes.name fun name t'' m' hm' => Takes.pure (.inr ⟨name, rfl, rfl⟩)

theorem definition (line : Nat) : Takes n t
    (fun u a _ => SpellsAction chunk (.mark .functionWord :: u) a)
    (l.definition chunk line) := by
  refine (Takes.separated (fun n hn t => Takes.word) hn).bind fun u path t' hpath m hm => ?_
  refine methodName?.bind fun v method t'' hmethod m' hm' => ?_
  rcases hmethod with ⟨rfl, rfl⟩ | ⟨name, rfl, rfl⟩
  · have hf := h.functionBody (t := t'') (show m' ≤ l.rounds by omega)
      (String.intercalate "." path) false line
    simp only [Option.toList_none, List.append_nil, Option.isSome_none]
    refine Takes.map (hf.imp fun w f _ hf => ⟨List.cons_ne_nil _ _, .define hpath hf.1, ?_⟩)
    rw [Action.every, hf.2]
    rfl
  · have hf := h.functionBody (t := t'') (show m' ≤ l.rounds by omega)
      (String.intercalate "." (path ++ [name])) true line
    refine Takes.map (hf.imp fun w f _ hf => ?_)
    refine ⟨List.cons_ne_nil _ _, .defineMethod name hpath hf.1, ?_⟩
    change Action.every rankChecks (.define _ _ true f) = true
    rw [Action.every, hf.2]
    rfl

/-- The values of a declaration and the mark in front of them, or neither. -/
theorem initialValues : Takes n t (fun u values _ => values = [] ∧ u = [] ∨
    ∃ v, u = .mark .assign :: v ∧ SpellsList chunk v values) l.initialValues := by
  refine Takes.accept (fun _ t' m hm => ?_) fun _ => Takes.pure (.inl ⟨rfl, rfl⟩)
  exact Takes.map ((h.exprs (by omega)).imp fun u values _ hvalues => .inr ⟨u, rfl, hvalues⟩)

theorem declaration (line : Nat) : Takes n t
    (fun u a _ => SpellsAction chunk (.mark .localWord :: u) a)
    (l.declaration chunk line) := by
  refine Takes.accept (fun _ t' m hm => ?_) fun _ => ?_
  · refine Takes.name fun name t'' m' hm' => ?_
    refine Takes.map ((h.functionBody (by omega) name false line).imp fun u f _ hf => ?_)
    refine ⟨List.cons_ne_nil _ _, .declareFunction name hf.1, ?_⟩
    rw [Action.every, hf.2]
    rfl
  · refine (Takes.separated (fun n hn t => Takes.word) hn).bind fun u names t' hnames m hm => ?_
    refine Takes.map ((h.initialValues (by omega)).imp fun v values _ hvalues => ?_)
    rcases hvalues with ⟨rfl, rfl⟩ | ⟨w, rfl, hvalues⟩
    · rw [List.append_nil]
      exact ⟨List.cons_ne_nil _ _, .declare hnames, rfl⟩
    · refine ⟨List.cons_ne_nil _ _, .declareValues hnames hvalues.form, ?_⟩
      rw [Action.every, hvalues.ranked]
      rfl

/-- The targets of an assignment, of which the first is spelled by the tokens `u`. -/
theorem moreTargets {u : List Token} {first : Measured} (hfirst : Spells chunk u first.expr) :
    Takes n t (fun v targets _ =>
      Separated .comma (fun u e => Spells chunk u e.expr) (u ++ v) targets)
      (l.moreTargets first) := by
  refine Takes.accept (fun _ t' m hm => ?_) fun _ => Takes.pure ?_
  · have hitem : ∀ n ≤ l.rounds, ∀ t, Takes n t (fun u e _ => Spells chunk u e.expr) l.suffixed :=
      fun n hn t => (h.suffixed hn).imp fun _ _ _ he => he.1
    refine Takes.map ((Takes.separated hitem (by omega)).imp fun v targets _ htargets => ?_)
    exact .more hfirst htargets
  · rw [List.append_nil]
    exact .one hfirst

theorem assignment {u : List Token} {first : Measured} (hfirst : Spells chunk u first.expr) :
    Takes n t (fun v a _ => SpellsAction chunk (u ++ v) a) (l.assignment first) := by
  refine (h.moreTargets hn hfirst).bind fun v targets t' htargets m hm => ?_
  by_cases hall : targets.all (·.expr.isAssignable) = true
  · rw [if_pos hall]
    refine Takes.expect fun t'' m' hm' => ?_
    refine Takes.map ((h.exprs (by omega)).imp fun w values _ hvalues => ?_)
    rw [← List.append_assoc]
    refine ⟨List.append_ne_nil_of_left_ne_nil
      (List.append_ne_nil_of_left_ne_nil hfirst.some _) _, ?_, ?_⟩
    · refine .assign htargets.spellsList.form ?_ hvalues.form
      rw [List.all_map]
      exact hall
    · rw [Action.every, htargets.spellsList.ranked, hvalues.ranked]
      rfl
  · rw [if_neg hall]
    exact Takes.fail _

theorem exprStatement : Takes n t (fun u a _ => SpellsAction chunk u a) l.exprStatement := by
  refine (h.suffixed hn).bind fun u first t' hfirst m hm => ?_
  refine Takes.next fun line => ?_
  dsimp only
  split
  · exact h.assignment (by omega) hfirst.1
  · exact h.assignment (by omega) hfirst.1
  · split
    · next hmulti =>
        refine Takes.pure ?_
        rw [List.append_nil]
        refine ⟨hfirst.1.some, .call hfirst.1.form hmulti, ?_⟩
        rw [Action.every, hfirst.1.ranked]
        rfl
    · exact Takes.throw _

theorem whileLoop : Takes n t (fun u a _ => SpellsAction chunk (.mark .whileWord :: u) a)
    l.whileLoop := by
  refine (h.expr hn).bind fun u condition t' hcondition m hm => ?_
  refine Takes.expect fun t'' m' hm' => ?_
  refine Takes.map ((h.closedBlock (by omega)).imp fun v body _ hbody => ?_)
  rcases hbody with ⟨v, rfl, hbody⟩
  refine ⟨List.cons_ne_nil _ _, .whileLoop hcondition.form hbody.form, ?_⟩
  rw [Action.every, hcondition.ranked, hbody.ranked]
  rfl

theorem repeatLoop : Takes n t (fun u a _ => SpellsAction chunk (.mark .repeatWord :: u) a)
    l.repeatLoop := by
  refine (h.block hn).bind fun u body t' hbody m hm => ?_
  refine Takes.expect fun t'' m' hm' => ?_
  refine Takes.map ((h.expr (by omega)).imp fun v condition _ hcondition => ?_)
  refine ⟨List.cons_ne_nil _ _, .repeatLoop hbody.form hcondition.form, ?_⟩
  rw [Action.every, hbody.ranked, hcondition.ranked]
  rfl

theorem action (line : Nat) : Takes n t (fun u a _ => SpellsAction chunk u a)
    (l.action chunk ⟨t, line⟩) := by
  unfold Level.action
  dsimp only
  split
  · exact Takes.advance (fun h => by cases h) fun t' m hm => h.branch (by omega)
  · exact Takes.advance (fun h => by cases h) fun t' m hm => h.whileLoop (by omega)
  · refine Takes.advance (fun h => by cases h) fun t' m hm => ?_
    refine Takes.map ((h.closedBlock (by omega)).imp fun u body _ hbody => ?_)
    rcases hbody with ⟨v, rfl, hbody⟩
    refine ⟨List.cons_ne_nil _ _, .block hbody.form, ?_⟩
    rw [Action.every, hbody.ranked]
    rfl
  · exact Takes.advance (fun h => by cases h) fun t' m hm => h.repeatLoop (by omega)
  · exact Takes.advance (fun h => by cases h) fun t' m hm => h.forLoop (by omega)
  · exact Takes.advance (fun h => by cases h) fun t' m hm => h.definition (by omega) line
  · exact Takes.advance (fun h => by cases h) fun t' m hm => h.declaration (by omega) line
  · refine Takes.advance (fun h => by cases h) fun t' m hm => Takes.pure ?_
    exact ⟨List.cons_ne_nil _ _, .breakLoop, rfl⟩
  · exact h.exprStatement hn

/-- A statement, on the next level. -/
theorem statementBelow : Takes n t
    (fun u s _ => u ≠ [] ∧ StmtForm chunk u s ∧ s.every rankChecks = true)
    (l.statementBelow chunk) := by
  refine Takes.next fun line => ?_
  refine Takes.map ((h.action hn line).imp fun u a _ ha => ⟨ha.some, .mk line ha.form, ?_⟩)
  rw [Stmt.every]
  exact ha.ranked

end Sound

end Level

/-- All levels are sound, as the one without any levels left accepts nothing. -/
theorem level_sound (chunk : String) (rounds n : Nat) : (level chunk rounds n).Sound chunk := by
  induction n with
  | zero => exact ⟨fun _ _ _ => Takes.fail _, fun _ _ _ _ => Takes.fail _⟩
  | succ n ih =>
      have hsame := level_rounds chunk rounds n
      refine ⟨fun k hk t => ih.statementBelow ?_, fun limit k hk t => ih.operandBelow ?_ limit⟩
      · rw [hsame]
        exact hk
      · rw [hsame]
        exact hk

/-! ## Sources -/

/-- Whether a token is the end of the source. -/
def Token.isEnd : Token → Bool
  | .endOfSource => true
  | _ => false

/-- The tokens of a source up to its end. -/
def sourceTokens (ts : List Lexeme) : List Token :=
  (tokensOf ts).takeWhile fun t => !t.isEnd

/-- What is taken up to the end of the source is the source. -/
theorem sourceTokens_append {used rest : List Lexeme}
    (hused : ∀ t ∈ tokensOf used, t ≠ .endOfSource) (hrest : upcoming rest = .endOfSource) :
    sourceTokens (used ++ rest) = tokensOf used := by
  have hnone : (tokensOf rest).takeWhile (fun t => !t.isEnd) = [] := by
    cases rest with
    | nil => rfl
    | cons t rest =>
        rcases t with ⟨token, line⟩
        cases hrest
        rfl
  unfold sourceTokens tokensOf at *
  rw [List.map_append, List.takeWhile_append_of_pos, hnone, List.append_nil]
  intro t ht
  have hne := hused t ht
  cases t with
  | endOfSource => exact (hne rfl).elim
  | _ => rfl

/-- Whatever list of tokens the parser accepts, all of them up to the end of the source spell the
    block that it gives, and every operator in the block stands with operands that are read as they
    are meant. -/
theorem parseTokens_sound {chunk : String} {ts : List Lexeme} {body : List Stmt}
    (h : parseTokens chunk ts = .ok body) :
    BlockForm chunk (sourceTokens ts) body ∧ everyStmt rankChecks body = true := by
  have hwhole : Takes ts.length (upcoming ts)
      (fun u body t' => SpellsBlock chunk u body ∧ t' = .endOfSource)
      (wholeBlock (level chunk ts.length maxSyntaxLevels)) := by
    have hsound := level_sound chunk ts.length maxSyntaxLevels
    have hrounds := level_rounds chunk ts.length maxSyntaxLevels
    refine (hsound.block (Nat.le_of_eq hrounds.symm)).bind fun u body t' hbody m hm => ?_
    refine Takes.next fun line => ?_
    dsimp only
    split
    · refine Takes.pure ?_
      rw [List.append_nil]
      exact ⟨hbody, rfl⟩
    · exact Takes.throw _
  unfold parseTokens at h
  cases hrun : wholeBlock (level chunk ts.length maxSyntaxLevels) ts with
  | error e =>
      rw [hrun] at h
      cases h
  | ok r =>
      rcases r with ⟨body', rest⟩
      rw [hrun] at h
      cases h
      rcases hwhole ts body rest (Nat.le_refl _) rfl hrun with ⟨used, rfl, hused, hbody, hrest⟩
      rw [sourceTokens_append hused hrest]
      exact ⟨hbody.form, hbody.ranked⟩

/-- The tokens of `return a .. b ^ -c .. d`. -/
def chainedTokens : List Lexeme :=
  [⟨.mark .returnWord, 1⟩, ⟨.name "a", 1⟩, ⟨.mark .dotDot, 1⟩, ⟨.name "b", 1⟩, ⟨.mark .caret, 1⟩,
    ⟨.mark .minus, 1⟩, ⟨.name "c", 1⟩, ⟨.mark .dotDot, 1⟩, ⟨.name "d", 2⟩, ⟨.endOfSource, 2⟩]

/-- The block that they spell: texts are joined from the right. -/
def chainedBlock : List Stmt :=
  [.mk 1 (.returnValues [.binary .concat (.name "a")
    (.binary .concat (.binary .pow (.name "b") (.unary .neg (.name "c"))) (.name "d"))])]

/-- They are accepted, and so they spell what they are parsed to. -/
theorem parseTokens_sound_chained :
    parseTokens "t.lua" chainedTokens = .ok chainedBlock ∧
      BlockForm "t.lua" (sourceTokens chainedTokens) chainedBlock ∧
      everyStmt rankChecks chainedBlock = true :=
  have h : parseTokens "t.lua" chainedTokens = .ok chainedBlock := rfl
  ⟨h, parseTokens_sound h⟩

end Script

end PixelEffects
