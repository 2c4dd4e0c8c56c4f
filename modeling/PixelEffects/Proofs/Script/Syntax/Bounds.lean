import PixelEffects.Proofs.Script.Syntax.Agrees
import PixelEffects.Proofs.Script.Syntax.Heights

/-!
# Bounds of the Grammar

Every rule of the grammar is decided by the tokens of the source, and gives no tree that is too tall.

Two levels are compared that have enough rounds each, and whose statement and operand parsers agree.
Then each rule of the one agrees with the rule of the other. What is known besides is that a rule
that is part of a loop takes something, and how tall the expressions are.

An expression is refused if its counted height is too large, but that is found out only when something
is to be added to it, or when it is handed on. So while it is built it is known to be *sound*: if it
is not too tall itself, nothing in it is. Operands and what has suffixes were looked at, and *fit*.

## Main definitions

* `heightChecks`: No expression of a tree is too tall, also inside of functions.
* `Measured.Sound`, `Measured.Fits`: Expressions before and after their height was looked at.
* `Level.Alike`: Two levels whose parsers agree.

## Theorems

* `Level.Alike.suffixed`, `Level.Alike.action` and others: One for each rule of the grammar.
* `level_alike`: Levels with enough rounds agree.
* `wholeBlock_outcome`: A source has one outcome.
-/

namespace PixelEffects

namespace Script

open PixelEffects.Script.Parser

/-- No expression of a tree is taller than there are levels. A function is a leaf of an expression, and
    what stands in its body is looked at in its own right. -/
def heightChecks : Checks :=
  ⟨fun e => decide (e.height ≤ maxSyntaxLevels), fun _ => true, fun _ _ => true⟩

theorem everyStmt_heightChecks {stmts : List Stmt} :
    everyStmt heightChecks stmts = true ↔ ∀ s ∈ stmts, s.every heightChecks = true :=
  everyStmt_iff fun _ _ => rfl

/-! ## Expressions that are built from parts -/

/-- An expression whose height was counted rightly, and in which nothing is too tall unless it is
    itself. -/
structure Measured.Sound (e : Measured) : Prop where
  exact : e.Exact
  every : e.height ≤ maxSyntaxLevels → e.expr.every heightChecks = true

/-- A sound expression that is not too tall. -/
structure Measured.Fits (e : Measured) : Prop extends e.Sound where
  height_le : e.height ≤ maxSyntaxLevels

/-- An entry whose height was counted rightly, and in which nothing is too tall unless it is itself. -/
structure MeasuredField.Sound (f : MeasuredField) : Prop where
  exact : f.Exact
  every : f.height ≤ maxSyntaxLevels → f.field.every heightChecks = true

namespace Measured

variable {e key : Measured} {args : List Measured}

theorem Fits.every_expr (h : e.Fits) : e.expr.every heightChecks = true :=
  h.every h.height_le

theorem Exact.check (h : e.Exact) (hle : e.height ≤ maxSyntaxLevels) :
    heightChecks.expr e.expr = true := by
  unfold Exact at h
  rw [h] at hle
  exact decide_eq_true hle

theorem everyExpr_of_fits (h : ∀ e ∈ args, e.Fits) :
    everyExpr heightChecks (args.map (·.expr)) = true := by
  refine everyExpr_iff.mpr fun e he => ?_
  rcases List.mem_map.mp he with ⟨e', he', rfl⟩
  exact (h e' he').every_expr

theorem everyExpr_of_sound (h : ∀ e ∈ args, e.Sound) (hle : tallest args ≤ maxSyntaxLevels) :
    everyExpr heightChecks (args.map (·.expr)) = true := by
  refine everyExpr_of_fits fun e he => ⟨h e he, ?_⟩
  exact Nat.le_trans (le_foldl_max (·.height) he 0) hle

theorem Sound.leaf {e : Expr} (hheight : e.height = 1) (h : e.every heightChecks = true) :
    Sound (.leaf e) :=
  ⟨hheight.symm, fun _ => h⟩

theorem Sound.function {f : Function} (h : f.every heightChecks = true) :
    Sound (.leaf (.function f)) := by
  refine .leaf rfl ?_
  rw [Expr.every, h]
  rfl

theorem Fits.paren (h : e.Fits) : Sound ⟨.paren e.expr, e.height + 1⟩ := by
  have hexact := h.exact.paren
  refine ⟨hexact, fun hle => ?_⟩
  rw [Expr.every, h.every_expr, Bool.and_true]
  exact hexact.check hle

theorem Fits.unary (op : UnaryOp) (h : e.Fits) : Sound ⟨.unary op e.expr, e.height + 1⟩ := by
  have hexact := h.exact.unary op
  refine ⟨hexact, fun hle => ?_⟩
  rw [Expr.every, h.every_expr, Bool.and_true]
  exact hexact.check hle

theorem Fits.binary (op : BinaryOp) (h : e.Fits) (hkey : key.Fits) :
    Sound ⟨.binary op e.expr key.expr, max e.height key.height + 1⟩ := by
  have hexact := h.exact.binary op hkey.exact
  refine ⟨hexact, fun hle => ?_⟩
  rw [Expr.every, h.every_expr, hkey.every_expr, Bool.and_true, Bool.and_true]
  exact hexact.check hle

theorem Fits.index (h : e.Fits) (hkey : key.Fits) :
    Sound ⟨.index e.expr key.expr, max e.height key.height + 1⟩ := by
  have hexact := h.exact.index hkey.exact
  refine ⟨hexact, fun hle => ?_⟩
  rw [Expr.every, h.every_expr, hkey.every_expr, Bool.and_true, Bool.and_true]
  exact hexact.check hle

theorem Fits.indexName (name : String) (h : e.Fits) :
    Sound ⟨.index e.expr (.text name), e.height + 1⟩ := by
  have hexact := h.exact.indexName name
  have hname : (Expr.text name).every heightChecks = true := rfl
  refine ⟨hexact, fun hle => ?_⟩
  rw [Expr.every, h.every_expr, hname, Bool.and_true, Bool.and_true]
  exact hexact.check hle

theorem Fits.call (h : e.Fits) (hargs : ∀ a ∈ args, a.Sound) :
    Sound ⟨.call e.expr (args.map (·.expr)), max e.height (tallest args) + 1⟩ := by
  have hexact := h.exact.call fun a ha => (hargs a ha).exact
  refine ⟨hexact, fun hle => ?_⟩
  have hle' : tallest args ≤ maxSyntaxLevels := by
    dsimp only at hle
    omega
  rw [Expr.every, h.every_expr, everyExpr_of_sound hargs hle', Bool.and_true, Bool.and_true]
  exact hexact.check hle

theorem Fits.method (name : String) (h : e.Fits) (hargs : ∀ a ∈ args, a.Sound) :
    Sound ⟨.method e.expr name (args.map (·.expr)), max e.height (tallest args) + 1⟩ := by
  have hexact := h.exact.method name fun a ha => (hargs a ha).exact
  refine ⟨hexact, fun hle => ?_⟩
  have hle' : tallest args ≤ maxSyntaxLevels := by
    dsimp only at hle
    omega
  rw [Expr.every, h.every_expr, everyExpr_of_sound hargs hle', Bool.and_true, Bool.and_true]
  exact hexact.check hle

theorem Sound.table {fields : List MeasuredField} (h : ∀ f ∈ fields, f.Sound) :
    Sound ⟨.table (fields.reverse.map (·.field)),
      fields.foldl (fun h f => max h f.height) 0 + 1⟩ := by
  have hexact := Exact.table fun f hf => (h f hf).exact
  refine ⟨hexact, fun hle => ?_⟩
  have hfields : everyField heightChecks (fields.reverse.map (·.field)) = true := by
    refine everyField_iff.mpr fun f hf => ?_
    rcases List.mem_map.mp hf with ⟨f', hf', rfl⟩
    have hmem := List.mem_reverse.mp hf'
    have hlow := le_foldl_max (fun f : MeasuredField => f.height) hmem 0
    refine (h f' hmem).every ?_
    dsimp only at hle hlow
    omega
  rw [Expr.every, hfields, Bool.and_true]
  exact hexact.check hle

end Measured

namespace MeasuredField.Sound

variable {key value : Measured}

theorem named (name : String) (h : value.Fits) : Sound ⟨.named name value.expr, value.height⟩ := by
  refine ⟨h.exact, fun _ => ?_⟩
  rw [Field.every]
  exact h.every_expr

theorem item (h : value.Fits) : Sound ⟨.item value.expr, value.height⟩ := by
  refine ⟨h.exact, fun _ => ?_⟩
  rw [Field.every]
  exact h.every_expr

theorem keyed (hkey : key.Fits) (h : value.Fits) :
    Sound ⟨.keyed key.expr value.expr, max key.height value.height⟩ := by
  refine ⟨?_, fun _ => ?_⟩
  · have hkeyExact : key.height = key.expr.height := hkey.exact
    have hexact : value.height = value.expr.height := h.exact
    rw [Exact, Field.height, hkeyExact, hexact]
  · rw [Field.every, hkey.every_expr, h.every_expr]
    rfl

end MeasuredField.Sound

/-! ## Rules -/

namespace Level

/-- Two levels with more rounds than there are tokens to go, whose statement and operand parsers
    agree. They take something, and nothing that they give is too tall. -/
structure Alike (n : Nat) (l l' : Level) : Prop where
  rounds : n < l.rounds
  rounds' : n < l'.rounds
  statement : ∀ t, Agrees n t (fun j s => 0 < j ∧ s.every heightChecks = true) l.statement l'.statement
  operand : ∀ k t, Agrees n t (fun j e => 0 < j ∧ e.Fits) (l.operand k) (l'.operand k)

theorem Alike.shorter {n m : Nat} {l l' : Level} (h : Alike n l l') (hm : m ≤ n) : Alike m l l' :=
  ⟨Nat.lt_of_le_of_lt hm h.rounds, Nat.lt_of_le_of_lt hm h.rounds',
    fun t => (h.statement t).shorter hm, fun k t => (h.operand k t).shorter hm⟩

namespace Alike

variable {n : Nat} {l l' : Level} {t : Token} (h : Alike n l l')

include h

theorem expr : Agrees n t (fun j e => 0 < j ∧ e.Fits) l.expr l'.expr :=
  h.operand 0 t

theorem exprs : Agrees n t (fun j es => 0 < j ∧ ∀ e ∈ es, e.Fits) l.exprs l'.exprs :=
  Agrees.separated (fun _ => h.expr) h.rounds h.rounds'

theorem returnValues :
    Agrees n t (fun _ es => everyExpr heightChecks es = true) l.returnValues l'.returnValues := by
  refine Agrees.blockEnds (Agrees.pure rfl) fun _ => ?_
  refine Agrees.sees (fun _ => Agrees.pure rfl) fun _ => ?_
  exact Agrees.map (h.exprs.imp fun j es hes => Measured.everyExpr_of_fits hes.2)

theorem returnStatement (ht : t ≠ .endOfSource) :
    Agrees n t (fun _ s => s.every heightChecks = true) l.returnStatement l'.returnStatement := by
  refine Agrees.next fun line => Agrees.advance ht fun t' m hm => ?_
  refine Agrees.bind (h.shorter (by omega)).returnValues fun j values t'' m' hvalues hm' => ?_
  have hreturn : ∀ {m t}, Agrees m t (fun _ (s : Stmt) => s.every heightChecks = true)
      (do
        if ← blockEnds then pure (Stmt.mk line (.returnValues values))
        else failAt (.expected .endWord))
      (do
        if ← blockEnds then pure (Stmt.mk line (.returnValues values))
        else failAt (.expected .endWord)) := by
    intro m t
    refine Agrees.blockEnds (Agrees.pure ?_) fun _ => Agrees.failAt _
    rw [Stmt.every, Action.every, hvalues]
    rfl
  exact Agrees.accept (fun _ _ _ => hreturn) fun _ => hreturn

theorem blockStep {stmts : List Stmt} (hstmts : ∀ s ∈ stmts, s.every heightChecks = true) :
    Agrees n t (Goes (fun stmts => ∀ s ∈ stmts, s.every heightChecks = true)
      fun stmts => ∀ s ∈ stmts, s.every heightChecks = true) (l.blockStep stmts)
      (l'.blockStep stmts) := by
  refine Agrees.blockEnds (Agrees.pure (.ended hstmts)) fun ht => ?_
  refine Agrees.accept (fun t' m hm => Agrees.pure (.again (by omega) hstmts)) fun _ => ?_
  refine Agrees.sees (fun _ => ?_) fun _ => ?_
  · refine Agrees.map ((h.returnStatement ht).imp fun j s hs => .ended ?_)
    exact List.forall_mem_cons.mpr ⟨hs, hstmts⟩
  · refine Agrees.map ((h.statement t).imp fun j s hs => .again hs.1 ?_)
    exact List.forall_mem_cons.mpr ⟨hs.2, hstmts⟩

theorem block : Agrees n t (fun _ body => everyStmt heightChecks body = true) l.block l'.block := by
  have hnil : ∀ s ∈ ([] : List Stmt), s.every heightChecks = true :=
    fun s hs => absurd hs List.not_mem_nil
  refine Agrees.map ((Agrees.repeated (fun _ _ hstmts => h.blockStep hstmts) h.rounds h.rounds'
    (Nat.le_refl n) hnil).imp fun j stmts hstmts => ?_)
  exact everyStmt_heightChecks.mpr fun s hs => hstmts s (List.mem_reverse.mp hs)

theorem closedBlock :
    Agrees n t (fun _ body => everyStmt heightChecks body = true) l.closedBlock l'.closedBlock := by
  refine Agrees.bind h.block fun j body t' m hbody hm => ?_
  exact Agrees.expect fun _ _ _ => Agrees.pure hbody

/-- Names have no height. -/
theorem names (separator : Mark) :
    Agrees n t (fun _ _ => True) (separated l.rounds separator Parser.name)
      (separated l'.rounds separator Parser.name) :=
  (Agrees.separated (P := fun _ => True) (fun _ => Agrees.word.imp fun _ _ hj => ⟨hj, trivial⟩)
    h.rounds h.rounds').imp fun _ _ _ => trivial

theorem parameters : Agrees n t (fun _ _ => True) l.parameters l'.parameters := by
  refine Agrees.accept (fun _ _ _ => Agrees.pure trivial) fun _ => ?_
  refine Agrees.bind (h.names .comma) fun j names t' m _ hm => ?_
  exact Agrees.expect fun _ _ _ => Agrees.pure trivial

theorem functionBody (chunk name : String) (isMethod : Bool) (line : Nat) :
    Agrees n t (fun _ f => f.every heightChecks = true)
      (l.functionBody chunk name isMethod line) (l'.functionBody chunk name isMethod line) := by
  refine Agrees.expect fun t' m hm => ?_
  refine Agrees.bind (h.shorter (by omega)).parameters fun j params t'' m' _ hm' => ?_
  refine Agrees.map ((h.shorter (by omega)).closedBlock.imp fun k body hbody => ?_)
  rw [Function.every]
  exact hbody

/-! ### Tables -/

/-- An entry without a key is what everything is that does not begin like another entry. -/
theorem fieldItem {us : List Lexeme} {line : Nat} (hlen : us.length ≤ n)
    (hend : ∀ u ∈ us, u.token ≠ .endOfSource)
    (hnamed : ∀ x i j rest, us ≠ ⟨.name x, i⟩ :: ⟨.mark .assign, j⟩ :: rest)
    (hkeyed : ∀ i rest, us ≠ ⟨.mark .lBracket, i⟩ :: rest) :
    AgreesOn us line (fun j (f : MeasuredField) => 0 < j ∧ f.Sound) l.field l'.field := by
  have hnamed' : ∀ behind x i j rest,
      upTo us line behind ≠ ⟨.name x, i⟩ :: ⟨.mark .assign, j⟩ :: rest := by
    intro behind x i j rest heq
    -- Neither of the two tokens is the end of the source.
    rcases us with _ | ⟨u, _ | ⟨v, us⟩⟩
    · cases heq
    · cases heq
    · rcases List.cons.inj heq with ⟨rfl, htail⟩
      rcases List.cons.inj htail with ⟨rfl, _⟩
      exact hnamed x i j us rfl
  have hkeyed' : ∀ behind i rest, upTo us line behind ≠ ⟨.mark .lBracket, i⟩ :: rest := by
    intro behind i rest heq
    rcases us with _ | ⟨u, us⟩
    · cases heq
    · rcases List.cons.inj heq with ⟨rfl, _⟩
      exact hkeyed i us rfl
  have hrun : Agrees n (upcoming us) (fun j (f : MeasuredField) => 0 < j ∧ f.Sound)
      (l.expr >>= fun value => pure ⟨.item value.expr, value.height⟩)
      (l'.expr >>= fun value => pure ⟨.item value.expr, value.height⟩) :=
    Agrees.map (h.expr.imp fun j e he => ⟨he.1, .item he.2⟩)
  refine AgreesOn.behind [] (hrun us line hlen hend rfl) (fun behind => ?_) fun behind => ?_
  · exact l.field_eq_item (hnamed' behind) (hkeyed' behind)
  · exact l'.field_eq_item (hnamed' behind) (hkeyed' behind)

theorem field : Agrees n t (fun j f => 0 < j ∧ f.Sound) l.field l'.field := by
  intro us line hlen hend _
  -- What kind of entry there is can be told from the first two tokens.
  by_cases hnamed : ∃ x i j rest, us = ⟨.name x, i⟩ :: ⟨.mark .assign, j⟩ :: rest
  · rcases hnamed with ⟨x, i, j, rest, rfl⟩
    simp only [List.length_cons] at hlen
    have hrest := List.forall_mem_cons.mp (List.forall_mem_cons.mp hend).2
    have hrun : Agrees rest.length (upcoming rest)
        (fun k (f : MeasuredField) => 0 < k + 2 ∧ f.Sound)
        (l.expr >>= fun value => pure ⟨.named x value.expr, value.height⟩)
        (l'.expr >>= fun value => pure ⟨.named x value.expr, value.height⟩) :=
      Agrees.map ((h.shorter (by omega)).expr.imp fun k e he => ⟨by omega, .named x he.2⟩)
    have hbehind := hrun rest line (Nat.le_refl _) hrest.2 rfl
    exact hbehind.behind [⟨.name x, i⟩, ⟨.mark .assign, j⟩] (fun _ => rfl) fun _ => rfl
  by_cases hkeyed : ∃ i rest, us = ⟨.mark .lBracket, i⟩ :: rest
  · rcases hkeyed with ⟨i, rest, rfl⟩
    simp only [List.length_cons] at hlen
    have hrest := List.forall_mem_cons.mp hend
    have hrun : Agrees rest.length (upcoming rest)
        (fun k (f : MeasuredField) => 0 < k + 1 ∧ f.Sound)
        (do
          let key ← l.expr
          expect .rBracket
          expect .assign
          let value ← l.expr
          pure ⟨.keyed key.expr value.expr, max key.height value.height⟩)
        (do
          let key ← l'.expr
          expect .rBracket
          expect .assign
          let value ← l'.expr
          pure ⟨.keyed key.expr value.expr, max key.height value.height⟩) := by
      refine Agrees.bind (h.shorter (by omega)).expr fun j key t' m hkey hm => ?_
      refine Agrees.expect fun t'' m' hm' => Agrees.expect fun t₃ m₃ hm₃ => ?_
      refine Agrees.map ((h.shorter (by omega)).expr.imp fun k e he => ⟨by omega, ?_⟩)
      exact .keyed hkey.2 he.2
    have hbehind := hrun rest line (Nat.le_refl _) hrest.2 rfl
    exact hbehind.behind [⟨.mark .lBracket, i⟩] (fun _ => rfl) fun _ => rfl
  · exact h.fieldItem hlen hend (fun x i j rest heq => hnamed ⟨x, i, j, rest, heq⟩)
      fun i rest heq => hkeyed ⟨i, rest, heq⟩

omit h in
theorem fieldEnd : Agrees n t (fun _ _ => True) Level.fieldEnd Level.fieldEnd := by
  refine Agrees.accept (fun _ _ _ => Agrees.pure trivial) fun _ => ?_
  refine Agrees.accept (fun _ _ _ => Agrees.pure trivial) fun _ => ?_
  exact Agrees.expect fun _ _ _ => Agrees.pure trivial

theorem table : Agrees n t (fun j e => 0 < j ∧ e.Sound) l.table l'.table := by
  have hstep : ∀ (fields : List MeasuredField) t, (∀ f ∈ fields, f.Sound) → Agrees n t
      (Goes (fun fields => ∀ f ∈ fields, f.Sound) fun fields => ∀ f ∈ fields, f.Sound)
      (l.fieldStep fields) (l'.fieldStep fields) := by
    intro fields t hfields
    refine Agrees.accept (fun _ _ _ => Agrees.pure (.ended hfields)) fun _ => ?_
    refine Agrees.bind h.field fun j f t' m hf hm => ?_
    refine Agrees.map (fieldEnd.imp fun k goOn _ => ?_)
    have hcons := List.forall_mem_cons.mpr ⟨hf.2, hfields⟩
    cases goOn with
    | true => exact .again (by omega) hcons
    | false => exact .ended hcons
  have hnil : ∀ f ∈ ([] : List MeasuredField), f.Sound := fun f hf => absurd hf List.not_mem_nil
  refine Agrees.expect fun t' m hm => ?_
  have hrounds := h.rounds
  have hrounds' := h.rounds'
  refine Agrees.map ((Agrees.repeated hstep (by omega) (by omega) (by omega) hnil).imp
    fun j fields hfields => ?_)
  exact ⟨by omega, .table hfields⟩

/-! ### Calls and operands -/

theorem arguments :
    Agrees n t (fun j es => 0 < j ∧ ∀ e ∈ es, e.Sound) l.arguments l'.arguments := by
  refine Agrees.next fun line => ?_
  cases t with
  | text value =>
      refine Agrees.advance (fun ht => by cases ht) fun t' m hm => Agrees.pure ⟨by omega, ?_⟩
      exact List.forall_mem_singleton.mpr (.leaf rfl rfl)
  | mark mark =>
      cases mark with
      | lBrace =>
          refine Agrees.map (h.table.imp fun j e he => ⟨he.1, ?_⟩)
          exact List.forall_mem_singleton.mpr he.2
      | lParen =>
          refine Agrees.advance (fun ht => by cases ht) fun t' m hm => ?_
          refine Agrees.accept (fun _ _ _ => Agrees.pure ⟨by omega, fun e he => ?_⟩) fun _ => ?_
          · exact absurd he List.not_mem_nil
          · refine Agrees.bind (h.shorter (by omega)).exprs fun j es t'' m' hes hm' => ?_
            refine Agrees.expect fun _ _ _ => Agrees.pure ⟨by omega, fun e he => ?_⟩
            exact (hes.2 e he).toSound
      | _ => exact Agrees.throw _
  | _ => exact Agrees.throw _

theorem primary : Agrees n t (fun j e => 0 < j ∧ e.Sound) l.primary l'.primary := by
  refine Agrees.next fun line => ?_
  cases t with
  | name word =>
      refine Agrees.advance (fun ht => by cases ht) fun t' m hm => Agrees.pure ⟨by omega, ?_⟩
      exact .leaf rfl rfl
  | mark mark =>
      cases mark with
      | lParen =>
          refine Agrees.advance (fun ht => by cases ht) fun t' m hm => ?_
          refine Agrees.bind (h.shorter (by omega)).expr fun j inner t'' m' hinner hm' => ?_
          exact Agrees.expect fun _ _ _ => Agrees.pure ⟨by omega, hinner.2.paren⟩
      | _ => exact Agrees.throw _
  | _ => exact Agrees.throw _

omit h in
/-- An expression whose height was looked at fits. -/
theorem check {e : Measured} (he : e.Sound) {β : Type} {Q : Nat → β → Prop}
    {f f' : Unit → Parser β} (hf : e.Fits → Agrees n t Q (f ()) (f' ())) :
    Agrees n t Q (e.check >>= f) (e.check >>= f') := by
  unfold Measured.check
  by_cases hle : e.height ≤ maxSyntaxLevels
  · rw [if_neg (Nat.not_lt.mpr hle), pure_bind, pure_bind]
    exact hf ⟨he, hle⟩
  · rw [if_pos (Nat.lt_of_not_le hle)]
    exact Agrees.bind (P := fun _ _ => False) (Agrees.fail _) fun _ _ _ _ hfalse => hfalse.elim

theorem callSuffix {e : Measured} (he : e.Fits) :
    Agrees n t (fun j e => 0 < j ∧ e.Sound) (l.callSuffix e) (l'.callSuffix e) :=
  Agrees.map (h.arguments.imp fun _ _ hargs => ⟨hargs.1, he.call hargs.2⟩)

theorem suffixStep {e : Measured} (he : e.Sound) :
    Agrees n t (Goes Measured.Sound Measured.Fits) (l.suffixStep e) (l'.suffixStep e) := by
  refine check he fun hfits => Agrees.next fun line => ?_
  have hcall : Agrees n t (Goes Measured.Sound Measured.Fits)
      (l.callSuffix e >>= fun call => pure (call, true))
      (l'.callSuffix e >>= fun call => pure (call, true)) :=
    Agrees.map ((h.callSuffix hfits).imp fun j call hcall => .again hcall.1 hcall.2)
  cases t with
  | text value => exact hcall
  | mark mark =>
      cases mark with
      | dot =>
          refine Agrees.advance (fun ht => by cases ht) fun t' m hm => ?_
          refine Agrees.name fun word t'' m' hm' => Agrees.pure ?_
          exact .again (by omega) (hfits.indexName word)
      | lBracket =>
          refine Agrees.advance (fun ht => by cases ht) fun t' m hm => ?_
          refine Agrees.bind (h.shorter (by omega)).expr fun j key t'' m' hkey hm' => ?_
          refine Agrees.expect fun _ _ _ => Agrees.pure ?_
          exact .again (by omega) (hfits.index hkey.2)
      | colon =>
          refine Agrees.advance (fun ht => by cases ht) fun t' m hm => ?_
          refine Agrees.name fun word t'' m' hm' => ?_
          refine Agrees.map ((h.shorter (by omega)).arguments.imp fun j args hargs => ?_)
          exact .again (by omega) (hfits.method word hargs.2)
      | lParen => exact hcall
      | lBrace => exact hcall
      | _ => exact Agrees.pure (.ended hfits)
  | _ => exact Agrees.pure (.ended hfits)

theorem suffixed : Agrees n t (fun j e => 0 < j ∧ e.Fits) l.suffixed l'.suffixed := by
  have hrounds := h.rounds
  have hrounds' := h.rounds'
  refine Agrees.bind h.primary fun j e t' m he hm => ?_
  refine (Agrees.repeated (fun _ _ he => (h.shorter (by omega)).suffixStep he) (by omega) (by omega)
    (Nat.le_refl m) he.2).imp fun k e' he' => ⟨by omega, he'⟩

theorem simple (chunk : String) :
    Agrees n t (fun j e => 0 < j ∧ e.Sound) (l.simple chunk) (l'.simple chunk) := by
  have hleaf : ∀ {e : Expr}, t ≠ .endOfSource → e.height = 1 → e.every heightChecks = true →
      Agrees n t (fun j e => 0 < j ∧ e.Sound) (advance >>= fun _ => pure (Measured.leaf e))
        (advance >>= fun _ => pure (Measured.leaf e)) := by
    intro e ht hheight he
    exact Agrees.advance ht fun t' m hm => Agrees.pure ⟨by omega, .leaf hheight he⟩
  have hsuffixed : Agrees n t (fun j e => 0 < j ∧ e.Sound) l.suffixed l'.suffixed :=
    h.suffixed.imp fun j e he => ⟨he.1, he.2.toSound⟩
  refine Agrees.next fun line => ?_
  cases t with
  | number value => exact hleaf (fun ht => by cases ht) rfl rfl
  | text value => exact hleaf (fun ht => by cases ht) rfl rfl
  | mark mark =>
      cases mark with
      | nilWord => exact hleaf (fun ht => by cases ht) rfl rfl
      | trueWord => exact hleaf (fun ht => by cases ht) rfl rfl
      | falseWord => exact hleaf (fun ht => by cases ht) rfl rfl
      | lBrace => exact h.table
      | functionWord =>
          refine Agrees.advance (fun ht => by cases ht) fun t' m hm => ?_
          refine Agrees.map (((h.shorter (by omega)).functionBody chunk "anonymous" false line).imp
            fun j f hf => ⟨by omega, .function hf⟩)
      | _ => exact hsuffixed
  | _ => exact hsuffixed

theorem prefixed (chunk : String) :
    Agrees n t (fun j e => 0 < j ∧ e.Sound) (l.prefixed chunk) (l'.prefixed chunk) := by
  refine Agrees.next fun line => ?_
  dsimp only
  cases hop : unaryOp? t with
  | none => exact h.simple chunk
  | some op =>
      have ht : t ≠ .endOfSource := by
        intro heq
        rw [heq] at hop
        cases hop
      refine Agrees.advance ht fun t' m hm => ?_
      refine Agrees.map (((h.shorter (by omega)).operand unaryStrength t').imp
        fun j operand hoperand => ⟨by omega, hoperand.2.unary op⟩)

theorem binaryStep (limit : Nat) {e : Measured} (he : e.Fits) :
    Agrees n t (Goes Measured.Fits Measured.Fits) (l.binaryStep limit e)
      (l'.binaryStep limit e) := by
  refine Agrees.next fun line => ?_
  dsimp only
  cases hop : binaryOp? t with
  | none => exact Agrees.pure (.ended he)
  | some op =>
      have ht : t ≠ .endOfSource := by
        intro heq
        rw [heq] at hop
        cases hop
      by_cases hlimit : op.strength.1 ≤ limit
      · simp only [if_pos hlimit]
        exact Agrees.pure (.ended he)
      · simp only [if_neg hlimit]
        refine Agrees.advance ht fun t' m hm => ?_
        refine Agrees.bind ((h.shorter (by omega)).operand _ t') fun j right t'' m' hright hm' => ?_
        refine check (he.binary op hright.2) fun hfits => Agrees.pure ?_
        exact .again (by omega) hfits

theorem operandBelow (chunk : String) (limit : Nat) :
    Agrees n t (fun j e => 0 < j ∧ e.Fits) (l.operandBelow chunk limit)
      (l'.operandBelow chunk limit) := by
  have hrounds := h.rounds
  have hrounds' := h.rounds'
  refine Agrees.bind (h.prefixed chunk) fun j e t' m he hm => check he.2 fun hfits => ?_
  refine (Agrees.repeated (fun _ _ he => (h.shorter (by omega)).binaryStep limit he) (by omega)
    (by omega) (Nat.le_refl m) hfits).imp fun k e' he' => ⟨by omega, he'⟩

/-! ### Statements -/

theorem arm : Agrees n t (fun _ a => a.every heightChecks = true) l.arm l'.arm := by
  refine Agrees.bind h.expr fun j condition t' m hcondition hm => ?_
  refine Agrees.expect fun t'' m' hm' => ?_
  refine Agrees.map ((h.shorter (by omega)).block.imp fun k body hbody => ?_)
  rw [Arm.every, hcondition.2.every_expr, hbody]
  rfl

/-- What is known of the arms of a branch and its last block. -/
def ArmsFit (arms : List Arm × Option (List Stmt)) : Prop :=
  (∀ a ∈ arms.1, a.every heightChecks = true) ∧
    ∀ body ∈ arms.2, everyStmt heightChecks body = true

theorem armStep {arms : List Arm × Option (List Stmt)} (harms : ArmsFit arms) :
    Agrees n t (Goes ArmsFit ArmsFit) (l.armStep arms) (l'.armStep arms) := by
  refine Agrees.accept (fun t' m hm => ?_) fun _ => ?_
  · refine Agrees.map ((h.shorter (by omega)).arm.imp fun j a ha => .again (by omega) ?_)
    exact ⟨List.forall_mem_cons.mpr ⟨ha, harms.1⟩, harms.2⟩
  · refine Agrees.accept (fun t' m hm => ?_) fun _ => ?_
    · refine Agrees.map ((h.shorter (by omega)).closedBlock.imp fun j body hbody => .ended ?_)
      refine ⟨harms.1, fun body' hbody' => ?_⟩
      cases hbody'
      exact hbody
    · exact Agrees.expect fun _ _ _ => Agrees.pure (.ended harms)

theorem branch : Agrees n t (fun _ a => a.every heightChecks = true) l.branch l'.branch := by
  have hrounds := h.rounds
  have hrounds' := h.rounds'
  refine Agrees.bind h.arm fun j first t' m hfirst hm => ?_
  have hstart : ArmsFit ([first], none) :=
    ⟨List.forall_mem_singleton.mpr hfirst, fun body hbody => absurd hbody (Option.not_mem_none body)⟩
  refine Agrees.map ((Agrees.repeated (fun _ _ harms => (h.shorter (by omega)).armStep harms)
    (by omega) (by omega) (Nat.le_refl m) hstart).imp fun k arms harms => ?_)
  rcases arms with ⟨arms, otherwise⟩
  have hall : everyArm heightChecks arms.reverse = true :=
    everyArm_iff.mpr fun a ha => harms.1 a (List.mem_reverse.mp ha)
  cases otherwise with
  | none =>
      rw [Action.every, hall]
      rfl
  | some body =>
      rw [Action.every, hall, harms.2 body rfl]
      rfl

theorem loopStep? : Agrees n t (fun _ step => ∀ e ∈ step, e.every heightChecks = true) l.loopStep?
    l'.loopStep? := by
  refine Agrees.accept (fun t' m hm => ?_) fun _ => Agrees.pure fun e he => ?_
  · refine Agrees.map ((h.shorter (by omega)).expr.imp fun j step hstep e he => ?_)
    cases he
    exact hstep.2.every_expr
  · exact absurd he (Option.not_mem_none e)

theorem countLoop (counter : String) :
    Agrees n t (fun _ a => a.every heightChecks = true) (l.countLoop counter)
      (l'.countLoop counter) := by
  refine Agrees.bind h.expr fun j start t₁ m₁ hstart hm₁ => Agrees.expect fun t₂ m₂ hm₂ => ?_
  refine Agrees.bind (h.shorter (by omega)).expr fun j' limit t₃ m₃ hlimit hm₃ => ?_
  refine Agrees.bind (h.shorter (by omega)).loopStep? fun j'' step t₄ m₄ hstep hm₄ => ?_
  refine Agrees.expect fun t₅ m₅ hm₅ => ?_
  refine Agrees.map ((h.shorter (by omega)).closedBlock.imp fun k body hbody => ?_)
  cases step with
  | none =>
      rw [Action.every, hstart.2.every_expr, hlimit.2.every_expr, hbody]
      rfl
  | some step =>
      rw [Action.every, hstart.2.every_expr, hlimit.2.every_expr, hstep step rfl, hbody]
      rfl

theorem eachLoop (first : String) :
    Agrees n t (fun _ a => a.every heightChecks = true) (l.eachLoop first) (l'.eachLoop first) := by
  have hnames : Agrees n t (fun _ _ => True) (l.moreNames first) (l'.moreNames first) := by
    refine Agrees.accept (fun t' m hm => ?_) fun _ => Agrees.pure trivial
    exact Agrees.map (((h.shorter (by omega)).names .comma).imp fun _ _ _ => trivial)
  refine Agrees.bind hnames fun j names t₁ m₁ _ hm₁ => Agrees.expect fun t₂ m₂ hm₂ => ?_
  refine Agrees.bind (h.shorter (by omega)).exprs fun j' exprs t₃ m₃ hexprs hm₃ => ?_
  refine Agrees.expect fun t₄ m₄ hm₄ => ?_
  refine Agrees.map ((h.shorter (by omega)).closedBlock.imp fun k body hbody => ?_)
  rw [Action.every, Measured.everyExpr_of_fits hexprs.2, hbody]
  rfl

theorem forLoop : Agrees n t (fun _ a => a.every heightChecks = true) l.forLoop l'.forLoop := by
  refine Agrees.name fun first t' m hm => ?_
  refine Agrees.accept (fun t'' m' hm' => ?_) fun _ => ?_
  · exact (h.shorter (by omega)).countLoop first
  · exact (h.shorter (by omega)).eachLoop first

theorem definition (chunk : String) (line : Nat) :
    Agrees n t (fun _ a => a.every heightChecks = true) (l.definition chunk line)
      (l'.definition chunk line) := by
  have hmethod : ∀ {m t}, Agrees m t (fun _ _ => True) methodName? methodName? := by
    intro m t
    refine Agrees.accept (fun _ _ _ => ?_) fun _ => Agrees.pure trivial
    exact Agrees.name fun _ _ _ _ => Agrees.pure trivial
  refine Agrees.bind (h.names .dot) fun j path t₁ m₁ _ hm₁ => ?_
  refine Agrees.bind hmethod fun j' method t₂ m₂ _ hm₂ => ?_
  refine Agrees.map (((h.shorter (by omega)).functionBody chunk _ method.isSome line).imp
    fun k f hf => ?_)
  rw [Action.every, hf]
  rfl

theorem initialValues :
    Agrees n t (fun _ es => everyExpr heightChecks es = true) l.initialValues
      l'.initialValues := by
  refine Agrees.accept (fun t' m hm => ?_) fun _ => Agrees.pure rfl
  exact Agrees.map ((h.shorter (by omega)).exprs.imp fun j es hes =>
    Measured.everyExpr_of_fits hes.2)

theorem declaration (chunk : String) (line : Nat) :
    Agrees n t (fun _ a => a.every heightChecks = true) (l.declaration chunk line)
      (l'.declaration chunk line) := by
  refine Agrees.accept (fun t₁ m₁ hm₁ => ?_) fun _ => ?_
  · refine Agrees.name fun word t₂ m₂ hm₂ => ?_
    refine Agrees.map (((h.shorter (by omega)).functionBody chunk word false line).imp
      fun k f hf => ?_)
    rw [Action.every, hf]
    rfl
  · refine Agrees.bind (h.names .comma) fun j names t' m _ hm => ?_
    refine Agrees.map ((h.shorter (by omega)).initialValues.imp fun k values hvalues => ?_)
    rw [Action.every, hvalues]
    rfl

theorem assignment {first : Measured} (hfirst : first.Fits) :
    Agrees n t (fun _ a => a.every heightChecks = true) (l.assignment first)
      (l'.assignment first) := by
  have hrounds := h.rounds
  have hrounds' := h.rounds'
  have htargets : Agrees n t (fun _ es => ∀ e ∈ es, e.Fits) (l.moreTargets first)
      (l'.moreTargets first) := by
    refine Agrees.accept (fun t' m hm => ?_) fun _ =>
      Agrees.pure (List.forall_mem_singleton.mpr hfirst)
    refine Agrees.map ((Agrees.separated (fun _ => (h.shorter (by omega)).suffixed) (by omega)
      (by omega)).imp fun j es hes => ?_)
    exact List.forall_mem_cons.mpr ⟨hfirst, hes.2⟩
  refine Agrees.bind htargets fun j targets t₁ m₁ hfit hm₁ => ?_
  by_cases hall : targets.all (·.expr.isAssignable) = true
  · simp only [if_pos hall]
    refine Agrees.expect fun t₂ m₂ hm₂ => ?_
    refine Agrees.map ((h.shorter (by omega)).exprs.imp fun k values hvalues => ?_)
    rw [Action.every, Measured.everyExpr_of_fits hfit, Measured.everyExpr_of_fits hvalues.2]
    rfl
  · simp only [if_neg hall]
    exact Agrees.fail _

theorem exprStatement :
    Agrees n t (fun j a => 0 < j ∧ a.every heightChecks = true) l.exprStatement
      l'.exprStatement := by
  refine Agrees.bind h.suffixed fun j first t' m hfirst hm => Agrees.next fun line => ?_
  have hassignment : Agrees m t' (fun k a => 0 < j + k ∧ a.every heightChecks = true)
      (l.assignment first) (l'.assignment first) :=
    ((h.shorter (by omega)).assignment hfirst.2).imp fun k a ha => ⟨by omega, ha⟩
  have hcall : Agrees m t' (fun k a => 0 < j + k ∧ a.every heightChecks = true)
      (if first.expr.isMulti then pure (Action.call first.expr)
        else throw ⟨line, .notAStatement t'⟩)
      (if first.expr.isMulti then pure (Action.call first.expr)
        else throw ⟨line, .notAStatement t'⟩) := by
    by_cases hmulti : first.expr.isMulti = true
    · simp only [if_pos hmulti]
      refine Agrees.pure ⟨by omega, ?_⟩
      rw [Action.every, hfirst.2.every_expr]
      rfl
    · simp only [if_neg hmulti]
      exact Agrees.throw _
  cases t' with
  | mark mark =>
      cases mark with
      | assign => exact hassignment
      | comma => exact hassignment
      | _ => exact hcall
  | _ => exact hcall

theorem whileLoop : Agrees n t (fun _ a => a.every heightChecks = true) l.whileLoop l'.whileLoop := by
  refine Agrees.bind h.expr fun j condition t' m hcondition hm => ?_
  refine Agrees.expect fun t'' m' hm' => ?_
  refine Agrees.map ((h.shorter (by omega)).closedBlock.imp fun k body hbody => ?_)
  rw [Action.every, hcondition.2.every_expr, hbody]
  rfl

theorem repeatLoop :
    Agrees n t (fun _ a => a.every heightChecks = true) l.repeatLoop l'.repeatLoop := by
  refine Agrees.bind h.block fun j body t' m hbody hm => Agrees.expect fun t'' m' hm' => ?_
  refine Agrees.map ((h.shorter (by omega)).expr.imp fun k condition hcondition => ?_)
  rw [Action.every, hbody, hcondition.2.every_expr]
  rfl

theorem action (chunk : String) (line : Nat) :
    Agrees n t (fun j a => 0 < j ∧ a.every heightChecks = true) (l.action chunk ⟨t, line⟩)
      (l'.action chunk ⟨t, line⟩) := by
  -- Behind its first word each statement is one of the rules above.
  have hword : ∀ {p p' : Parser Action}, t ≠ .endOfSource →
      (∀ t' m, m + 1 ≤ n → Agrees m t' (fun _ a => a.every heightChecks = true) p p') →
      Agrees n t (fun j a => 0 < j ∧ a.every heightChecks = true) (advance >>= fun _ => p)
        (advance >>= fun _ => p') := by
    intro p p' ht hp
    exact Agrees.advance ht fun t' m hm => (hp t' m hm).imp fun j a ha => ⟨by omega, ha⟩
  cases t with
  | mark mark =>
      cases mark with
      | ifWord => exact hword (fun ht => by cases ht) fun _ _ _ => (h.shorter (by omega)).branch
      | whileWord => exact hword (fun ht => by cases ht) fun _ _ _ => (h.shorter (by omega)).whileLoop
      | doWord =>
          refine hword (fun ht => by cases ht) fun t' m hm => ?_
          refine Agrees.map ((h.shorter (by omega)).closedBlock.imp fun j body hbody => ?_)
          rw [Action.every, hbody]
          rfl
      | repeatWord =>
          exact hword (fun ht => by cases ht) fun _ _ _ => (h.shorter (by omega)).repeatLoop
      | forWord => exact hword (fun ht => by cases ht) fun _ _ _ => (h.shorter (by omega)).forLoop
      | functionWord =>
          exact hword (fun ht => by cases ht) fun _ _ _ =>
            (h.shorter (by omega)).definition chunk line
      | localWord =>
          exact hword (fun ht => by cases ht) fun _ _ _ =>
            (h.shorter (by omega)).declaration chunk line
      | breakWord =>
          exact hword (fun ht => by cases ht) fun _ _ _ => Agrees.pure rfl
      | _ => exact h.exprStatement
  | _ => exact h.exprStatement

theorem statementBelow (chunk : String) :
    Agrees n t (fun j s => 0 < j ∧ s.every heightChecks = true) (l.statementBelow chunk)
      (l'.statementBelow chunk) := by
  refine Agrees.next fun line => ?_
  refine Agrees.map ((h.action chunk line).imp fun j a ha => ⟨ha.1, ?_⟩)
  rw [Stmt.every]
  exact ha.2

end Alike

end Level

/-- Levels with enough rounds agree. -/
theorem level_alike (chunk : String) {n rounds rounds' : Nat} (hrounds : n < rounds)
    (hrounds' : n < rounds') (levels : Nat) :
    (level chunk rounds levels).Alike n (level chunk rounds' levels) := by
  induction levels with
  | zero => exact ⟨hrounds, hrounds', fun _ => Agrees.fail _, fun _ _ => Agrees.fail _⟩
  | succ levels ih =>
      exact ⟨hrounds, hrounds', fun _ => ih.statementBelow chunk,
        fun k _ => ih.operandBelow chunk k⟩

/-- A source that goes on behind a whole block is refused. -/
theorem wholeBlock_unfinished {l : Level} {ts rest : List Lexeme} {body : List Stmt} {u : Lexeme}
    (hblock : l.block ts = .ok (body, u :: rest)) (hu : u.token ≠ .endOfSource) :
    wholeBlock l ts = .error ⟨u.line, .endExpected u.token⟩ := by
  unfold wholeBlock
  rw [parse_bind, hblock]
  rcases u with ⟨token, line⟩
  cases token with
  | endOfSource => exact absurd rfl hu
  | _ => rfl

/-- A source has one outcome, whatever lies behind its end and however many rounds there are, if there
    are more than tokens. If it is accepted, the end of the source is what is left of it, and no
    expression is too tall. -/
theorem wholeBlock_outcome (chunk : String) {us : List Lexeme}
    (hend : ∀ u ∈ us, u.token ≠ .endOfSource) (line : Nat) :
    ∃ outcome : Except SyntaxError (List Stmt),
      (∀ rounds behind, us.length < rounds →
        wholeBlock (level chunk rounds maxSyntaxLevels) (upTo us line behind) =
          outcome.map fun body => (body, upTo [] line behind)) ∧
      ∀ body, outcome = .ok body → everyStmt heightChecks body = true := by
  have hwhole : ∀ rounds, us.length < rounds → ∃ outcome : Except SyntaxError (List Stmt),
      (∀ behind, wholeBlock (level chunk (us.length + 1) maxSyntaxLevels) (upTo us line behind) =
        outcome.map fun body => (body, upTo [] line behind)) ∧
      (∀ behind, wholeBlock (level chunk rounds maxSyntaxLevels) (upTo us line behind) =
        outcome.map fun body => (body, upTo [] line behind)) ∧
      ∀ body, outcome = .ok body → everyStmt heightChecks body = true := by
    intro rounds hrounds
    have halike := level_alike chunk (Nat.lt_succ_self us.length) hrounds maxSyntaxLevels
    cases halike.block us line (Nat.le_refl _) hend rfl with
    | @stops e hrun hrun' =>
        unfold wholeBlock
        refine ⟨.error e, fun behind => ?_, fun behind => ?_, fun body hbody => by cases hbody⟩
        · rw [parse_bind, hrun]
          rfl
        · rw [parse_bind, hrun']
          rfl
    | @gives used rest body hus hbody hrun hrun' =>
        cases rest with
        | nil =>
            unfold wholeBlock
            refine ⟨.ok body, fun behind => ?_, fun behind => ?_, fun body' hbody' => ?_⟩
            · rw [parse_bind, hrun]
              rfl
            · rw [parse_bind, hrun']
              rfl
            · cases hbody'
              exact hbody
        | cons u rest =>
            -- There is a token left that is not the end of the source.
            have hu : u.token ≠ .endOfSource := by
              refine hend u ?_
              rw [hus]
              exact List.mem_append_right used List.mem_cons_self
            refine ⟨.error ⟨u.line, .endExpected u.token⟩, fun behind => ?_, fun behind => ?_,
              fun body hbody => by cases hbody⟩
            · exact wholeBlock_unfinished (hrun behind) hu
            · exact wholeBlock_unfinished (hrun' behind) hu
  rcases hwhole (us.length + 1) (Nat.lt_succ_self _) with ⟨outcome, hrun, _, hevery⟩
  refine ⟨outcome, fun rounds behind hrounds => ?_, hevery⟩
  rcases hwhole rounds hrounds with ⟨outcome', hrun', hrounds', _⟩
  rw [hrounds', ← hrun', hrun]

end Script

end PixelEffects
