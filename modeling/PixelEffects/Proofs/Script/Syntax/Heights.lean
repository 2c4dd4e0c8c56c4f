import PixelEffects.Proofs.Script.Reach
import PixelEffects.Proofs.Script.Syntax.Ensures
import PixelEffects.Proofs.Script.Syntax.Written

/-!
# Counted Heights

The height that is counted while an expression is built is the height of what was built.

Two loops let an expression grow, one by suffixes and one by operators, and neither measures the tree
again. They count: a round adds one to the larger of the heights of the parts. The count is right at
the start of a loop, and every round keeps it right, so it is right after any number of rounds,
whether the loop goes on or not, and also where the parser stops with a fault later. It does not
matter for this what the tokens are, how many rounds or levels are left, or how tall the tree is.

## Main definitions

* `Measured.Exact`: The counted height is the height.
* `Passes`: The states that a loop passes through.
* `Level.Counts`: The operands of a level have their heights counted rightly.

## Theorems

* `Level.Counts.primary`, `Level.Counts.suffixStep`: The loop of suffixes.
* `Level.Counts.prefixed`, `Level.Counts.binaryStep`: The loop of operators.
* `level_counts`: All levels count rightly.
* `suffixed_passes_exact`, `operand_passes_exact`: At each moment of the loops the count is right.
-/

namespace PixelEffects

namespace Script

open PixelEffects.Script.Parser

/-- The counted height is the height. -/
def Measured.Exact (e : Measured) : Prop :=
  e.height = e.expr.height

/-- The counted height of an entry is its height. -/
def MeasuredField.Exact (f : MeasuredField) : Prop :=
  f.height = f.field.height

/-! ### Trees that are built from parts -/

namespace Measured.Exact

variable {e key : Measured} {args : List Measured}

theorem tallest (hargs : ∀ a ∈ args, a.Exact) :
    Measured.tallest args = heightOfList (args.map (·.expr)) := by
  refine tallest_eq ?_
  rw [List.map_map]
  exact List.map_congr_left hargs

theorem paren (he : e.Exact) : Exact ⟨.paren e.expr, e.height + 1⟩ := by
  unfold Exact at he ⊢
  rw [Expr.height, he]

theorem unary (op : UnaryOp) (he : e.Exact) : Exact ⟨.unary op e.expr, e.height + 1⟩ := by
  unfold Exact at he ⊢
  rw [Expr.height, he]

theorem binary (op : BinaryOp) (he : e.Exact) (hkey : key.Exact) :
    Exact ⟨.binary op e.expr key.expr, max e.height key.height + 1⟩ := by
  unfold Exact at he hkey ⊢
  rw [Expr.height, he, hkey]

theorem index (he : e.Exact) (hkey : key.Exact) :
    Exact ⟨.index e.expr key.expr, max e.height key.height + 1⟩ := by
  unfold Exact at he hkey ⊢
  rw [Expr.height, he, hkey]

/-- A name behind a dot is a leaf, and no expression is less tall than that. -/
theorem indexName (name : String) (he : e.Exact) :
    Exact ⟨.index e.expr (.text name), e.height + 1⟩ := by
  have hpos := e.expr.height_pos
  unfold Exact at he ⊢
  simp only [Expr.height]
  omega

theorem call (he : e.Exact) (hargs : ∀ a ∈ args, a.Exact) :
    Exact ⟨.call e.expr (args.map (·.expr)), max e.height (Measured.tallest args) + 1⟩ := by
  unfold Exact at he
  rw [Exact, Expr.height, he, tallest hargs]

theorem method (name : String) (he : e.Exact) (hargs : ∀ a ∈ args, a.Exact) :
    Exact ⟨.method e.expr name (args.map (·.expr)),
      max e.height (Measured.tallest args) + 1⟩ := by
  unfold Exact at he
  rw [Exact, Expr.height, he, tallest hargs]

/-- The entries of a table are collected in reverse. -/
theorem table {fields : List MeasuredField} (h : ∀ f ∈ fields, f.Exact) :
    Exact ⟨.table (fields.reverse.map (·.field)),
      fields.foldl (fun h f => max h f.height) 0 + 1⟩ := by
  have hheights : fields.reverse.map (·.height) =
      (fields.reverse.map (·.field)).map Field.height := by
    rw [List.map_map]
    exact List.map_congr_left fun f hf => h f (List.mem_reverse.mp hf)
  rw [Exact, Expr.height, tallestField_eq hheights]

end Measured.Exact

/-! ### Rules -/

namespace Level

/-- The operands of a level have their heights counted rightly. -/
def Counts (l : Level) : Prop :=
  ∀ k, Ensures Measured.Exact (l.operand k)

namespace Counts

variable {l : Level} (h : l.Counts)

include h

theorem expr : Ensures Measured.Exact l.expr :=
  h 0

theorem exprs : Ensures (fun es => ∀ e ∈ es, e.Exact) l.exprs :=
  Ensures.separated h.expr

theorem field : Ensures MeasuredField.Exact l.field := by
  intro ts f rest hrun
  unfold Level.field at hrun
  split at hrun
  · refine Ensures.bind (Q := MeasuredField.Exact) h.expr (fun value hvalue => ?_) _ f rest hrun
    exact Ensures.pure hvalue
  · refine Ensures.bind (Q := MeasuredField.Exact) h.expr (fun key hkey => ?_) _ f rest hrun
    refine Ensures.andThen fun _ => Ensures.andThen fun _ => ?_
    refine Ensures.bind h.expr fun value hvalue => Ensures.pure ?_
    unfold Measured.Exact at hkey hvalue
    rw [MeasuredField.Exact, Field.height, hkey, hvalue]
  · refine Ensures.bind (Q := MeasuredField.Exact) h.expr (fun value hvalue => ?_) _ f rest hrun
    exact Ensures.pure hvalue

theorem table : Ensures Measured.Exact l.table := by
  have hstep : ∀ fields : List MeasuredField, (∀ f ∈ fields, f.Exact) →
      Ensures (fun r => ∀ f ∈ r.1, f.Exact) (l.fieldStep fields) := by
    intro fields hfields
    refine Ensures.andThen fun closed => ?_
    split
    · exact Ensures.pure hfields
    · refine Ensures.bind h.field fun f hf => Ensures.andThen fun goOn => Ensures.pure ?_
      exact List.forall_mem_cons.mpr ⟨hf, hfields⟩
  refine Ensures.andThen fun _ => ?_
  refine Ensures.bind (Ensures.repeated hstep _ [] fun f hf => ?_) fun fields hfields => ?_
  · exact absurd hf List.not_mem_nil
  · exact Ensures.pure (Measured.Exact.table hfields)

theorem arguments : Ensures (fun es => ∀ e ∈ es, e.Exact) l.arguments := by
  refine Ensures.andThen fun t => ?_
  split
  · exact Ensures.andThen fun _ => Ensures.pure (List.forall_mem_singleton.mpr rfl)
  · exact Ensures.bind h.table fun e he => Ensures.pure (List.forall_mem_singleton.mpr he)
  · refine Ensures.andThen fun _ => Ensures.andThen fun closed => ?_
    split
    · exact Ensures.pure fun e he => absurd he List.not_mem_nil
    · exact Ensures.bind h.exprs fun es hes => Ensures.andThen fun _ => Ensures.pure hes
  · exact Ensures.throw _

theorem primary : Ensures Measured.Exact l.primary := by
  refine Ensures.andThen fun t => ?_
  split
  · exact Ensures.andThen fun _ => Ensures.pure rfl
  · refine Ensures.andThen fun _ => Ensures.bind h.expr fun inner hinner => ?_
    exact Ensures.andThen fun _ => Ensures.pure hinner.paren
  · exact Ensures.throw _

theorem callSuffix {e : Measured} (he : e.Exact) : Ensures Measured.Exact (l.callSuffix e) :=
  Ensures.bind h.arguments fun _ hargs => Ensures.pure (he.call hargs)

/-- A round of the loop of suffixes keeps the count right. -/
theorem suffixStep {e : Measured} (he : e.Exact) :
    Ensures (fun r => r.1.Exact) (l.suffixStep e) := by
  refine Ensures.andThen fun _ => Ensures.andThen fun t => ?_
  split
  · exact Ensures.andThen fun _ => Ensures.andThen fun key => Ensures.pure (he.indexName key)
  · refine Ensures.andThen fun _ => Ensures.bind h.expr fun key hkey => ?_
    exact Ensures.andThen fun _ => Ensures.pure (he.index hkey)
  · refine Ensures.andThen fun _ => Ensures.andThen fun name => ?_
    exact Ensures.bind h.arguments fun args hargs => Ensures.pure (he.method name hargs)
  · exact Ensures.bind (h.callSuffix he) fun call hcall => Ensures.pure hcall
  · exact Ensures.bind (h.callSuffix he) fun call hcall => Ensures.pure hcall
  · exact Ensures.bind (h.callSuffix he) fun call hcall => Ensures.pure hcall
  · exact Ensures.pure he

theorem suffixed : Ensures Measured.Exact l.suffixed :=
  Ensures.bind h.primary fun e he => Ensures.repeated (fun _ he => h.suffixStep he) _ e he

theorem simple (chunk : String) : Ensures Measured.Exact (l.simple chunk) := by
  refine Ensures.andThen fun t => ?_
  split
  · exact Ensures.andThen fun _ => Ensures.pure rfl
  · exact Ensures.andThen fun _ => Ensures.pure rfl
  · exact Ensures.andThen fun _ => Ensures.pure rfl
  · exact Ensures.andThen fun _ => Ensures.pure rfl
  · exact Ensures.andThen fun _ => Ensures.pure rfl
  · exact h.table
  · -- A function is a leaf, whatever its body is.
    exact Ensures.andThen fun _ => Ensures.andThen fun definition => Ensures.pure rfl
  · exact h.suffixed

theorem prefixed (chunk : String) : Ensures Measured.Exact (l.prefixed chunk) := by
  refine Ensures.andThen fun t => ?_
  split
  · next op _ =>
      refine Ensures.andThen fun _ => Ensures.bind (h _) fun operand hoperand => ?_
      exact Ensures.pure (hoperand.unary op)
  · exact h.simple chunk

/-- A round of the loop of operators keeps the count right. -/
theorem binaryStep (limit : Nat) {e : Measured} (he : e.Exact) :
    Ensures (fun r => r.1.Exact) (l.binaryStep limit e) := by
  refine Ensures.andThen fun t => ?_
  split
  · exact Ensures.pure he
  · next op _ =>
      split
      · exact Ensures.pure he
      · refine Ensures.andThen fun _ => Ensures.bind (h _) fun right hright => ?_
        exact Ensures.andThen fun _ => Ensures.pure (he.binary op hright)

theorem operandBelow (chunk : String) (limit : Nat) :
    Ensures Measured.Exact (l.operandBelow chunk limit) := by
  refine Ensures.bind (h.prefixed chunk) fun e he => Ensures.andThen fun _ => ?_
  exact Ensures.repeated (fun _ he => h.binaryStep limit he) _ e he

end Counts

end Level

/-- All levels count heights rightly. -/
theorem level_counts (chunk : String) (rounds n : Nat) : (level chunk rounds n).Counts := by
  induction n with
  | zero => exact fun _ => Ensures.fail _
  | succ n ih => exact ih.operandBelow chunk

/-! ### At each moment of a loop -/

/-- The states that a loop passes through, from one state and the tokens there to another, however
    many rounds it is given. -/
inductive Passes {σ : Type} (step : σ → Parser (σ × Bool)) (s : σ) (ts : List Lexeme) :
    σ → List Lexeme → Prop
  | start : Passes step s ts s ts
  | round {s' s'' : σ} {ts' ts'' : List Lexeme} {goOn : Bool} : Passes step s ts s' ts' →
      step s' ts' = .ok ((s'', goOn), ts'') → Passes step s ts s'' ts''

/-- What every round keeps holds of every state that a loop passes through. -/
theorem Passes.induction {σ : Type} {step : σ → Parser (σ × Bool)} {I : σ → Prop}
    (hstep : ∀ s, I s → Ensures (fun r => I r.1) (step s)) {s s' : σ} {ts ts' : List Lexeme}
    (h : Passes step s ts s' ts') (hs : I s) : I s' := by
  induction h with
  | start => exact hs
  | round _ hrun ih => exact hstep _ ih _ _ _ hrun

/-- While suffixes are read, the count is right at each moment. -/
theorem suffixed_passes_exact (chunk : String) (rounds n : Nat) {ts ts' ts'' : List Lexeme}
    {e e' : Measured} (hprimary : (level chunk rounds n).primary ts = .ok (e, ts'))
    (hpasses : Passes (level chunk rounds n).suffixStep e ts' e' ts'') : e'.Exact := by
  have hcounts := level_counts chunk rounds n
  exact hpasses.induction (fun _ he => hcounts.suffixStep he) (hcounts.primary _ _ _ hprimary)

/-- While operators are read, the count is right at each moment. -/
theorem operand_passes_exact (chunk : String) (rounds n limit : Nat) {ts ts' ts'' : List Lexeme}
    {e e' : Measured} (hprefixed : (level chunk rounds n).prefixed chunk ts = .ok (e, ts'))
    (hpasses : Passes ((level chunk rounds n).binaryStep limit) e ts' e' ts'') : e'.Exact := by
  have hcounts := level_counts chunk rounds n
  exact hpasses.induction (fun _ he => hcounts.binaryStep limit he)
    (hcounts.prefixed chunk _ _ _ hprefixed)

end Script

end PixelEffects
