import PixelEffects.Proofs.Script.Syntax.Heights

/-!
# Heights up to a Cap

Measuring a tree no further than it matters.

Instead of carrying the height of each part, a parser can measure a part when it is added, and stop one
above the greatest height that is accepted. It then carries a number that may be smaller than the
height. As long as it is not above the limit, it is the height; and it is above the limit if the height
is. Both are said at once: the two numbers are the same up to the cap. They are so when measuring begins,
they stay so when a part is added, and then all checks end in the same way.

## Main definitions

* `Carried`: The numbers that are carried when parts are measured.

## Theorems

* `Expr.heightWithin_eq`: What measuring up to a cap gives.
* `Carried.agree`: What is carried is the height up to the cap.
* `Carried.check_eq`: Checks end in the same way.
-/

namespace PixelEffects

namespace Script

variable {ν : Type}

/-! ## Measuring -/

/-- Below the cap, what is one above the parts is measured by measuring these up to one less. -/
theorem above_within {cap below within : Nat} (h : within = min (cap - 1) below) :
    (if cap ≤ 1 then cap else min cap (within + 1)) = min cap (below + 1) := by
  split <;> omega

mutual

/-- Measuring up to a cap gives the height, or the cap if that is less. -/
theorem Expr.heightWithin_eq : (e : Expr ν) → (cap : Nat) → e.heightWithin cap = min cap e.height
  | .nil, cap | .bool _, cap | .number _, cap | .text _, cap | .function _, cap | .name _, cap => by
    rw [Expr.heightWithin, Expr.height]
    show (if cap ≤ 1 then cap else min cap (0 + 1)) = min cap (0 + 1)
    exact above_within (Nat.min_zero _).symm
  | .index object key, cap => by
    have hobject := object.heightWithin_eq (cap - 1)
    have hkey := key.heightWithin_eq (cap - 1)
    rw [Expr.heightWithin, Expr.height]
    exact above_within (by omega)
  | .call callee args, cap => by
    have hcallee := callee.heightWithin_eq (cap - 1)
    have hargs := heightOfListWithin_eq args (cap - 1)
    rw [Expr.heightWithin, Expr.height]
    exact above_within (by omega)
  | .method object _ args, cap => by
    have hobject := object.heightWithin_eq (cap - 1)
    have hargs := heightOfListWithin_eq args (cap - 1)
    rw [Expr.heightWithin, Expr.height]
    exact above_within (by omega)
  | .table fields, cap => by
    rw [Expr.heightWithin, Expr.height]
    exact above_within (heightOfFieldsWithin_eq fields (cap - 1))
  | .unary _ operand, cap => by
    rw [Expr.heightWithin, Expr.height]
    exact above_within (operand.heightWithin_eq (cap - 1))
  | .binary _ left right, cap => by
    have hleft := left.heightWithin_eq (cap - 1)
    have hright := right.heightWithin_eq (cap - 1)
    rw [Expr.heightWithin, Expr.height]
    exact above_within (by omega)
  | .paren inner, cap => by
    rw [Expr.heightWithin, Expr.height]
    exact above_within (inner.heightWithin_eq (cap - 1))

theorem heightOfListWithin_eq :
    (es : List (Expr ν)) → (cap : Nat) → heightOfListWithin cap es = min cap (heightOfList es)
  | [], cap => by
    rw [heightOfListWithin, heightOfList]
    omega
  | e :: es, cap => by
    have he := e.heightWithin_eq cap
    have hes := heightOfListWithin_eq es cap
    rw [heightOfListWithin, heightOfList]
    omega

theorem heightOfFieldsWithin_eq :
    (fs : List (Field ν)) → (cap : Nat) → heightOfFieldsWithin cap fs = min cap (heightOfFields fs)
  | [], cap => by
    rw [heightOfFieldsWithin, heightOfFields]
    omega
  | f :: fs, cap => by
    have hf := f.heightWithin_eq cap
    have hfs := heightOfFieldsWithin_eq fs cap
    rw [heightOfFieldsWithin, heightOfFields]
    omega

theorem Field.heightWithin_eq : (f : Field ν) → (cap : Nat) → f.heightWithin cap = min cap f.height
  | .named _ value, cap => by
    rw [Field.heightWithin, Field.height]
    exact value.heightWithin_eq cap
  | .keyed key value, cap => by
    have hkey := key.heightWithin_eq cap
    have hvalue := value.heightWithin_eq cap
    rw [Field.heightWithin, Field.height]
    omega
  | .item value, cap => by
    rw [Field.heightWithin, Field.height]
    exact value.heightWithin_eq cap

end

/-! ## Checking -/

/-- What is carried for an expression when its height is not counted: the expression is measured up to
    the cap, or it has been made of one for which a number was carried, and of parts that are measured. -/
inductive Carried (cap : Nat) : Expr → Nat → Prop
  | measured (e : Expr) : Carried cap e (e.heightWithin cap)
  | binary {e : Expr} {n : Nat} (op : BinaryOp) (right : Expr) (h : Carried cap e n) :
      Carried cap (.binary op e right) (max n (right.heightWithin cap) + 1)
  | index {e : Expr} {n : Nat} (key : Expr) (h : Carried cap e n) :
      Carried cap (.index e key) (max n (key.heightWithin cap) + 1)
  | indexName {e : Expr} {n : Nat} (name : String) (h : Carried cap e n) :
      Carried cap (.index e (.text name)) (n + 1)
  | call {e : Expr} {n : Nat} (args : List Expr) (h : Carried cap e n) :
      Carried cap (.call e args) (max n (heightOfListWithin cap args) + 1)
  | method {e : Expr} {n : Nat} (name : String) (args : List Expr) (h : Carried cap e n) :
      Carried cap (.method e name args) (max n (heightOfListWithin cap args) + 1)

namespace Carried

variable {cap n : Nat}

/-- It is the height up to the cap. -/
theorem agree {e : Expr} (h : Carried cap e n) : min cap n = min cap e.height := by
  induction h with
  | measured e =>
      rw [e.heightWithin_eq]
      omega
  | binary op right _ ih =>
      rw [right.heightWithin_eq, Expr.height]
      omega
  | index key _ ih =>
      rw [key.heightWithin_eq, Expr.height]
      omega
  | @indexName e _ name _ ih =>
      have hpos := e.height_pos
      simp only [Expr.height]
      omega
  | call args _ ih =>
      rw [heightOfListWithin_eq, Expr.height]
      omega
  | method name args _ ih =>
      rw [heightOfListWithin_eq, Expr.height]
      omega

/-- With a cap one above the limit, it is refused where the counted height is, and it is the counted
    height where it is not refused. -/
theorem check_eq {e : Measured} (he : e.Exact) (h : Carried (maxSyntaxLevels + 1) e.expr n) :
    Measured.check ⟨e.expr, n⟩ = e.check ∧ (n ≤ maxSyntaxLevels → n = e.height) := by
  have hagree := h.agree
  unfold Measured.Exact at he
  have hsame : n > maxSyntaxLevels ↔ e.height > maxSyntaxLevels := by omega
  refine ⟨?_, fun hlow => by omega⟩
  unfold Measured.check
  simp only [hsame]

end Carried

end Script

end PixelEffects
