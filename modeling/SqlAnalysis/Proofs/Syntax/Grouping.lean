import SqlAnalysis.Grammar.Expression
import SqlAnalysis.Proofs.Syntax.Nodes

/-!
# How operators group

The levels of the operators, and what a tree without the brackets it does not need
looks like: an operator of a lower level never stands bare inside one of a higher
level. Binary operators group to the left. A `NOT` reaches as far to the right as
it can, so a left operand that ends in one is bare only under `AND` and `OR`.
-/
namespace SqlAnalysis

/-- How tightly an operator binds, the loosest first. -/
def BinaryOperator.level : BinaryOperator → Nat
  | .or => 0
  | .and => 1
  | .eq | .notEq | .lt | .le | .gt | .ge | .like | .notLike => 2
  | .concat | .add | .subtract => 3
  | .multiply | .divide | .modulo => 4
  | .member | .notMember => 5

namespace BinaryOperator

/-- The powers used by the parser keep the order of the levels. -/
theorem power_le_power_iff (a b : BinaryOperator) : a.power ≤ b.power ↔ a.level ≤ b.level := by
  cases a <;> cases b <;> decide

theorem power_lt_power_iff (a b : BinaryOperator) : a.power < b.power ↔ a.level < b.level := by
  rw [← Nat.not_le, ← Nat.not_le, power_le_power_iff]

theorem power_lt_notPower_iff (op : BinaryOperator) :
    op.power < notPower ↔ op = .or ∨ op = .and := by
  cases op <;> decide

/-- No operator binds more tightly than a sign. -/
theorem power_lt_signPower (op : BinaryOperator) : op.power < signPower := by
  cases op <;> decide

theorem power_le_of_isMembership {op : BinaryOperator} (h : op.isMembership) (a : BinaryOperator) :
    a.power ≤ op.power := by
  cases op <;> first | (cases a <;> decide) | cases h

end BinaryOperator

namespace Expr

/-- The operator at the top of an expression that is a bare operation. -/
def operator? : Expr → Option BinaryOperator
  | .binary _ _ op _ => some op
  | _ => none

/-- Whether the last operand stands under a `NOT` that no bracket closes. -/
def endsInNot : Expr → Bool
  | .unary _ .not _ => true
  | .unary _ .negate operand => operand.endsInNot
  | .binary _ _ _ right => right.endsInNot
  | _ => false

/-- Whether the bare operands of an operation bind tightly enough for it. -/
def IsGrouped : Expr → Prop
  | .binary _ left op right =>
    (∀ inner, left.operator? = some inner → op.level ≤ inner.level) ∧
    (∀ inner, right.operator? = some inner → op.level < inner.level) ∧
    (left.endsInNot → op = .or ∨ op = .and)
  | .unary _ .negate operand => operand.operator? = none
  | .unary _ .not operand =>
    operand.operator? ≠ some .or ∧ operand.operator? ≠ some .and
  | _ => True

@[simp] theorem operator?_withNote (note : Note) (e : Expr) :
    (e.withNote note).operator? = e.operator? := by
  cases e <;> rfl

@[simp] theorem endsInNot_withNote (note : Note) (e : Expr) :
    (e.withNote note).endsInNot = e.endsInNot := by
  rcases e with _ | _ | _ | _ | ⟨_, _ | _, _⟩ | _ | _ | _ | _ | _ <;> simp [withNote, endsInNot]

/-- A note matters for the expression itself only. -/
theorem mem_allNodes_withNote {x e : Expr} {note : Note} (h : x ∈ (e.withNote note).allNodes) :
    x = e.withNote note ∨ x ∈ e.allNodes := by
  cases e <;> grind [withNote, allNodes]

theorem isGrouped_withNote (note : Note) (e : Expr) :
    (e.withNote note).IsGrouped ↔ e.IsGrouped := by
  rcases e with _ | _ | _ | _ | ⟨_, _ | _, _⟩ | _ | _ | _ | _ | _ <;> simp [withNote, IsGrouped]

end Expr
end SqlAnalysis
