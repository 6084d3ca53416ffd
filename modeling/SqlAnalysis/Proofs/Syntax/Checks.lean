import SqlAnalysis.Canonical

/-!
# Checks of tables

The conditions of the checks in the definition of a table, whether they stand at a column or
among the rules of the table, and what it is to put others in their places or to leave them out.
-/
namespace SqlAnalysis

namespace ColumnRule

/-- The condition of a check. -/
def checks : ColumnRule → List Expr
  | .check condition => [condition]
  | _ => []

/-- The rule with another condition, or no rule, if it is a check. -/
def editCheck? (f : Expr → Option Expr) : ColumnRule → Option ColumnRule
  | .check condition => (f condition).map .check
  | rule => some rule

end ColumnRule

namespace TableRule

def checks : TableRule → List Expr
  | .check condition => [condition]
  | _ => []

def editCheck? (f : Expr → Option Expr) : TableRule → Option TableRule
  | .check condition => (f condition).map .check
  | rule => some rule

end TableRule

def ColumnConstraint.editCheck? (f : Expr → Option Expr) (c : ColumnConstraint) :
    Option ColumnConstraint :=
  (c.rule.editCheck? f).map fun rule => { c with rule := rule }

def TableConstraint.editCheck? (f : Expr → Option Expr) (c : TableConstraint) :
    Option TableConstraint :=
  (c.rule.editCheck? f).map fun rule => { c with rule := rule }

namespace ColumnDef

def checks (d : ColumnDef) : List Expr :=
  d.constraints.flatMap fun c => c.rule.checks

def editChecks (f : Expr → Option Expr) (d : ColumnDef) : ColumnDef :=
  { d with constraints := d.constraints.filterMap (ColumnConstraint.editCheck? f) }

theorem mem_checks {d : ColumnDef} {e : Expr} :
    e ∈ d.checks ↔ ∃ c ∈ d.constraints, c.rule = .check e := by
  have hrule (rule : ColumnRule) : e ∈ rule.checks ↔ rule = .check e := by
    cases rule <;> simp [ColumnRule.checks, eq_comm]
  simp [checks, hrule]

/-- Whether a check is there already depends on the texts of the checks only. -/
theorem hasCheck_iff {d : ColumnDef} {text : String} :
    d.hasCheck text = true ↔ text ∈ d.checks.map Expr.render := by
  simp only [hasCheck, hasRule, List.any_eq_true, List.mem_map, mem_checks]
  constructor
  · rintro ⟨c, hc, htext⟩
    split at htext
    · next e he => exact ⟨e, ⟨c, hc, he⟩, beq_iff_eq.mp htext⟩
    · cases htext
  · rintro ⟨e, ⟨c, hc, he⟩, rfl⟩
    exact ⟨c, hc, by simp [he]⟩

end ColumnDef

namespace CreateTable

/-- The conditions of all checks, those of columns first. -/
def checks (t : CreateTable) : List Expr :=
  t.columns.flatMap ColumnDef.checks ++ t.constraints.flatMap fun c => c.rule.checks

/-- The definition with other conditions in its checks. A check for which there is none is left
out. -/
def editChecks (f : Expr → Option Expr) (t : CreateTable) : CreateTable :=
  { t with
    columns := t.columns.map (.editChecks f)
    constraints := t.constraints.filterMap (TableConstraint.editCheck? f) }

end CreateTable

end SqlAnalysis
