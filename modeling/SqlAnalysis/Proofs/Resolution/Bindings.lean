import SqlAnalysis.Proofs.Catalog.Growth
import SqlAnalysis.Syntax.Statement

/-!
# Trees whose names are bound

What it means that every name of a tree stands for something that a catalog has:
names and qualified names for columns, what stands before a point for a table, and
sources and targets for tables. Nothing inside the tree is left out.
-/
namespace SqlAnalysis

/-- The table that a name is bound to exists. -/
def TableBound (c : Catalog) (binding : Option TableId) : Prop :=
  ∃ id, binding = some id ∧ c.HasTable id

/-- The column that a name is bound to exists. -/
def ColumnBound (c : Catalog) (binding : Option ColumnId) : Prop :=
  ∃ id, binding = some id ∧ c.HasColumn id

namespace Expr

/-- The expression is bound to a column. -/
def MeansColumn (c : Catalog) (e : Expr) : Prop :=
  ∃ id, e.binding = some (.column id) ∧ c.HasColumn id

/-- The expression is a plain name and bound to a table. -/
def MeansTable (c : Catalog) (e : Expr) : Prop :=
  ∃ note ident id, e = .name note ident ∧ note.binding = some (.table id) ∧ c.HasTable id

end Expr

variable (c : Catalog)

mutual

def Expr.Bound : Expr → Prop
  | .constant _ _ => True
  | .name note ident => (Expr.name note ident).MeansColumn c
  | .dot note left right => (Expr.dot note left right).MeansColumn c ∧ left.MeansTable c
  | .binary _ left _ right => left.Bound ∧ right.Bound
  | .unary _ _ operand => operand.Bound
  | .call _ _ args => ExprsBound args
  | .callStar _ _ _ => True
  | .brackets _ inner => inner.Bound
  | .list _ items => ExprsBound items
  | .subquery _ select => select.Bound

def ExprsBound : List Expr → Prop
  | [] => True
  | e :: es => e.Bound ∧ ExprsBound es

def OptionBound : Option Expr → Prop
  | none => True
  | some e => e.Bound

def ResultColumnsBound : List ResultColumn → Prop
  | [] => True
  | .star _ :: columns => ResultColumnsBound columns
  | .tableStar _ :: columns => ResultColumnsBound columns
  | .expr value _ :: columns => value.Bound ∧ ResultColumnsBound columns

def Source.Bound : Source → Prop
  | .table _ _ binding => TableBound c binding
  | .subquery select _ _ => select.Bound

def JoinsBound : List Join → Prop
  | [] => True
  | ⟨_, _, source, on, _⟩ :: joins => source.Bound ∧ OptionBound on ∧ JoinsBound joins

def ClauseBound : Option FromClause → Prop
  | none => True
  | some ⟨first, joins⟩ => first.Bound ∧ JoinsBound joins

def GroupsBound : Option GroupBy → Prop
  | none => True
  | some ⟨exprs, having, _⟩ => ExprsBound exprs ∧ OptionBound having

def OrderingTermsBound : List OrderingTerm → Prop
  | [] => True
  | ⟨expr, _, _⟩ :: terms => expr.Bound ∧ OrderingTermsBound terms

def OrderBound : Option OrderBy → Prop
  | none => True
  | some ⟨terms, _⟩ => OrderingTermsBound terms

def LimitBound : Option Limit → Prop
  | none => True
  | some ⟨count, offset, _⟩ => count.Bound ∧ OptionBound offset

def Select.Bound : Select → Prop
  | ⟨_, columns, clause, test, groupBy, orderBy, limit, _, _⟩ =>
    ResultColumnsBound columns ∧ ClauseBound clause ∧ OptionBound test ∧ GroupsBound groupBy ∧
      OrderBound orderBy ∧ LimitBound limit

end

/-! ### Statements -/

def ValueRow.Bound (row : ValueRow) : Prop :=
  ExprsBound c row.values

structure Insert.Bound (s : Insert) : Prop where
  table : TableBound c s.binding
  targets : ∀ id ∈ s.targets, c.HasColumn id
  rows : ∀ row ∈ s.rows, row.Bound c

structure Assignment.Bound (a : Assignment) : Prop where
  column : ColumnBound c a.binding
  value : a.value.Bound c

structure Update.Bound (s : Update) : Prop where
  table : TableBound c s.binding
  assignments : ∀ a ∈ s.assignments, a.Bound c
  condition : OptionBound c s.condition

structure Delete.Bound (s : Delete) : Prop where
  table : TableBound c s.binding
  condition : OptionBound c s.condition

/-- The expressions of defaults and checks; other rules have none. -/
def ColumnRule.Bound : ColumnRule → Prop
  | .default value => value.Bound c
  | .check condition => condition.Bound c
  | _ => True

structure ColumnDef.Bound (d : ColumnDef) : Prop where
  column : ColumnBound c d.binding
  constraints : ∀ constraint ∈ d.constraints, constraint.rule.Bound c

def TableRule.Bound : TableRule → Prop
  | .check condition => condition.Bound c
  | _ => True

structure CreateTable.Bound (s : CreateTable) : Prop where
  table : TableBound c s.binding
  columns : ∀ d ∈ s.columns, d.Bound c
  constraints : ∀ constraint ∈ s.constraints, constraint.rule.Bound c

def AlterAction.Bound : AlterAction → Prop
  | .addColumn definition => definition.Bound c
  | _ => True

structure AlterTable.Bound (s : AlterTable) : Prop where
  table : TableBound c s.binding
  action : s.action.Bound c

/-- Every name of a statement is bound. A table that is dropped need not exist. -/
def StatementBody.Bound : StatementBody → Prop
  | .select s => s.Bound c
  | .insert s => s.Bound c
  | .update s => s.Bound c
  | .delete s => s.Bound c
  | .createTable s => s.Bound c
  | .alterTable s => s.Bound c
  | .dropTable _ => True

def Statement.Bound (s : Statement) : Prop :=
  s.body.Bound c

end SqlAnalysis
