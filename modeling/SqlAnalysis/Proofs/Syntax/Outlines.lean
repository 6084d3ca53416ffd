import SqlAnalysis.Proofs.Token.Outline
import SqlAnalysis.Syntax.Statement

/-!
# Outlines of trees

The spans of expressions, queries and statements. What has no span of its own, such as
a result column or a list of sources, gives the outlines of what it is made of to the
tree around it.
-/
namespace SqlAnalysis

def Ident.outline (name : Ident) : Outline :=
  .node name.span []

/-- The outline of a name that may be there. -/
def labelOutlines (label : Option Ident) : List Outline :=
  label.toList.map Ident.outline

mutual

def Expr.outline : Expr → Outline
  | .constant note _ => .node note.span []
  | .name note ident => .node note.span [ident.outline]
  | .dot note left right => .node note.span [left.outline, right.outline]
  | .binary note left _ right => .node note.span [left.outline, right.outline]
  | .unary note _ operand => .node note.span [operand.outline]
  | .call note function args => .node note.span (function.outline :: exprOutlines args)
  | .callStar note function star => .node note.span [function.outline, .node star []]
  | .brackets note inner => .node note.span [inner.outline]
  | .list note items => .node note.span (exprOutlines items)
  | .subquery note select => .node note.span [select.outline]

def exprOutlines : List Expr → List Outline
  | [] => []
  | e :: es => e.outline :: exprOutlines es

def columnOutlines : List ResultColumn → List Outline
  | [] => []
  | .expr value label :: columns => value.outline :: labelOutlines label ++ columnOutlines columns
  | .star span :: columns => .node span [] :: columnOutlines columns
  | .tableStar table :: columns => table.outline :: columnOutlines columns

/-- The alias of a table is part of the source, that of a query stands beside it. -/
def Source.outlines : Source → List Outline
  | .table name none _ => [.node name.span [name.outline]]
  | .table name (some label) _ =>
    [.node (name.span.merge label.span) [name.outline, label.outline]]
  | .subquery select label span => .node span [select.outline] :: labelOutlines label

def joinOutlines : List Join → List Outline
  | [] => []
  | ⟨_, _, source, on, span⟩ :: joins =>
    .node span (source.outlines ++ optionOutlines on) :: joinOutlines joins

def termOutlines : List OrderingTerm → List Outline
  | [] => []
  | ⟨expr, _, _⟩ :: terms => expr.outline :: termOutlines terms

def sourceOutlines : Option FromClause → List Outline
  | none => []
  | some ⟨first, joins⟩ => first.outlines ++ joinOutlines joins

def optionOutlines : Option Expr → List Outline
  | none => []
  | some e => [e.outline]

def groupOutlines : Option GroupBy → List Outline
  | none => []
  | some ⟨exprs, having, span⟩ => [.node span (exprOutlines exprs ++ optionOutlines having)]

def orderOutlines : Option OrderBy → List Outline
  | none => []
  | some ⟨terms, span⟩ => [.node span (termOutlines terms)]

def limitOutlines : Option Limit → List Outline
  | none => []
  | some ⟨count, offset, span⟩ => [.node span (count.outline :: optionOutlines offset)]

def Select.outline : Select → Outline
  | ⟨_, columns, source, condition, groupBy, orderBy, limit, span, _⟩ =>
    .node span (columnOutlines columns ++ sourceOutlines source ++ optionOutlines condition ++
      groupOutlines groupBy ++ orderOutlines orderBy ++ limitOutlines limit)

end

def ValueRow.outline (row : ValueRow) : Outline :=
  .node row.span (exprOutlines row.values)

def Assignment.outlines (a : Assignment) : List Outline :=
  [a.column.outline, a.value.outline]

def TypeName.outline (t : TypeName) : Outline :=
  .node t.span []

def ForeignKeyClause.outlines (clause : ForeignKeyClause) : List Outline :=
  clause.table.outline :: clause.columns.map Ident.outline

def ColumnRule.outlines : ColumnRule → List Outline
  | .default value => [value.outline]
  | .references clause => clause.outlines
  | .collate collation => [collation.outline]
  | .check condition => [condition.outline]
  | .notNull | .null | .primaryKey _ _ | .unique => []

def ColumnConstraint.outline (c : ColumnConstraint) : Outline :=
  .node c.span (labelOutlines c.name ++ c.rule.outlines)

def ColumnDef.outline (d : ColumnDef) : Outline :=
  .node d.span (d.name.outline :: (d.typeName.toList.map TypeName.outline ++
    d.constraints.map ColumnConstraint.outline))

def TableRule.outlines : TableRule → List Outline
  | .primaryKey columns | .unique columns => columns.map Ident.outline
  | .check condition => [condition.outline]
  | .foreignKey columns clause => columns.map Ident.outline ++ clause.outlines

def TableConstraint.outline (c : TableConstraint) : Outline :=
  .node c.span (labelOutlines c.name ++ c.rule.outlines)

def AlterAction.outlines : AlterAction → List Outline
  | .addColumn definition => [definition.outline]
  | .dropColumn column => [column.outline]
  | .renameColumn column newName => [column.outline, newName.outline]
  | .renameTo newName => [newName.outline]

def StatementBody.outlines : StatementBody → List Outline
  | .select s => [s.outline]
  | .insert i =>
    i.table.outline :: (i.columns.map Ident.outline ++ i.rows.map ValueRow.outline)
  | .update u =>
    u.table.outline :: (u.assignments.flatMap Assignment.outlines ++ optionOutlines u.condition)
  | .delete d => d.table.outline :: optionOutlines d.condition
  | .createTable t =>
    t.name.outline :: (t.columns.map ColumnDef.outline ++ t.constraints.map TableConstraint.outline)
  | .alterTable t => t.table.outline :: t.action.outlines
  | .dropTable t => [t.table.outline]

def Statement.outline (s : Statement) : Outline :=
  .node s.span s.body.outlines

/-! ### The outlines of lists -/

theorem exprOutlines_eq (es : List Expr) : exprOutlines es = es.map Expr.outline := by
  induction es with
  | nil => rfl
  | cons e es ih => rw [exprOutlines, ih, List.map_cons]

/-- The outlines of one result column. -/
def ResultColumn.outlines (column : ResultColumn) : List Outline :=
  columnOutlines [column]

theorem columnOutlines_eq (columns : List ResultColumn) :
    columnOutlines columns = columns.flatMap ResultColumn.outlines := by
  induction columns with
  | nil => rfl
  | cons column columns ih =>
    cases column <;> simp [columnOutlines, ResultColumn.outlines, ih]

/-- The outline of one further source. -/
def Join.outline (join : Join) : Outline :=
  .node join.span (join.source.outlines ++ optionOutlines join.on)

theorem joinOutlines_eq (joins : List Join) : joinOutlines joins = joins.map Join.outline := by
  induction joins with
  | nil => rfl
  | cons join joins ih =>
    cases join
    simp [joinOutlines, Join.outline, ih]

theorem termOutlines_eq (terms : List OrderingTerm) :
    termOutlines terms = terms.map fun term => term.expr.outline := by
  induction terms with
  | nil => rfl
  | cons term terms ih =>
    cases term
    simp [termOutlines, ih]

/-! ### The spans at the top -/

theorem Expr.span_outline (e : Expr) : e.outline.span = e.span := by
  cases e <;> rfl

theorem Expr.outline_withNote (note : Note) (e : Expr) :
    (e.withNote note).outline = .node note.span e.outline.parts := by
  cases e <;> rfl

end SqlAnalysis
