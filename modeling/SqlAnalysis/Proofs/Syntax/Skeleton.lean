import SqlAnalysis.Syntax.Render

/-!
# What the canonical text of a tree keeps

The canonical text of a query or of a change to rows does not show where anything
stood, whether a name was quoted that needs no quotes, which brackets were written
besides those that the text puts itself, and whether the one member on the right of
`IN` was a list of its own. The skeleton of a tree is the tree without all that.
-/
namespace SqlAnalysis

def Ident.skeleton (ident : Ident) : Ident :=
  { ident with quoted := false, span := Span.zero }

/-- The note without its span. What resolution finds is kept. -/
def Note.skeleton (note : Note) : Note :=
  { note with span := Span.zero }

namespace Expr

/-- The one item of a list of one. -/
def unwrapOne : Expr → Expr
  | .list _ [item] => item
  | e => e

/-- The right operand of an operator, where `IN` takes an item for a list of one. -/
def unwrapMember (op : BinaryOperator) (e : Expr) : Expr :=
  if op.isMembership then e.unwrapOne else e

end Expr

mutual

def Expr.skeleton : Expr → Expr
  | .constant note value => .constant note.skeleton value
  | .name note ident => .name note.skeleton ident.skeleton
  | .dot note left right => .dot note.skeleton left.skeleton right.skeleton
  | .binary note left op right =>
    .binary note.skeleton left.skeleton op (right.skeleton.unwrapMember op)
  | .unary note op operand => .unary note.skeleton op operand.skeleton
  | .call note function args => .call note.skeleton function.skeleton (skeletonExprs args)
  | .callStar note function _ => .callStar note.skeleton function.skeleton Span.zero
  | .brackets _ inner => inner.skeleton
  | .list note items => .list note.skeleton (skeletonExprs items)
  | .subquery note select => .subquery note.skeleton select.skeleton

def skeletonExprs : List Expr → List Expr
  | [] => []
  | e :: es => e.skeleton :: skeletonExprs es

def skeletonOption : Option Expr → Option Expr
  | none => none
  | some e => some e.skeleton

def skeletonColumns : List ResultColumn → List ResultColumn
  | [] => []
  | .star _ :: columns => .star Span.zero :: skeletonColumns columns
  | .tableStar table :: columns => .tableStar table.skeleton :: skeletonColumns columns
  | .expr value label :: columns =>
    .expr value.skeleton (label.map Ident.skeleton) :: skeletonColumns columns

def Source.skeleton : Source → Source
  | .table name label binding => .table name.skeleton (label.map Ident.skeleton) binding
  | .subquery select label _ =>
    .subquery select.skeleton (label.map Ident.skeleton) Span.zero

def skeletonJoins : List Join → List Join
  | [] => []
  | ⟨natural, operator, source, on, _⟩ :: joins =>
    ⟨natural, operator, source.skeleton, skeletonOption on, Span.zero⟩ :: skeletonJoins joins

def skeletonFrom : Option FromClause → Option FromClause
  | none => none
  | some ⟨source, joins⟩ => some ⟨source.skeleton, skeletonJoins joins⟩

def skeletonGroupBy : Option GroupBy → Option GroupBy
  | none => none
  | some ⟨exprs, having, _⟩ => some ⟨skeletonExprs exprs, skeletonOption having, Span.zero⟩

def skeletonTerms : List OrderingTerm → List OrderingTerm
  | [] => []
  | ⟨expr, direction, nulls⟩ :: terms => ⟨expr.skeleton, direction, nulls⟩ :: skeletonTerms terms

def skeletonOrderBy : Option OrderBy → Option OrderBy
  | none => none
  | some ⟨terms, _⟩ => some ⟨skeletonTerms terms, Span.zero⟩

def skeletonLimit : Option Limit → Option Limit
  | none => none
  | some ⟨limit, offset, _⟩ => some ⟨limit.skeleton, skeletonOption offset, Span.zero⟩

def Select.skeleton : Select → Select
  | ⟨distinct, columns, source, condition, groupBy, orderBy, limit, _, result⟩ =>
    ⟨distinct, skeletonColumns columns, skeletonFrom source, skeletonOption condition,
      skeletonGroupBy groupBy, skeletonOrderBy orderBy, skeletonLimit limit, Span.zero, result⟩

end

/-- A span is no part of the skeleton. -/
theorem Expr.skeleton_withSpan (span : Span) (e : Expr) :
    (e.withNote { e.note with span := span }).skeleton = e.skeleton := by
  cases e <;> rfl

theorem skeletonExprs_eq (es : List Expr) : skeletonExprs es = es.map Expr.skeleton := by
  induction es with
  | nil => rfl
  | cons e es ih => simp [skeletonExprs, ih]

theorem skeletonOption_eq (o : Option Expr) : skeletonOption o = o.map Expr.skeleton := by
  cases o <;> rfl

/-! ### Parts of a query -/

def ResultColumn.skeleton : ResultColumn → ResultColumn
  | .star _ => .star Span.zero
  | .tableStar table => .tableStar table.skeleton
  | .expr value label => .expr value.skeleton (label.map Ident.skeleton)

def Join.skeleton (join : Join) : Join :=
  { join with source := join.source.skeleton, on := skeletonOption join.on, span := Span.zero }

def FromClause.skeleton (clause : FromClause) : FromClause :=
  ⟨clause.source.skeleton, clause.joins.map Join.skeleton⟩

def GroupBy.skeleton (groupBy : GroupBy) : GroupBy :=
  ⟨groupBy.exprs.map Expr.skeleton, groupBy.having.map Expr.skeleton, Span.zero⟩

def OrderingTerm.skeleton (term : OrderingTerm) : OrderingTerm :=
  { term with expr := term.expr.skeleton }

def OrderBy.skeleton (orderBy : OrderBy) : OrderBy :=
  ⟨orderBy.terms.map OrderingTerm.skeleton, Span.zero⟩

def Limit.skeleton (limit : Limit) : Limit :=
  ⟨limit.limit.skeleton, limit.offset.map Expr.skeleton, Span.zero⟩

theorem skeletonColumns_eq (columns : List ResultColumn) :
    skeletonColumns columns = columns.map ResultColumn.skeleton := by
  induction columns with
  | nil => rfl
  | cons column columns ih => cases column <;> simp [skeletonColumns, ResultColumn.skeleton, ih]

theorem skeletonJoins_eq (joins : List Join) :
    skeletonJoins joins = joins.map Join.skeleton := by
  induction joins with
  | nil => rfl
  | cons join joins ih =>
    obtain ⟨natural, operator, source, on, span⟩ := join
    simp [skeletonJoins, Join.skeleton, ih]

theorem skeletonTerms_eq (terms : List OrderingTerm) :
    skeletonTerms terms = terms.map OrderingTerm.skeleton := by
  induction terms with
  | nil => rfl
  | cons term terms ih =>
    obtain ⟨expr, direction, nulls⟩ := term
    simp [skeletonTerms, OrderingTerm.skeleton, ih]

theorem Select.skeleton_eq (s : Select) :
    s.skeleton = ⟨s.distinct, s.columns.map ResultColumn.skeleton,
      s.source.map FromClause.skeleton, s.condition.map Expr.skeleton,
      s.groupBy.map GroupBy.skeleton, s.orderBy.map OrderBy.skeleton,
      s.limit.map Limit.skeleton, Span.zero, s.result⟩ := by
  obtain ⟨distinct, columns, source, condition, groupBy, orderBy, limit, span, result⟩ := s
  have hsource : skeletonFrom source = source.map FromClause.skeleton := by
    rcases source with _ | ⟨source, joins⟩ <;> simp [skeletonFrom, FromClause.skeleton, skeletonJoins_eq]
  have hgroupBy : skeletonGroupBy groupBy = groupBy.map GroupBy.skeleton := by
    rcases groupBy with _ | ⟨exprs, having, span⟩ <;>
      simp [skeletonGroupBy, GroupBy.skeleton, skeletonExprs_eq, skeletonOption_eq]
  have horderBy : skeletonOrderBy orderBy = orderBy.map OrderBy.skeleton := by
    rcases orderBy with _ | ⟨terms, span⟩ <;>
      simp [skeletonOrderBy, OrderBy.skeleton, skeletonTerms_eq]
  have hlimit : skeletonLimit limit = limit.map Limit.skeleton := by
    rcases limit with _ | ⟨limit, offset, span⟩ <;>
      simp [skeletonLimit, Limit.skeleton, skeletonOption_eq]
  rw [Select.skeleton, skeletonColumns_eq, hsource, skeletonOption_eq, hgroupBy, horderBy, hlimit]

/-! ### Statements that change rows -/

def ValueRow.skeleton (row : ValueRow) : ValueRow :=
  ⟨row.values.map Expr.skeleton, Span.zero⟩

def Insert.skeleton (s : Insert) : Insert :=
  { s with
    table := s.table.skeleton
    columns := s.columns.map Ident.skeleton
    rows := s.rows.map ValueRow.skeleton }

def Assignment.skeleton (a : Assignment) : Assignment :=
  { a with column := a.column.skeleton, value := a.value.skeleton }

def Update.skeleton (s : Update) : Update :=
  { s with
    table := s.table.skeleton
    assignments := s.assignments.map Assignment.skeleton
    condition := s.condition.map Expr.skeleton }

def Delete.skeleton (s : Delete) : Delete :=
  { s with table := s.table.skeleton, condition := s.condition.map Expr.skeleton }

/-! ### Statements that define tables -/

def TypeName.skeleton (t : TypeName) : TypeName :=
  { t with span := Span.zero }

def ForeignKeyClause.skeleton (clause : ForeignKeyClause) : ForeignKeyClause :=
  ⟨clause.table.skeleton, clause.columns.map Ident.skeleton⟩

def ColumnRule.skeleton : ColumnRule → ColumnRule
  | .default value => .default value.skeleton
  | .references clause => .references clause.skeleton
  | .collate collation => .collate collation.skeleton
  | .check condition => .check condition.skeleton
  | rule => rule

def ColumnConstraint.skeleton (c : ColumnConstraint) : ColumnConstraint :=
  ⟨c.name.map Ident.skeleton, c.rule.skeleton, Span.zero⟩

def ColumnDef.skeleton (d : ColumnDef) : ColumnDef :=
  { d with
    name := d.name.skeleton
    typeName := d.typeName.map TypeName.skeleton
    constraints := d.constraints.map ColumnConstraint.skeleton
    span := Span.zero }

def TableRule.skeleton : TableRule → TableRule
  | .primaryKey columns => .primaryKey (columns.map Ident.skeleton)
  | .unique columns => .unique (columns.map Ident.skeleton)
  | .check condition => .check condition.skeleton
  | .foreignKey columns clause => .foreignKey (columns.map Ident.skeleton) clause.skeleton

def TableConstraint.skeleton (c : TableConstraint) : TableConstraint :=
  ⟨c.name.map Ident.skeleton, c.rule.skeleton, Span.zero⟩

/-- A definition of a table without what its text does not show. -/
def CreateTable.skeleton (s : CreateTable) : CreateTable :=
  { s with
    name := s.name.skeleton
    columns := s.columns.map ColumnDef.skeleton
    constraints := s.constraints.map TableConstraint.skeleton }

/-- Queries and changes to rows without what their text does not show. Definitions
stay as they are. -/
def StatementBody.skeleton : StatementBody → StatementBody
  | .select s => .select s.skeleton
  | .insert s => .insert s.skeleton
  | .update s => .update s.skeleton
  | .delete s => .delete s.skeleton
  | body => body

def Statement.skeleton (s : Statement) : Statement :=
  ⟨s.body.skeleton, Span.zero, none⟩

end SqlAnalysis
