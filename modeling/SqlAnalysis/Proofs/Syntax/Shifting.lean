import SqlAnalysis.Syntax.Statement

/-!
# Trees at another place

What a statement looks like if its text stands further to the right: the same tree with
every span moved by the same number of bytes.
-/
namespace SqlAnalysis

/-- The span `n` bytes further to the right. -/
def Span.shift (n : Nat) (s : Span) : Span :=
  ⟨s.start + n, s.stop + n⟩

theorem Span.shift_merge (n : Nat) (a b : Span) :
    (a.merge b).shift n = (a.shift n).merge (b.shift n) := by
  simp [Span.shift, Span.merge, Nat.add_min_add_right, Nat.add_max_add_right]

def Ident.shift (n : Nat) (ident : Ident) : Ident :=
  { ident with span := ident.span.shift n }

def Note.shift (n : Nat) (note : Note) : Note :=
  { note with span := note.span.shift n }

mutual

@[simp] def Expr.shift (n : Nat) : Expr → Expr
  | .constant note value => .constant (note.shift n) value
  | .name note ident => .name (note.shift n) (ident.shift n)
  | .dot note left right => .dot (note.shift n) (left.shift n) (right.shift n)
  | .binary note left op right => .binary (note.shift n) (left.shift n) op (right.shift n)
  | .unary note op operand => .unary (note.shift n) op (operand.shift n)
  | .call note function args => .call (note.shift n) (function.shift n) (shiftExprs n args)
  | .callStar note function star => .callStar (note.shift n) (function.shift n) (star.shift n)
  | .brackets note inner => .brackets (note.shift n) (inner.shift n)
  | .list note items => .list (note.shift n) (shiftExprs n items)
  | .subquery note select => .subquery (note.shift n) (select.shift n)

def shiftExprs (n : Nat) : List Expr → List Expr
  | [] => []
  | e :: es => e.shift n :: shiftExprs n es

def shiftOption (n : Nat) : Option Expr → Option Expr
  | none => none
  | some e => some (e.shift n)

def shiftColumns (n : Nat) : List ResultColumn → List ResultColumn
  | [] => []
  | .star span :: columns => .star (span.shift n) :: shiftColumns n columns
  | .tableStar table :: columns => .tableStar (table.shift n) :: shiftColumns n columns
  | .expr value label :: columns =>
    .expr (value.shift n) (label.map (Ident.shift n)) :: shiftColumns n columns

def Source.shift (n : Nat) : Source → Source
  | .table name label binding => .table (name.shift n) (label.map (Ident.shift n)) binding
  | .subquery select label span =>
    .subquery (select.shift n) (label.map (Ident.shift n)) (span.shift n)

def shiftJoins (n : Nat) : List Join → List Join
  | [] => []
  | ⟨natural, operator, source, on, span⟩ :: joins =>
    ⟨natural, operator, source.shift n, shiftOption n on, span.shift n⟩ :: shiftJoins n joins

def shiftFrom (n : Nat) : Option FromClause → Option FromClause
  | none => none
  | some ⟨source, joins⟩ => some ⟨source.shift n, shiftJoins n joins⟩

def shiftGroupBy (n : Nat) : Option GroupBy → Option GroupBy
  | none => none
  | some ⟨exprs, having, span⟩ => some ⟨shiftExprs n exprs, shiftOption n having, span.shift n⟩

def shiftTerms (n : Nat) : List OrderingTerm → List OrderingTerm
  | [] => []
  | ⟨expr, direction, nulls⟩ :: terms => ⟨expr.shift n, direction, nulls⟩ :: shiftTerms n terms

def shiftOrderBy (n : Nat) : Option OrderBy → Option OrderBy
  | none => none
  | some ⟨terms, span⟩ => some ⟨shiftTerms n terms, span.shift n⟩

def shiftLimit (n : Nat) : Option Limit → Option Limit
  | none => none
  | some ⟨limit, offset, span⟩ => some ⟨limit.shift n, shiftOption n offset, span.shift n⟩

def Select.shift (n : Nat) : Select → Select
  | ⟨distinct, columns, source, condition, groupBy, orderBy, limit, span, result⟩ =>
    ⟨distinct, shiftColumns n columns, shiftFrom n source, shiftOption n condition,
      shiftGroupBy n groupBy, shiftOrderBy n orderBy, shiftLimit n limit, span.shift n, result⟩

end

/-! ### Parts of a query -/

def ResultColumn.shift (n : Nat) : ResultColumn → ResultColumn
  | .star span => .star (span.shift n)
  | .tableStar table => .tableStar (table.shift n)
  | .expr value label => .expr (value.shift n) (label.map (Ident.shift n))

def Join.shift (n : Nat) (join : Join) : Join :=
  { join with
    source := join.source.shift n
    on := join.on.map (Expr.shift n)
    span := join.span.shift n }

def FromClause.shift (n : Nat) (clause : FromClause) : FromClause :=
  ⟨clause.source.shift n, clause.joins.map (Join.shift n)⟩

def GroupBy.shift (n : Nat) (groupBy : GroupBy) : GroupBy :=
  ⟨groupBy.exprs.map (Expr.shift n), groupBy.having.map (Expr.shift n), groupBy.span.shift n⟩

def OrderingTerm.shift (n : Nat) (term : OrderingTerm) : OrderingTerm :=
  { term with expr := term.expr.shift n }

def OrderBy.shift (n : Nat) (orderBy : OrderBy) : OrderBy :=
  ⟨orderBy.terms.map (OrderingTerm.shift n), orderBy.span.shift n⟩

def Limit.shift (n : Nat) (limit : Limit) : Limit :=
  ⟨limit.limit.shift n, limit.offset.map (Expr.shift n), limit.span.shift n⟩

section

variable (n : Nat)

theorem shiftExprs_eq (es : List Expr) : shiftExprs n es = es.map (Expr.shift n) := by
  induction es with
  | nil => rfl
  | cons e es ih => simp [shiftExprs, ih]

theorem shiftOption_eq (o : Option Expr) : shiftOption n o = o.map (Expr.shift n) := by
  cases o <;> rfl

theorem shiftColumns_eq (columns : List ResultColumn) :
    shiftColumns n columns = columns.map (ResultColumn.shift n) := by
  induction columns with
  | nil => rfl
  | cons column columns ih => cases column <;> simp [shiftColumns, ResultColumn.shift, ih]

theorem shiftJoins_eq (joins : List Join) : shiftJoins n joins = joins.map (Join.shift n) := by
  induction joins with
  | nil => rfl
  | cons join joins ih =>
    obtain ⟨natural, operator, source, on, span⟩ := join
    simp [shiftJoins, Join.shift, shiftOption_eq, ih]

theorem shiftTerms_eq (terms : List OrderingTerm) :
    shiftTerms n terms = terms.map (OrderingTerm.shift n) := by
  induction terms with
  | nil => rfl
  | cons term terms ih =>
    obtain ⟨expr, direction, nulls⟩ := term
    simp [shiftTerms, OrderingTerm.shift, ih]

theorem Select.shift_eq (s : Select) :
    s.shift n = ⟨s.distinct, s.columns.map (ResultColumn.shift n),
      s.source.map (FromClause.shift n), s.condition.map (Expr.shift n),
      s.groupBy.map (GroupBy.shift n), s.orderBy.map (OrderBy.shift n),
      s.limit.map (Limit.shift n), s.span.shift n, s.result⟩ := by
  obtain ⟨distinct, columns, source, condition, groupBy, orderBy, limit, span, result⟩ := s
  have hsource : shiftFrom n source = source.map (FromClause.shift n) := by
    rcases source with _ | ⟨source, joins⟩ <;> simp [shiftFrom, FromClause.shift, shiftJoins_eq]
  have hgroupBy : shiftGroupBy n groupBy = groupBy.map (GroupBy.shift n) := by
    rcases groupBy with _ | ⟨exprs, having, span⟩ <;>
      simp [shiftGroupBy, GroupBy.shift, shiftExprs_eq, shiftOption_eq]
  have horderBy : shiftOrderBy n orderBy = orderBy.map (OrderBy.shift n) := by
    rcases orderBy with _ | ⟨terms, span⟩ <;> simp [shiftOrderBy, OrderBy.shift, shiftTerms_eq]
  have hlimit : shiftLimit n limit = limit.map (Limit.shift n) := by
    rcases limit with _ | ⟨limit, offset, span⟩ <;> simp [shiftLimit, Limit.shift, shiftOption_eq]
  rw [Select.shift, shiftColumns_eq, hsource, shiftOption_eq, hgroupBy, horderBy, hlimit]

@[simp] theorem Expr.note_shift (e : Expr) : (e.shift n).note = e.note.shift n := by
  cases e <;> rfl

@[simp] theorem Expr.span_shift (e : Expr) : (e.shift n).span = e.span.shift n := by
  rw [Expr.span, Expr.note_shift]
  rfl

theorem Expr.shift_withNote (note : Note) (e : Expr) :
    (e.withNote note).shift n = (e.shift n).withNote (note.shift n) := by
  cases e <;> rfl

end

/-! ### Statements -/

def ValueRow.shift (n : Nat) (row : ValueRow) : ValueRow :=
  ⟨row.values.map (Expr.shift n), row.span.shift n⟩

def Insert.shift (n : Nat) (s : Insert) : Insert :=
  { s with
    table := s.table.shift n
    columns := s.columns.map (Ident.shift n)
    rows := s.rows.map (ValueRow.shift n) }

def Assignment.shift (n : Nat) (a : Assignment) : Assignment :=
  { a with column := a.column.shift n, value := a.value.shift n }

def Update.shift (n : Nat) (s : Update) : Update :=
  { s with
    table := s.table.shift n
    assignments := s.assignments.map (Assignment.shift n)
    condition := s.condition.map (Expr.shift n) }

def Delete.shift (n : Nat) (s : Delete) : Delete :=
  { s with table := s.table.shift n, condition := s.condition.map (Expr.shift n) }

def TypeName.shift (n : Nat) (t : TypeName) : TypeName :=
  { t with span := t.span.shift n }

def ForeignKeyClause.shift (n : Nat) (clause : ForeignKeyClause) : ForeignKeyClause :=
  ⟨clause.table.shift n, clause.columns.map (Ident.shift n)⟩

def ColumnRule.shift (n : Nat) : ColumnRule → ColumnRule
  | .default value => .default (value.shift n)
  | .references clause => .references (clause.shift n)
  | .collate collation => .collate (collation.shift n)
  | .check condition => .check (condition.shift n)
  | rule => rule

def ColumnConstraint.shift (n : Nat) (c : ColumnConstraint) : ColumnConstraint :=
  ⟨c.name.map (Ident.shift n), c.rule.shift n, c.span.shift n⟩

def ColumnDef.shift (n : Nat) (d : ColumnDef) : ColumnDef :=
  { d with
    name := d.name.shift n
    typeName := d.typeName.map (TypeName.shift n)
    constraints := d.constraints.map (ColumnConstraint.shift n)
    span := d.span.shift n }

def TableRule.shift (n : Nat) : TableRule → TableRule
  | .primaryKey columns => .primaryKey (columns.map (Ident.shift n))
  | .unique columns => .unique (columns.map (Ident.shift n))
  | .check condition => .check (condition.shift n)
  | .foreignKey columns clause => .foreignKey (columns.map (Ident.shift n)) (clause.shift n)

def TableConstraint.shift (n : Nat) (c : TableConstraint) : TableConstraint :=
  ⟨c.name.map (Ident.shift n), c.rule.shift n, c.span.shift n⟩

def CreateTable.shift (n : Nat) (s : CreateTable) : CreateTable :=
  { s with
    name := s.name.shift n
    columns := s.columns.map (ColumnDef.shift n)
    constraints := s.constraints.map (TableConstraint.shift n) }

def AlterAction.shift (n : Nat) : AlterAction → AlterAction
  | .addColumn definition => .addColumn (definition.shift n)
  | .dropColumn column => .dropColumn (column.shift n)
  | .renameColumn column newName => .renameColumn (column.shift n) (newName.shift n)
  | .renameTo newName => .renameTo (newName.shift n)

def AlterTable.shift (n : Nat) (s : AlterTable) : AlterTable :=
  { s with table := s.table.shift n, action := s.action.shift n }

def DropTable.shift (n : Nat) (s : DropTable) : DropTable :=
  { s with table := s.table.shift n }

def StatementBody.shift (n : Nat) : StatementBody → StatementBody
  | .select s => .select (s.shift n)
  | .insert s => .insert (s.shift n)
  | .update s => .update (s.shift n)
  | .delete s => .delete (s.shift n)
  | .createTable s => .createTable (s.shift n)
  | .alterTable s => .alterTable (s.shift n)
  | .dropTable s => .dropTable (s.shift n)

def Statement.shift (n : Nat) (s : Statement) : Statement :=
  ⟨s.body.shift n, s.span.shift n, s.leadingComment.map (Span.shift n)⟩

end SqlAnalysis
