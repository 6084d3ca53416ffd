import SqlAnalysis.Syntax.Statement

/-!
# Statements as text

The canonical text of a tree: keywords in capitals, one blank between words, an
operand in brackets if it is itself an operation.
-/
namespace SqlAnalysis

/-- Texts with a comma and a blank between them. -/
def commaList (parts : List String) : String :=
  Text.joinWith ", " parts

/-- Texts in brackets with commas between them. -/
def bracketList (parts : List String) : String :=
  "(" ++ commaList parts ++ ")"

def renderIdents (idents : List Ident) : String :=
  bracketList (idents.map Ident.render)

/-- An alias after what it names. -/
def renderAlias : Option Ident → String
  | some label => " AS " ++ label.render
  | none => ""

def JoinOperator.render : JoinOperator → String
  | .comma => ","
  | .plain => "JOIN"
  | .inner => "INNER JOIN"
  | .left => "LEFT JOIN"
  | .leftOuter => "LEFT OUTER JOIN"
  | .cross => "CROSS JOIN"

def renderDirection : Option SortDirection → String
  | some .ascending => " ASC"
  | some .descending => " DESC"
  | none => ""

def renderNulls : Option NullsOrder → String
  | some .first => " NULLS FIRST"
  | some .last => " NULLS LAST"
  | none => ""

/-- The words that join a source to those before it. -/
def renderJoinWords (natural : Bool) : JoinOperator → String
  | .comma => ", "
  | op => " " ++ (if natural then "NATURAL " else "") ++ op.render ++ " "

def Expr.isOperation : Expr → Bool
  | .binary _ _ _ _ | .unary _ _ _ => true
  | _ => false

/-- An operand's text, in brackets if the operand is an operation. -/
def bracketIf (operation : Bool) (text : String) : String :=
  if operation then "(" ++ text ++ ")" else text

mutual

def Expr.render : Expr → String
  | .constant _ value => value.render
  | .name _ ident => ident.render
  | .dot _ left right => left.render ++ "." ++ right.render
  | .binary _ left op right =>
    bracketIf left.isOperation left.render ++ " " ++ op.spelling ++ " " ++
      bracketIf right.isOperation right.render
  | .unary _ .not operand => "NOT " ++ bracketIf operand.isOperation operand.render
  | .unary _ .negate operand => "-" ++ bracketIf operand.isOperation operand.render
  | .call _ function args => function.render ++ bracketList (renderExprs args)
  | .callStar _ function _ => function.render ++ "(*)"
  | .brackets _ inner => "(" ++ inner.render ++ ")"
  | .list _ items => bracketList (renderExprs items)
  | .subquery _ select => "(" ++ select.render ++ ")"

def renderExprs : List Expr → List String
  | [] => []
  | e :: es => e.render :: renderExprs es

def renderColumns : List ResultColumn → List String
  | [] => []
  | .star _ :: columns => "*" :: renderColumns columns
  | .tableStar table :: columns => (table.render ++ ".*") :: renderColumns columns
  | .expr value label :: columns => (value.render ++ renderAlias label) :: renderColumns columns

def Source.render : Source → String
  | .table name label _ => name.render ++ renderAlias label
  | .subquery select label _ => "(" ++ select.render ++ ")" ++ renderAlias label

def renderJoins : List Join → String
  | [] => ""
  | ⟨natural, op, source, none, _⟩ :: joins =>
    renderJoinWords natural op ++ source.render ++ renderJoins joins
  | ⟨natural, op, source, some on, _⟩ :: joins =>
    renderJoinWords natural op ++ source.render ++ " ON " ++ on.render ++ renderJoins joins

def renderTerms : List OrderingTerm → List String
  | [] => []
  | ⟨expr, direction, nulls⟩ :: terms =>
    (expr.render ++ renderDirection direction ++ renderNulls nulls) :: renderTerms terms

def Select.render : Select → String
  | ⟨distinct, columns, source, condition, groupBy, orderBy, limit, _, _⟩ =>
    "SELECT " ++ (if distinct then "DISTINCT " else "") ++ commaList (renderColumns columns) ++
    (match source with
      | some ⟨source, joins⟩ => " FROM " ++ source.render ++ renderJoins joins
      | none => "") ++
    (match condition with
      | some condition => " WHERE " ++ condition.render
      | none => "") ++
    (match groupBy with
      | some ⟨exprs, some having, _⟩ =>
        " GROUP BY " ++ commaList (renderExprs exprs) ++ " HAVING " ++ having.render
      | some ⟨exprs, none, _⟩ => " GROUP BY " ++ commaList (renderExprs exprs)
      | none => "") ++
    (match orderBy with
      | some ⟨terms, _⟩ => " ORDER BY " ++ commaList (renderTerms terms)
      | none => "") ++
    (match limit with
      | some ⟨limit, some offset, _⟩ =>
        " LIMIT " ++ limit.render ++ " OFFSET " ++ offset.render
      | some ⟨limit, none, _⟩ => " LIMIT " ++ limit.render
      | none => "")

end

/-- The condition of a statement that changes rows. -/
def renderCondition : Option Expr → String
  | some condition => " WHERE " ++ condition.render
  | none => ""

def ValueRow.render (row : ValueRow) : String :=
  bracketList (row.values.map Expr.render)

/-- A list of columns, or nothing for none. -/
def renderColumnList : List Ident → String
  | [] => ""
  | columns => " " ++ renderIdents columns

def Insert.render (s : Insert) : String :=
  "INSERT INTO " ++ s.table.render ++ renderColumnList s.columns ++ " VALUES " ++
    commaList (s.rows.map ValueRow.render)

def Assignment.render (a : Assignment) : String :=
  a.column.render ++ " = " ++ a.value.render

def Update.render (s : Update) : String :=
  "UPDATE " ++ s.table.render ++ " SET " ++ commaList (s.assignments.map Assignment.render) ++
    renderCondition s.condition

def Delete.render (s : Delete) : String :=
  "DELETE FROM " ++ s.table.render ++ renderCondition s.condition

def TypeName.render (t : TypeName) : String :=
  match t.params with
  | [] => t.name
  | params => t.name ++ bracketList (params.map toString)

def ForeignKeyClause.render (clause : ForeignKeyClause) : String :=
  "REFERENCES " ++ clause.table.render ++ renderColumnList clause.columns

def ColumnRule.render : ColumnRule → String
  | .notNull => "NOT NULL"
  | .null => "NULL"
  | .default value =>
    if value.literal?.isSome then "DEFAULT " ++ value.render
    else "DEFAULT (" ++ value.render ++ ")"
  | .primaryKey direction autoincrement =>
    "PRIMARY KEY" ++ renderDirection direction ++ (if autoincrement then " AUTOINCREMENT" else "")
  | .unique => "UNIQUE"
  | .references clause => clause.render
  | .collate collation => "COLLATE " ++ collation.render
  | .check condition => "CHECK (" ++ condition.render ++ ")"

/-- The name of a constraint before its rule. -/
def renderConstraintName : Option Ident → String
  | some name => "CONSTRAINT " ++ name.render ++ " "
  | none => ""

def ColumnConstraint.render (c : ColumnConstraint) : String :=
  renderConstraintName c.name ++ c.rule.render

def ColumnDef.render (d : ColumnDef) : String :=
  let type := match d.typeName with
    | some t => " " ++ t.render
    | none => ""
  d.name.render ++ type ++ String.join (d.constraints.map fun c => " " ++ c.render)

def TableRule.render : TableRule → String
  | .primaryKey columns => "PRIMARY KEY " ++ renderIdents columns
  | .unique columns => "UNIQUE " ++ renderIdents columns
  | .check condition => "CHECK (" ++ condition.render ++ ")"
  | .foreignKey columns clause => "FOREIGN KEY " ++ renderIdents columns ++ " " ++ clause.render

def TableConstraint.render (c : TableConstraint) : String :=
  renderConstraintName c.name ++ c.rule.render

def CreateTable.render (s : CreateTable) : String :=
  "CREATE TABLE " ++ (if s.ifNotExists then "IF NOT EXISTS " else "") ++ s.name.render ++ " (" ++
    commaList (s.columns.map ColumnDef.render) ++
    String.join (s.constraints.map fun c => ", " ++ c.render) ++ ")"

def AlterAction.render : AlterAction → String
  | .addColumn definition => "ADD COLUMN " ++ definition.render
  | .dropColumn column => "DROP COLUMN " ++ column.render
  | .renameColumn column newName =>
    "RENAME COLUMN " ++ column.render ++ " TO " ++ newName.render
  | .renameTo newName => "RENAME TO " ++ newName.render

def AlterTable.render (s : AlterTable) : String :=
  "ALTER TABLE " ++ s.table.render ++ " " ++ s.action.render

def DropTable.render (s : DropTable) : String :=
  "DROP TABLE " ++ (if s.ifExists then "IF EXISTS " else "") ++ s.table.render

def StatementBody.render : StatementBody → String
  | .select s => s.render
  | .insert s => s.render
  | .update s => s.render
  | .delete s => s.render
  | .createTable s => s.render
  | .alterTable s => s.render
  | .dropTable s => s.render

def Statement.render (s : Statement) : String :=
  s.body.render

end SqlAnalysis
