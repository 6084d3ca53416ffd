import SqlAnalysis.Syntax.Query

/-!
# Statements

The statements that change data or tables, around the expressions they hold.
-/
namespace SqlAnalysis

/-- One tuple of values to insert. -/
structure ValueRow where
  values : List Expr
  span : Span

structure Insert where
  table : Ident
  binding : Option TableId
  /-- No columns stand for all columns of the table in their order. -/
  columns : List Ident
  rows : List ValueRow
  /-- The column into which each value of a row goes, once resolved. -/
  targets : List ColumnId

structure Assignment where
  column : Ident
  binding : Option ColumnId
  value : Expr

structure Update where
  table : Ident
  binding : Option TableId
  assignments : List Assignment
  condition : Option Expr

structure Delete where
  table : Ident
  binding : Option TableId
  condition : Option Expr

/-- A column type as written. -/
structure TypeName where
  /-- The words of the name with one blank between them. -/
  name : String
  params : List Nat
  span : Span
deriving DecidableEq, Inhabited

/-- The target of a foreign key. -/
structure ForeignKeyClause where
  table : Ident
  columns : List Ident
deriving DecidableEq, Inhabited

inductive ColumnRule where
  | notNull
  | null
  | default (value : Expr)
  | primaryKey (direction : Option SortDirection) (autoincrement : Bool)
  | unique
  | references (clause : ForeignKeyClause)
  | collate (collation : Ident)
  | check (condition : Expr)

structure ColumnConstraint where
  name : Option Ident
  rule : ColumnRule
  span : Span

structure ColumnDef where
  name : Ident
  typeName : Option TypeName
  constraints : List ColumnConstraint
  span : Span
  /-- The meaning of the written type, once resolved. -/
  type : Option SqlType
  binding : Option ColumnId

inductive TableRule where
  | primaryKey (columns : List Ident)
  | unique (columns : List Ident)
  | check (condition : Expr)
  | foreignKey (columns : List Ident) (clause : ForeignKeyClause)

structure TableConstraint where
  name : Option Ident
  rule : TableRule
  span : Span

structure CreateTable where
  ifNotExists : Bool
  name : Ident
  columns : List ColumnDef
  constraints : List TableConstraint
  binding : Option TableId

inductive AlterAction where
  | addColumn (definition : ColumnDef)
  | dropColumn (column : Ident)
  | renameColumn (column newName : Ident)
  | renameTo (newName : Ident)

structure AlterTable where
  table : Ident
  binding : Option TableId
  action : AlterAction

structure DropTable where
  ifExists : Bool
  table : Ident
  binding : Option TableId

inductive StatementBody where
  | select (body : Select)
  | insert (body : Insert)
  | update (body : Update)
  | delete (body : Delete)
  | createTable (body : CreateTable)
  | alterTable (body : AlterTable)
  | dropTable (body : DropTable)

/-- A statement with its place in the source. -/
structure Statement where
  body : StatementBody
  /-- From the first keyword to the last token, without the semicolon. -/
  span : Span
  /-- The comment right before the statement. -/
  leadingComment : Option Span

/-- The keywords that a statement begins with. -/
def StatementBody.keyword : StatementBody → String
  | .select _ => "SELECT"
  | .insert _ => "INSERT"
  | .update _ => "UPDATE"
  | .delete _ => "DELETE"
  | .createTable _ => "CREATE TABLE"
  | .alterTable _ => "ALTER TABLE"
  | .dropTable _ => "DROP TABLE"

def ColumnRule.isNotNull : ColumnRule → Bool
  | .notNull => true
  | _ => false

/-- Whether one of the column's rules has a property. -/
def ColumnDef.hasRule (d : ColumnDef) (p : ColumnRule → Bool) : Bool :=
  d.constraints.any fun constraint => p constraint.rule

end SqlAnalysis
