import SqlAnalysis.Diagnostic.Sink
import SqlAnalysis.Resolution.Query
import SqlAnalysis.Syntax.Statement

/-!
# Resolving statements

Statements that define tables change the catalog for the statements after them.
Each statement has a scope of its own, which is left when the statement ends, so
no name bound in one statement is seen in another.
-/
namespace SqlAnalysis

namespace Resolver

/-- Complains about a value that cannot go into a column. A text for a date must
be written in the form of one, which settles the matter. -/
def requireStorable (value : Expr) (column : ColumnId) : Resolver Unit := do
  let entry := (← catalog).column column
  match entry.type with
  | none => return
  | some type =>
    match type.kind.textForm?, value.literal?.bind Literal.text? with
    | some form, some text =>
      if !type.kind.admitsText text then
        let message := "invalid " ++ type.render ++ " value '" ++ text ++ "' for column " ++
          entry.name
        errorWithFix message value.span (some s!"write the value as {form}")
    | form?, _ =>
      if let some valueType := value.type then
        if !valueType.canCastTo type then
          errorWithFix
            s!"cannot assign {valueType.render} to column {entry.name} of type {type.render}"
            value.span (form?.map fun form => "write the value as a '" ++ form ++ "' string")

/-- The table that a statement is about, bound in the innermost scope. -/
def target? (name : Ident) : Resolver (Option TableId) := do
  match ← catalogTable? name with
  | some table =>
    modify fun s => s.bindTable name.name table
    return some table
  | none => return none

/-! ### Rows -/

/-- Complains about a column whose folded name was listed before. -/
def requireUnlisted (seen : List String) (ident : Ident) : Resolver Unit := do
  if seen.contains (Text.foldCase ident.name) then
    error s!"column {ident.name} listed twice" ident.span

/-- The columns that an insertion lists, and whether all of them are known. -/
def listedColumns (table : TableId) (seen : List String) :
    List Ident → Resolver (List ColumnId × Bool)
  | [] => return ([], true)
  | ident :: idents => do
    requireUnlisted seen ident
    let column ← tableColumn? table ident
    let (columns, complete) ← listedColumns table (Text.foldCase ident.name :: seen) idents
    return (column.toList ++ columns, column.isSome && complete)

/-- Values for the columns given; those beyond the last column go nowhere. -/
def storedTerms : List ColumnId → List Expr → Resolver (List Expr)
  | _, [] => return []
  | [], e :: es => do
    let e ← term e
    return e :: (← storedTerms [] es)
  | column :: columns, e :: es => do
    let e ← term e
    requireStorable e column
    return e :: (← storedTerms columns es)

/-- Complains about a row that has not one value for each column. -/
def requireLength (targets : List ColumnId) (row : ValueRow) : Resolver Unit := do
  if row.values.length ≠ targets.length then
    error s!"expected {targets.length} values, found {row.values.length}" row.span

/-- A row for the columns given. Where these are not all known, nothing is
required of it. -/
def valueRow (targets : List ColumnId) (complete : Bool) (row : ValueRow) :
    Resolver ValueRow := do
  if complete then
    requireLength targets row
    return { row with values := ← storedTerms targets row.values }
  else
    return { row with values := ← storedTerms [] row.values }

/-- The columns that an insertion fills, and whether all of them are known. -/
def insertTargets (table : TableId) (columns : List Ident) : Resolver (List ColumnId × Bool) := do
  if columns.isEmpty then
    return (((← catalog).table table).columns, true)
  else
    listedColumns table [] columns

/-- The rows of an insertion, in a scope of their own. -/
def insertRows (targets : List ColumnId) (complete : Bool) :
    List ValueRow → Resolver (List ValueRow)
  | [] => return []
  | first :: rest =>
    within (rest.foldl (fun span row => span.merge row.span) first.span)
      ((first :: rest).mapM (valueRow targets complete))

def insert (s : Insert) : Resolver Insert := do
  match ← target? s.table with
  | none => return s
  | some table =>
    let (targets, complete) ← insertTargets table s.columns
    let rows ← insertRows targets complete s.rows
    return { s with binding := some table, rows := rows, targets := targets }

def assignment (table : TableId) (a : Assignment) : Resolver Assignment := do
  let column ← tableColumn? table a.column
  let value ← term a.value
  if let some id := column then
    requireStorable value id
  return { a with binding := column, value := value }

def update (s : Update) : Resolver Update := do
  match ← target? s.table with
  | none => return s
  | some table =>
    let assignments ← s.assignments.mapM (assignment table)
    let condition ← rowCondition s.condition
    return { s with binding := some table, assignments := assignments, condition := condition }

def delete (s : Delete) : Resolver Delete := do
  match ← target? s.table with
  | none => return s
  | some table =>
    return { s with binding := some table, condition := ← rowCondition s.condition }

/-! ### Tables -/

/-- The type that a column is declared with. -/
def declaredType? : Option TypeName → Resolver (Option SqlType)
  | none => return none
  | some written => do
    match SqlType.ofParts written.name written.params with
    | .ok type => return some type
    | .error e =>
      error e.message written.span
      return none

/-- A column under a rule about its values. -/
def applyRule (column : Column) : ColumnRule → Column
  | .notNull => { column with notNull := true, nullable := false }
  | .primaryKey _ _ => { column with primaryKey := true, nullable := false }
  | .default value => { column with defaultValue := some value.render }
  | _ => column

/-- Adds the column that a definition describes. -/
def defineColumn (table : TableId) (d : ColumnDef) : Resolver (ColumnDef × ColumnId) := do
  let type ← declaredType? d.typeName
  let column := d.constraints.foldl (fun column c => applyRule column c.rule)
    (Column.plain d.name.name type table)
  let id ← addColumn table column
  return ({ d with type := type, binding := some id }, id)

/-- The columns that a foreign key refers to, each with the place that names it;
nothing if the table lacks a primary key and no columns are named. -/
def keyTargets? (table : TableId) (clause : ForeignKeyClause) :
    Resolver (Option (List (Option ColumnId × Span))) := do
  if clause.columns.isEmpty then
    match (← catalog).primaryKey? table with
    | some key => return some [(some key, clause.table.span)]
    | none =>
      error s!"table {clause.table.name} has no primary key" clause.table.span
      return none
  else
    let targets ← clause.columns.mapM fun ident => do
      return (← tableColumn? table ident, ident.span)
    return some targets

def requireKey (referenced : Column) (place : Span) : Resolver Unit := do
  if !referenced.primaryKey then
    warning "referenced column is not a primary key" place

/-- Complains about a column whose values cannot be those of the column it refers to. -/
def requireReferable (name : Ident) (column referenced : Column) : Resolver Unit := do
  if let (some a, some b) := (column.type, referenced.type) then
    if !a.canCastTo b then
      let words := s!"foreign key type {a.render} is not compatible with referenced column"
      error s!"{words} {referenced.name} of type {b.render}" name.span

/-- Links a column to the one it refers to. -/
def linkColumn (source : Ident × Option ColumnId) (target : Option ColumnId × Span) :
    Resolver Unit := do
  if let (some sourceId, some targetId) := (source.2, target.1) then
    let c ← catalog
    requireKey (c.column targetId) target.2
    requireReferable source.1 (c.column sourceId) (c.column targetId)
    modifyCatalog fun c => c.modifyColumn sourceId fun column =>
      { column with references := some targetId }

/-- A foreign key from the columns given, with the names they have there. -/
def foreignKey (sources : List (Ident × Option ColumnId)) (clause : ForeignKeyClause) :
    Resolver Unit := do
  if let some table ← catalogTable? clause.table then
    if let some targets ← keyTargets? table clause then
      if targets.length ≠ sources.length then
        let words := s!"foreign key has {sources.length} column(s) but references"
        error s!"{words} {targets.length}" clause.table.span
      else
        (sources.zip targets).forM fun (source, target) => linkColumn source target

/-- The rule of a column, which exists by now. -/
def columnRule (name : Ident) (column : ColumnId) : ColumnRule → Resolver ColumnRule
  | .default value => do
    let value ← term value
    requireStorable value column
    return .default value
  | .check e => return .check (← condition "CHECK" e.span (term e))
  | .references clause => do
    foreignKey [(name, some column)] clause
    return .references clause
  | rule => return rule

/-- The rules of a column definition, unless the column could not be added. -/
def columnRules (d : ColumnDef) : Resolver ColumnDef := do
  match d.binding with
  | none => return d
  | some column =>
    let constraints ← d.constraints.mapM fun c => do
      return { c with rule := ← columnRule d.name column c.rule }
    return { d with constraints := constraints }

/-- Adds the columns of a table. Of two with one name the second is left out. -/
def defineColumns (table : TableId) (seen : List String) :
    List ColumnDef → Resolver (List ColumnDef)
  | [] => return []
  | d :: ds => do
    let key := Text.foldCase d.name.name
    if seen.contains key then
      error s!"duplicate column name {d.name.name}" d.name.span
      return d :: (← defineColumns table seen ds)
    else
      let (d, _) ← defineColumn table d
      return d :: (← defineColumns table (key :: seen) ds)

/-- Marks the columns of a primary key that is given for the whole table. -/
def markPrimaryKey (table : TableId) : TableRule → Resolver Unit
  | .primaryKey columns => columns.forM fun ident => do
    if let some column ← tableColumn? table ident then
      modifyCatalog fun c => c.modifyColumn column fun entry =>
        { entry with primaryKey := true, nullable := false }
  | _ => return

/-- A rule for a whole table, whose columns exist by now. -/
def tableRule (table : TableId) : TableRule → Resolver TableRule
  | .primaryKey columns => return .primaryKey columns
  | .unique columns => do
    columns.forM fun ident => do
      let _ ← tableColumn? table ident
    return .unique columns
  | .check e => return .check (← condition "CHECK" e.span (term e))
  | .foreignKey columns clause => do
    let sources ← columns.mapM fun ident => return (ident, ← tableColumn? table ident)
    foreignKey sources clause
    return .foreignKey columns clause

/-- A new table. All columns are added before any rule is looked at, so that
rules may refer to each of them and to the table itself. -/
def createTable (s : CreateTable) : Resolver CreateTable := do
  if !((← catalog).findTables s.name.name).isEmpty then
    if !s.ifNotExists then
      error s!"table {s.name.name} already exists" s.name.span
    return s
  else
    let table ← addTable s.name.name .created
    let columns ← defineColumns table [] s.columns
    s.constraints.forM fun c => markPrimaryKey table c.rule
    modify fun state => state.bindTable s.name.name table
    let columns ← columns.mapM columnRules
    let constraints ← s.constraints.mapM fun c => do
      return { c with rule := ← tableRule table c.rule }
    return { s with columns := columns, constraints := constraints, binding := some table }

def alterAction (table : TableId) : AlterAction → Resolver AlterAction
  | .addColumn d => do
    if !((← catalog).findColumns table d.name.name).isEmpty then
      error s!"duplicate column name {d.name.name}" d.name.span
      return .addColumn d
    else
      let (d, id) ← defineColumn table d
      modify fun s => s.bindColumn d.name.name id
      return .addColumn (← columnRules d)
  | .dropColumn ident => do
    if let some column ← tableColumn? table ident then
      modifyCatalog fun c => c.removeColumn column
    return .dropColumn ident
  | .renameColumn ident newName => do
    if let some column ← tableColumn? table ident then
      if !((← catalog).findColumns table newName.name).isEmpty then
        error s!"duplicate column name {newName.name}" newName.span
      else
        modifyCatalog fun c => c.renameColumn column newName.name
    return .renameColumn ident newName
  | .renameTo newName => do
    if !((← catalog).findTables newName.name).isEmpty then
      error s!"table {newName.name} already exists" newName.span
    else
      modifyCatalog fun c => c.renameTable table newName.name
    return .renameTo newName

def alterTable (s : AlterTable) : Resolver AlterTable := do
  match ← target? s.table with
  | none => return s
  | some table => return { s with binding := some table, action := ← alterAction table s.action }

def dropTable (s : DropTable) : Resolver DropTable := do
  if s.ifExists && ((← catalog).findTables s.table.name).isEmpty then
    return s
  else
    match ← catalogTable? s.table with
    | none => return s
    | some table =>
      modifyCatalog fun c => c.dropTable table
      return { s with binding := some table }

def statementBody : StatementBody → Resolver StatementBody
  | .select s => return .select (← query "result" s).1
  | .insert s => return .insert (← insert s)
  | .update s => return .update (← update s)
  | .delete s => return .delete (← delete s)
  | .createTable s => return .createTable (← createTable s)
  | .alterTable s => return .alterTable (← alterTable s)
  | .dropTable s => return .dropTable (← dropTable s)

/-- A statement in a scope of its own. -/
def statement (s : Statement) : Resolver Statement :=
  within s.span do
    return { s with body := ← statementBody s.body }

end Resolver

/-- What resolving statements gives. -/
structure Resolution where
  statements : List Statement
  /-- Everything complained about, in order and with nothing suppressed. -/
  raised : List Diagnostic
  /-- The scopes of the statements inside the one of the whole text. -/
  scopes : ScopeTree
  /-- The catalog after the last statement. -/
  catalog : Catalog
deriving Inhabited

namespace Resolution

/-- Resolves statements in order, all with one resolver. -/
def ofStatements (index : LineIndex) (catalog : Catalog) (statements : List Statement) :
    Resolution :=
  let (statements, after) :=
    (statements.mapM Resolver.statement).run (ResolverState.start index catalog)
  ⟨statements, after.diagnostics, after.root.toTree, after.catalog⟩

/-- The complaints that are left when near-duplicates are dropped. -/
def sink (r : Resolution) (window : Nat) : Sink :=
  Sink.ofList window r.raised

end Resolution

/-- An expression resolved outside of every statement, with the complaints. -/
def Expr.resolve (index : LineIndex) (catalog : Catalog) (e : Expr) : Expr × List Diagnostic :=
  let (e, after) := (Resolver.term e).run (ResolverState.start index catalog)
  (e, after.diagnostics)

end SqlAnalysis
