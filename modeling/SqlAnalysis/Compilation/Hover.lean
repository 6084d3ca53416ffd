import SqlAnalysis.Syntax.Statement

/-!
# Names under the cursor

The places of a resolved statement that stand for a table or a column, and what
to show for each. Of the places around an offset the shortest one counts.
-/
namespace SqlAnalysis

/-- A place of the source that stands for something. -/
abbrev Target := Span × Binding

namespace Target

def ofBinding (span : Span) (binding : Option Binding) : List Target :=
  binding.toList.map fun b => (span, b)

def ofTable (span : Span) (id : Option TableId) : List Target :=
  ofBinding span (id.map .table)

def ofColumn (span : Span) (id : Option ColumnId) : List Target :=
  ofBinding span (id.map .column)

mutual

/-- The targets in an expression, queries inside it included. -/
def ofExpr : Expr → List Target
  | .constant note _ | .name note _ | .callStar note _ _ => ofBinding note.span note.binding
  | .dot note left _ => ofBinding note.span note.binding ++ ofExpr left
  | .binary note left _ right => ofBinding note.span note.binding ++ ofExpr left ++ ofExpr right
  | .unary note _ operand => ofBinding note.span note.binding ++ ofExpr operand
  | .call note _ args => ofBinding note.span note.binding ++ ofExprs args
  | .brackets note inner => ofBinding note.span note.binding ++ ofExpr inner
  | .list note items => ofBinding note.span note.binding ++ ofExprs items
  | .subquery note select => ofBinding note.span note.binding ++ ofSelect select

def ofExprs : List Expr → List Target
  | [] => []
  | e :: es => ofExpr e ++ ofExprs es

def ofColumns : List ResultColumn → List Target
  | [] => []
  | .expr value _ :: columns => ofExpr value ++ ofColumns columns
  | _ :: columns => ofColumns columns

def ofSource : Source → List Target
  | .table name none binding => ofTable name.span binding
  | .table name (some label) binding => ofTable name.span binding ++ ofTable label.span binding
  | .subquery select _ _ => ofSelect select

def ofJoins : List Join → List Target
  | [] => []
  | ⟨_, _, source, none, _⟩ :: joins => ofSource source ++ ofJoins joins
  | ⟨_, _, source, some on, _⟩ :: joins => ofSource source ++ ofExpr on ++ ofJoins joins

def ofTerms : List OrderingTerm → List Target
  | [] => []
  | ⟨expr, _, _⟩ :: terms => ofExpr expr ++ ofTerms terms

/-- The targets in a query, the columns of its result first. -/
def ofSelect : Select → List Target
  | ⟨_, columns, source, condition, groupBy, orderBy, limit, _, _⟩ =>
    ofColumns columns ++
    (match source with
      | some ⟨first, joins⟩ => ofSource first ++ ofJoins joins
      | none => []) ++
    (match condition with
      | some e => ofExpr e
      | none => []) ++
    (match groupBy with
      | some ⟨exprs, some having, _⟩ => ofExprs exprs ++ ofExpr having
      | some ⟨exprs, none, _⟩ => ofExprs exprs
      | none => []) ++
    (match orderBy with
      | some ⟨terms, _⟩ => ofTerms terms
      | none => []) ++
    (match limit with
      | some ⟨count, some offset, _⟩ => ofExpr count ++ ofExpr offset
      | some ⟨count, none, _⟩ => ofExpr count
      | none => [])

end

def ofOption (e : Option Expr) : List Target :=
  ofExprs e.toList

/-- The targets in a column definition. Foreign keys have none. -/
def ofColumnDef (d : ColumnDef) : List Target :=
  ofColumn d.name.span d.binding ++ d.constraints.flatMap fun c =>
    match c.rule with
    | .default e | .check e => ofExpr e
    | _ => []

/-- The targets in an insertion. The listed columns count only if each of them
is known. -/
def ofInsert (s : Insert) : List Target :=
  let listed :=
    if s.columns.length = s.targets.length then
      (s.columns.zip s.targets).map fun (ident, id) => (ident.span, Binding.column id)
    else []
  ofTable s.table.span s.binding ++ listed ++ s.rows.flatMap fun row => ofExprs row.values

def ofStatement (s : Statement) : List Target :=
  match s.body with
  | .select s => ofSelect s
  | .insert s => ofInsert s
  | .update s =>
    ofTable s.table.span s.binding ++
      (s.assignments.flatMap fun a => ofColumn a.column.span a.binding ++ ofExpr a.value) ++
      ofOption s.condition
  | .delete s => ofTable s.table.span s.binding ++ ofOption s.condition
  | .createTable s =>
    ofTable s.name.span s.binding ++ s.columns.flatMap ofColumnDef ++
      s.constraints.flatMap fun c =>
        match c.rule with
        | .check e => ofExpr e
        | _ => []
  | .alterTable s =>
    ofTable s.table.span s.binding ++
      match s.action with
      | .addColumn d => ofColumnDef d
      | _ => []
  | .dropTable s => ofTable s.table.span s.binding

/-- The shortest of some targets, the first one of equals. -/
def shortest? (targets : List Target) : Option Target :=
  targets.foldl (fun best t =>
    match best with
    | some b => if t.1.length < b.1.length then some t else some b
    | none => some t) none

/-- What stands at an offset of a statement. The end of a name counts as part of
it. -/
def bindingAt? (s : Statement) (offset : Nat) : Option Binding :=
  let around := (ofStatement s).filter fun t => t.1.start ≤ offset && offset ≤ t.1.stop
  (shortest? around).map Prod.snd

end Target

/-- What to show for a table. -/
def Table.hover (t : Table) : String :=
  let rows := match t.rowCount with
    | some n => s!", ~{n} rows"
    | none => ""
  s!"table {t.name} ({t.columns.length} columns){rows}"

/-- What to show for a column of a table. -/
def Column.hover (c : Column) (table : Table) : String :=
  let type := match c.type with
    | some t => t.render
    | none => "unknown type"
  let rule := if c.primaryKey then " PRIMARY KEY" else if c.notNull then " NOT NULL" else ""
  s!"column {table.name}.{c.name}: {type}{rule}"

/-- What to show for a table or column of a catalog. -/
def Catalog.hover (c : Catalog) : Binding → String
  | .table id => (c.table id).hover
  | .column id => (c.column id).hover (c.table (c.column id).table)

end SqlAnalysis
