import SqlAnalysis.Catalog.Descriptor

/-!
# Catalogs

A catalog owns every table and column that names can stand for. Tables and
columns are never taken out, so the number of one identifies it for good;
dropping a table only makes its name forget it. The numbers have no bound here; they fit
into 32 bits as long as there are no more than 2 ^ 32 tables and as many columns.
-/
namespace SqlAnalysis

/-- The number of a table in its catalog. -/
structure TableId where
  index : Nat
deriving DecidableEq, Inhabited

/-- The number of a column in its catalog. -/
structure ColumnId where
  index : Nat
deriving DecidableEq, Inhabited

/-- Where the description of a column stands in a list of table descriptors. -/
structure DescriptorRef where
  table : Nat
  column : Nat
deriving DecidableEq, Inhabited

/-- How a table came to be. -/
inductive TableOrigin where
  /-- It is described by the schema. -/
  | schema
  /-- A statement of the source creates it. -/
  | created
  /-- It is the result of a query, which has no name of its own. -/
  | derived
deriving DecidableEq, Inhabited

structure Table where
  name : String
  columns : List ColumnId
  rowCount : Option Nat
  origin : TableOrigin
  dropped : Bool
deriving DecidableEq, Inhabited

structure Column where
  name : String
  /-- Nothing if the declared type is unknown or none could be inferred. -/
  type : Option SqlType
  table : TableId
  primaryKey : Bool
  nullable : Bool
  notNull : Bool
  defaultValue : Option String
  references : Option ColumnId
  descriptor : Option DescriptorRef
deriving DecidableEq, Inhabited

/-- A column without constraints. -/
def Column.plain (name : String) (type : Option SqlType) (table : TableId) : Column where
  name := name
  type := type
  table := table
  primaryKey := false
  nullable := true
  notNull := false
  defaultValue := none
  references := none
  descriptor := none

/-- All tables and columns, with the names under which tables can be found. -/
structure Catalog where
  tables : List Table
  columns : List Column
  /-- Folded names of the tables that can be found, in the order in which they
  took these names. -/
  named : List (String × TableId)
deriving Inhabited

namespace Catalog

def empty : Catalog := ⟨[], [], []⟩

def table? (c : Catalog) (id : TableId) : Option Table :=
  c.tables[id.index]?

def column? (c : Catalog) (id : ColumnId) : Option Column :=
  c.columns[id.index]?

/-- The table with an identifier; identifiers handed out by the catalog have one. -/
def table (c : Catalog) (id : TableId) : Table :=
  (c.table? id).getD default

/-- The column with an identifier; identifiers handed out by the catalog have one. -/
def column (c : Catalog) (id : ColumnId) : Column :=
  (c.column? id).getD default

def modifyTable (c : Catalog) (id : TableId) (f : Table → Table) : Catalog :=
  { c with tables := c.tables.modify id.index f }

def modifyColumn (c : Catalog) (id : ColumnId) (f : Column → Column) : Catalog :=
  { c with columns := c.columns.modify id.index f }

/-- Adds a table without columns. Results of queries cannot be found by name. -/
def addTable (c : Catalog) (name : String) (origin : TableOrigin) : TableId × Catalog :=
  let id : TableId := ⟨c.tables.length⟩
  let table : Table := ⟨name, [], none, origin, false⟩
  let named := if origin = .derived then c.named else c.named ++ [(Text.foldCase name, id)]
  (id, { c with tables := c.tables ++ [table], named := named })

/-- Puts a column at the end of a table. -/
def addColumn (c : Catalog) (table : TableId) (column : Column) : ColumnId × Catalog :=
  let id : ColumnId := ⟨c.columns.length⟩
  let c := { c with columns := c.columns ++ [{ column with table := table }] }
  (id, c.modifyTable table fun t => { t with columns := t.columns ++ [id] })

/-- Puts copies of a table's columns at the end of another table. -/
def copyColumns (c : Catalog) (source target : TableId) : Catalog :=
  (c.table source).columns.foldl (fun copied id =>
    let column := c.column id
    let copy := Column.plain column.name column.type target
    (copied.addColumn target { copy with primaryKey := column.primaryKey }).2) c

/-- The tables with a name. More than one makes the name ambiguous. -/
def findTables (c : Catalog) (name : String) : List TableId :=
  (c.named.filter fun entry => entry.1 == Text.foldCase name).map Prod.snd

/-- The columns of a table with a name. -/
def findColumns (c : Catalog) (table : TableId) (name : String) : List ColumnId :=
  (c.table table).columns.filter fun id => Text.sameName (c.column id).name name

/-- The column of a table with a name, if there is exactly one. -/
def singleColumn? (c : Catalog) (table : TableId) (name : String) : Option ColumnId :=
  match c.findColumns table name with
  | [only] => some only
  | _ => none

/-- The first column of the primary key. -/
def primaryKey? (c : Catalog) (table : TableId) : Option ColumnId :=
  (c.table table).columns.find? fun id => (c.column id).primaryKey

/-- The names of all tables that have one, in order. -/
def tableNames (c : Catalog) : List String :=
  let live := c.tables.filter fun t => !t.dropped && t.origin ≠ .derived
  (live.map Table.name).mergeSort fun a b => decide (a ≤ b)

/-- Takes a table's name away. -/
def dropTable (c : Catalog) (id : TableId) : Catalog :=
  let key := Text.foldCase (c.table id).name
  let named := c.named.filter fun entry => !(entry.1 == key && entry.2 == id)
  { c with named := named }.modifyTable id fun t => { t with dropped := true }

/-- Gives a table another name. -/
def renameTable (c : Catalog) (id : TableId) (name : String) : Catalog :=
  let c := c.dropTable id
  let c := c.modifyTable id fun t => { t with name := name, dropped := false }
  { c with named := c.named ++ [(Text.foldCase name, id)] }

/-- Takes a column out of its table. -/
def removeColumn (c : Catalog) (id : ColumnId) : Catalog :=
  c.modifyTable (c.column id).table fun t =>
    { t with columns := t.columns.filter fun other => other ≠ id }

def renameColumn (c : Catalog) (id : ColumnId) (name : String) : Catalog :=
  c.modifyColumn id fun column => { column with name := name }

/-- Adds the column described at a place of the schema. -/
def addDescribedColumn (c : Catalog) (table : TableId) (place : DescriptorRef)
    (d : ColumnDescriptor) : Catalog :=
  let column : Column :=
    { Column.plain d.name (SqlType.parse d.declaredType).toOption table with
      primaryKey := d.primaryKey
      notNull := d.notNull
      nullable := !d.notNull && !d.primaryKey
      defaultValue := d.defaultValue
      descriptor := some place }
  (c.addColumn table column).2

/-- Adds a described table with its columns. -/
def addDescribedTable (c : Catalog) (number : Nat) (d : TableDescriptor) : Catalog :=
  let (id, c) := c.addTable d.name .schema
  let c := c.modifyTable id fun t => { t with rowCount := d.rowCount }
  d.columns.zipIdx.foldl
    (fun c (column, i) => c.addDescribedColumn id ⟨number, i⟩ column) c

/-- The column that a foreign key refers to. -/
def keyTarget? (c : Catalog) (key : ForeignKeyDescriptor) : Option ColumnId := do
  let target ← (c.findTables key.table).head?
  match key.target with
  | some name => c.singleColumn? target name
  | none => c.primaryKey? target

/-- Links a foreign key of a table, if both of its ends exist. -/
def linkKey (c : Catalog) (table : TableId) (key : ForeignKeyDescriptor) : Catalog :=
  match c.singleColumn? table key.source, c.keyTarget? key with
  | some source, some target =>
    c.modifyColumn source fun column => { column with references := some target }
  | _, _ => c

/-- The catalog of a schema. All tables come before all foreign keys, so a key
may refer to a table that is described after its own. -/
def ofDescriptors (descriptors : List TableDescriptor) : Catalog :=
  let numbered := descriptors.zipIdx
  let c := numbered.foldl (fun c (d, i) => c.addDescribedTable i d) empty
  numbered.foldl (fun c (d, i) => d.foreignKeys.foldl (fun c key => c.linkKey ⟨i⟩ key) c) c

end Catalog
end SqlAnalysis
