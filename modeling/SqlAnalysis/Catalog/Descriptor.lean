import SqlAnalysis.Failure

/-!
# Schema descriptors

Tables as a database reports them, and their reading from JSON.
-/
namespace SqlAnalysis

structure ColumnDescriptor where
  name : String
  /-- The declared type as it was written. -/
  declaredType : String
  notNull : Bool
  defaultValue : Option String
  primaryKey : Bool
deriving DecidableEq, Inhabited

/-- The column `source` of the table refers to another table's column; without
a target column that table's primary key is meant. -/
structure ForeignKeyDescriptor where
  source : String
  table : String
  target : Option String
deriving DecidableEq, Inhabited

structure TableDescriptor where
  name : String
  createSql : Option String
  columns : List ColumnDescriptor
  foreignKeys : List ForeignKeyDescriptor
  rowCount : Option Nat
deriving DecidableEq, Inhabited

namespace ColumnDescriptor

def fields : List Field :=
  [{ name := "name" }, { name := "complete_type", aliases := ["type"] }, { name := "not_null" },
    { name := "default_value" }, { name := "primary_key" }]

def decode (json : Json) : Except DecodeError ColumnDescriptor := do
  match ← json.fields fields with
  | [name, declaredType, notNull, defaultValue, primaryKey] =>
    return {
      name := ← Json.required "name" Json.asText name
      declaredType := ← Json.optional "" Json.asText declaredType
      notNull := ← Json.optional false Json.asBool notNull
      defaultValue := ← Json.optional none (Json.asOption Json.asText) defaultValue
      primaryKey := ← Json.optional false Json.asBool primaryKey }
  | _ => throw (.expected "a column")

end ColumnDescriptor

namespace ForeignKeyDescriptor

def fields : List Field :=
  [{ name := "from" }, { name := "table" }, { name := "to" }]

def decode (json : Json) : Except DecodeError ForeignKeyDescriptor := do
  match ← json.fields fields with
  | [source, table, target] =>
    return {
      source := ← Json.required "from" Json.asText source
      table := ← Json.required "table" Json.asText table
      target := ← Json.optional none (Json.asOption Json.asText) target }
  | _ => throw (.expected "a foreign key")

end ForeignKeyDescriptor

namespace TableDescriptor

/-- The largest number of rows that can be reported. -/
def maxRowCount : Nat := 18446744073709551615

def fields : List Field :=
  [{ name := "name" }, { name := "create_sql" }, { name := "columns" },
    { name := "foreign_keys" }, { name := "row_count" }]

def decode (json : Json) : Except DecodeError TableDescriptor := do
  match ← json.fields fields with
  | [name, createSql, columns, foreignKeys, rowCount] =>
    return {
      name := ← Json.required "name" Json.asText name
      createSql := ← Json.optional none (Json.asOption Json.asText) createSql
      columns := ← Json.optional [] (Json.asList ColumnDescriptor.decode) columns
      foreignKeys := ← Json.optional [] (Json.asList ForeignKeyDescriptor.decode) foreignKeys
      rowCount := ← Json.optional none (Json.asOption (Json.asNat maxRowCount)) rowCount }
  | _ => throw (.expected "a table")

/-- Reads a whole schema: a JSON array of tables. -/
def loadSchema (source : String) : Except Failure (List TableDescriptor) :=
  (Json.decode source >>= Json.asList decode).mapError .schemaFormat

end TableDescriptor
end SqlAnalysis
