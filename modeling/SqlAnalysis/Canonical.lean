import SqlAnalysis.SqlType.Storage
import SqlAnalysis.Syntax.Render

/-!
# Canonical text of statements

A table definition is written with the rules of each column in a fixed order
and with the check that the column's type implies. Values to insert are written
for the columns they go into. Every other statement stays as it was written.
-/
namespace SqlAnalysis

/-- The place of a rule among the rules of its column. -/
def ColumnRule.rank : ColumnRule → Nat
  | .notNull | .null => 0
  | .default _ => 1
  | .primaryKey _ _ => 2
  | .unique => 3
  | .references _ => 4
  | .collate _ => 5
  | .check _ => 6

def ColumnRule.isCheck : ColumnRule → Bool
  | .check _ => true
  | _ => false

/-- The text of a value for a column whose type may be known: a literal is
written as the type wants it. -/
def Expr.canonical (e : Expr) (type : Option SqlType) : String :=
  match e.literal?, type with
  | some value, some t => t.formatValue value
  | _, _ => e.render

namespace ColumnDef

/-- The resolved type, or else the meaning of the written one. -/
def knownType? (d : ColumnDef) : Option SqlType :=
  d.type <|> d.typeName.bind fun t => (SqlType.ofParts t.name t.params).toOption

/-- The type of a column after its name. -/
def canonicalType (d : ColumnDef) : String :=
  match d.knownType?, d.typeName with
  | some t, _ => " " ++ t.render
  | none, some written => " " ++ written.render
  | none, none => ""

/-- A constraint, with a literal default as the type wants it. -/
def canonicalConstraint (type : Option SqlType) (c : ColumnConstraint) : String :=
  match c.rule, type with
  | .default value, some t =>
    match value.literal? with
    | some literal => renderConstraintName c.name ++ "DEFAULT " ++ t.formatValue literal
    | none => c.render
  | _, _ => c.render

/-- The rules of a column in their order. Those of one rank keep theirs. -/
def sortedConstraints (d : ColumnDef) : List ColumnConstraint :=
  d.constraints.mergeSort fun a b => decide (a.rule.rank ≤ b.rule.rank)

/-- Whether a check of the column has a given text. -/
def hasCheck (d : ColumnDef) (text : String) : Bool :=
  d.hasRule fun
    | .check e => e.render == text
    | _ => false

/-- The check that the type implies, unless it is there already. -/
def impliedCheck? (d : ColumnDef) : Option String :=
  (d.knownType?.bind fun t => t.constraint? d.name.render).filter fun text => !d.hasCheck text

/-- The column with its rules in order. The implied check comes before others. -/
def canonical (d : ColumnDef) : String :=
  let write := fun c => " " ++ canonicalConstraint d.knownType? c
  let (checks, rules) := d.sortedConstraints.partition fun c => c.rule.isCheck
  let implied := match d.impliedCheck? with
    | some text => " CHECK (" ++ text ++ ")"
    | none => ""
  d.name.render ++ d.canonicalType ++ String.join (rules.map write) ++ implied ++
    String.join (checks.map write)

end ColumnDef

/-- A table definition with one line for each column and each rule. -/
def CreateTable.canonical (s : CreateTable) : String :=
  let lines := s.columns.map ColumnDef.canonical ++ s.constraints.map TableConstraint.render
  "CREATE TABLE " ++ (if s.ifNotExists then "IF NOT EXISTS " else "") ++ s.name.render ++ " (" ++
    (if lines.isEmpty then "" else "\n  ") ++ Text.joinWith ",\n  " lines ++ "\n)"

/-- The values of a row for columns of the given types, as far as these go. -/
def ValueRow.canonical (types : List (Option SqlType)) (row : ValueRow) : String :=
  bracketList (row.values.zipIdx.map fun (value, i) => value.canonical types[i]?.join)

def Insert.canonical (s : Insert) (catalog : Option Catalog) : String :=
  let types := match catalog with
    | some c => s.targets.map fun id => (c.column id).type
    | none => []
  "INSERT INTO " ++ s.table.render ++ renderColumnList s.columns ++ " VALUES " ++
    commaList (s.rows.map (ValueRow.canonical types))

/-- The canonical text of a statement of a source. The catalog, if the statement
was resolved, knows the types of the columns to insert into. -/
def Statement.canonical (s : Statement) (source : String) (catalog : Option Catalog) : String :=
  match s.body with
  | .createTable body => body.canonical
  | .insert body => body.canonical catalog
  | _ => s.span.slice source

end SqlAnalysis
