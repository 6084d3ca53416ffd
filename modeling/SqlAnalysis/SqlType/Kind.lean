import SqlAnalysis.Text.Blank
import SqlAnalysis.Text.Case
import SqlAnalysis.Text.Split

/-!
# Kinds of types

The base types with their names, their parameters and the conversions between
them. Conversion is directed and not transitive.
-/
namespace SqlAnalysis

/-- The base types. -/
inductive TypeKind where
  | integer | real | numeric | decimal
  | varchar | char | text
  | boolean
  | date | datetime
  | blob
deriving DecidableEq, Inhabited

namespace TypeKind

def all : List TypeKind :=
  [.integer, .real, .numeric, .decimal, .varchar, .char, .text, .boolean, .date, .datetime,
    .blob]

/-- The canonical name. -/
def name : TypeKind → String
  | .integer => "integer"
  | .real => "real"
  | .numeric => "numeric"
  | .decimal => "decimal"
  | .varchar => "varchar"
  | .char => "char"
  | .text => "text"
  | .boolean => "boolean"
  | .date => "date"
  | .datetime => "datetime"
  | .blob => "blob"

/-- Other names that are understood. -/
def aliases : TypeKind → List String
  | .integer =>
    ["int", "bigint", "smallint", "tinyint", "mediumint", "int2", "int8", "unsigned big int"]
  | .real => ["float", "double", "double precision"]
  | .numeric => ["number"]
  | .decimal => ["dec"]
  | .varchar => ["character varying", "varying character", "nvarchar"]
  | .char => ["character", "nchar", "native character"]
  | .text => ["clob", "string"]
  | .boolean => ["bool"]
  | .date => []
  | .datetime => ["timestamp"]
  | .blob => []

/-- A type name in small letters with one blank between its words. -/
def canonicalName (name : String) : String :=
  Text.joinWith " " ((Text.words name).map Text.foldCase)

/-- The kind that a name or alias stands for, in any case and spacing. -/
def ofName? (name : String) : Option TypeKind :=
  let canonical := canonicalName name
  all.find? fun kind => canonical == kind.name || kind.aliases.contains canonical

/-- What the parameters of a type mean, one entry for each it takes. -/
def parameters : TypeKind → List String
  | .decimal => ["precision", "scale"]
  | .varchar => ["maximum length"]
  | .char => ["length"]
  | _ => []

/-- The kinds that a value may be stored as. -/
def castTargets : TypeKind → List TypeKind
  | .integer => [.integer, .real, .numeric, .decimal, .boolean, .varchar, .char, .text]
  | .real => [.real, .numeric, .decimal, .varchar, .text]
  | .numeric => [.numeric, .real, .decimal, .integer, .varchar, .text]
  | .decimal => [.decimal, .numeric, .real, .varchar, .text]
  | .varchar => [.varchar, .char, .text, .date, .datetime]
  | .char => [.char, .varchar, .text]
  | .text => [.text, .varchar, .char, .date, .datetime, .blob]
  | .boolean => [.boolean, .integer]
  | .date => [.date, .datetime, .varchar, .text]
  | .datetime => [.datetime, .date, .varchar, .text]
  | .blob => [.blob]

def canCastTo (source target : TypeKind) : Bool :=
  source.castTargets.contains target

@[simp] theorem canCastTo_self (kind : TypeKind) : kind.canCastTo kind = true := by
  cases kind <;> rfl

def isNumber : TypeKind → Bool
  | .integer | .real | .numeric | .decimal => true
  | _ => false

def isText : TypeKind → Bool
  | .varchar | .char | .text => true
  | _ => false

def isTemporal : TypeKind → Bool
  | .date | .datetime => true
  | _ => false

/-- The kind with its parameters, for a reader who debugs a table of types. -/
def describe (kind : TypeKind) : String :=
  let quoted := kind.parameters.map fun p => "\"" ++ p ++ "\""
  let listed := Text.joinWith ", " quoted
  "BaseType \x7b name: \"" ++ kind.name ++ "\", params: [" ++ listed ++ "], .. \x7d"

end TypeKind
end SqlAnalysis
