import SqlAnalysis.Calendar
import SqlAnalysis.Literal
import SqlAnalysis.SqlType.Basic

/-!
# Values in columns

The type of a literal, the text under which a value is stored in a column of a
type, and the check that such a column implies.
-/
namespace SqlAnalysis

/-- The type that a literal has by itself; the null value has none. -/
def Literal.sqlType? : Literal → Option SqlType
  | .integer _ => some (SqlType.plain .integer)
  | .float _ => some (SqlType.plain .real)
  | .boolean _ => some (SqlType.plain .boolean)
  | .string s => some ⟨.varchar, [min s.toList.length Text.maxWord]⟩
  | .character _ => some ⟨.char, [1]⟩
  | .null => none

namespace TypeKind

/-- The check implied by a column with the given name and parameters. -/
def constraint? (kind : TypeKind) (column : String) (params : List Nat) : Option String :=
  match kind with
  | .varchar | .char => params.head?.map fun n => s!"length({column}) <= {n}"
  | .boolean => some s!"{column} IN (0, 1)"
  | .date => some s!"{column} = date({column})"
  | .datetime => some s!"{column} = datetime({column})"
  | _ => none

/-- A value for a column that is no text: truth values are numbers there. -/
def formatPlain : Literal → String
  | .boolean b => if b then "1" else "0"
  | value => value.render

/-- A value for a text column: numbers are quoted there. -/
def formatText : Literal → String
  | .integer i => Literal.quote (toString i)
  | .float x => Literal.quote x.render
  | value => formatPlain value

/-- A text that has a normal form in this form; another value as a text. -/
def formatNormal (normalize? : String → Option String) (value : Literal) : String :=
  match value.text?.bind normalize? with
  | some normal => Literal.quote normal
  | none => formatText value

/-- The text of a value in a column. Dates are brought to their normal form. -/
def formatValue (kind : TypeKind) (value : Literal) : String :=
  match kind with
  | .varchar | .char | .text => formatText value
  | .date => formatNormal Date.normalize? value
  | .datetime => formatNormal Moment.normalize? value
  | _ => formatPlain value

/-- The form in which a text for a column of the kind has to be written. -/
def textForm? : TypeKind → Option String
  | .date => some Date.form
  | .datetime => some Moment.form
  | _ => none

/-- Whether a text has the form for a column of the kind. -/
def admitsText (kind : TypeKind) (s : String) : Bool :=
  match kind with
  | .date => (Date.ofText? s).isSome
  | .datetime => (Moment.ofText? s).isSome
  | _ => true

end TypeKind

namespace SqlType

def constraint? (t : SqlType) (column : String) : Option String :=
  t.kind.constraint? column t.params

def formatValue (t : SqlType) (value : Literal) : String :=
  t.kind.formatValue value

end SqlType
end SqlAnalysis
