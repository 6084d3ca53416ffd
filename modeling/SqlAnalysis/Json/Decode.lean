import SqlAnalysis.Json.Basic
import SqlAnalysis.Text.Number

/-!
# Decoding JSON into records

A record is given as an object, whose unknown members are passed over, or as an
array with the fields in their order, of which later ones may be left out.
-/
namespace SqlAnalysis

/-- Why a JSON text does not describe what it should. -/
inductive DecodeError where
  | notJson
  | expected (what : String)
  | missing (field : String)
  | repeated (field : String)
  | tooManyFields
deriving DecidableEq, Inhabited

def DecodeError.message : DecodeError → String
  | .notJson => "not a JSON text"
  | .expected what => s!"expected {what}"
  | .missing field => s!"missing field {field}"
  | .repeated field => s!"repeated field {field}"
  | .tooManyFields => "more values than fields"

/-- A field of a record, with the other names it goes by. -/
structure Field where
  name : String
  aliases : List String := []

namespace Field

def answersTo (field : Field) (key : Option String) : Bool :=
  key == some field.name || field.aliases.any fun other => key == some other

/-- The one member that gives a field its value. -/
def lookup (field : Field) (members : List (Option String × Json)) :
    Except DecodeError (Option Json) :=
  match members.filter fun member => field.answersTo member.1 with
  | [] => .ok none
  | [member] => .ok (some member.2)
  | _ => .error (.repeated field.name)

end Field

namespace Json

def decode (source : String) : Except DecodeError Json :=
  match parse? source with
  | some value => .ok value
  | none => .error .notJson

/-- The values given to the fields of a record, in the order of the fields. -/
def fields (expected : List Field) : Json → Except DecodeError (List (Option Json))
  | .object members =>
    if members.any fun member => member.1.isNone then .error (.expected "a text as key")
    else expected.mapM fun field => field.lookup members
  | .array items =>
    if expected.length < items.length then .error .tooManyFields
    else .ok (items.map some ++ List.replicate (expected.length - items.length) none)
  | _ => .error (.expected "a record")

def asText : Json → Except DecodeError String
  | .string (some s) => .ok s
  | _ => .error (.expected "a text")

def asBool : Json → Except DecodeError Bool
  | .bool b => .ok b
  | _ => .error (.expected "a truth value")

/-- A natural number, written without sign, point and exponent, up to a bound. -/
def asNat (bound : Nat) : Json → Except DecodeError Nat
  | .number written =>
    match (Text.natural? written.toList).filter (· ≤ bound) with
    | some n => .ok n
    | none => .error (.expected s!"an integer up to {bound}")
  | _ => .error (.expected "an integer")

def asList (item : Json → Except DecodeError α) : Json → Except DecodeError (List α)
  | .array items => items.mapM item
  | _ => .error (.expected "an array")

/-- A value or the null value. -/
def asOption (item : Json → Except DecodeError α) : Json → Except DecodeError (Option α)
  | .null => .ok none
  | value => (item value).map some

/-- The value of a field that must be given. -/
def required (name : String) (item : Json → Except DecodeError α) :
    Option Json → Except DecodeError α
  | some value => item value
  | none => .error (.missing name)

/-- The value of a field that may be left out. -/
def optional (default : α) (item : Json → Except DecodeError α) :
    Option Json → Except DecodeError α
  | some value => item value
  | none => .ok default

end Json
end SqlAnalysis
