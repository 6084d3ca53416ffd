import SqlAnalysis.SqlType.Kind
import SqlAnalysis.Text.Number

/-!
# Types

A type is a kind with the parameters it was given, such as the length of
`varchar(40)`. A kind that takes no parameters drops any that are written.
-/
namespace SqlAnalysis

/-- The resolved type of a column or an expression. -/
structure SqlType where
  kind : TypeKind
  params : List Nat
deriving DecidableEq, Inhabited

/-- Why a written type has no meaning. -/
inductive TypeError where
  /-- The text is not a name with numbers in brackets after it, or has too many. -/
  | malformed (raw : String)
  /-- No type has the name. -/
  | unknown (name : String)
deriving DecidableEq, Inhabited

def TypeError.message : TypeError → String
  | .malformed raw => "malformed column type '" ++ raw ++ "'"
  | .unknown name => "unknown column type '" ++ name ++ "'"

namespace SqlType

/-- A kind without parameters. -/
def plain (kind : TypeKind) : SqlType := ⟨kind, []⟩

/-- A name with its parameters in brackets. -/
def renderParts (name : String) : List Nat → String
  | [] => name
  | params => name ++ "(" ++ Text.joinWith "," (params.map toString) ++ ")"

def render (t : SqlType) : String :=
  renderParts t.kind.name t.params

/-- The type with a given name and parameters. -/
def ofParts (name : String) (params : List Nat) : Except TypeError SqlType :=
  match TypeKind.ofName? name with
  | none => .error (.unknown (Text.trim name))
  | some kind =>
    let accepted := kind.parameters.length
    if accepted = 0 then .ok (plain kind)
    else if accepted < params.length then .error (.malformed (renderParts kind.name params))
    else .ok ⟨kind, params⟩

/-- The numbers between the brackets of a written type. The text begins after
the opening bracket. -/
def readParams? (cs : List Char) : Option (List Nat) :=
  match cs.reverse with
  | ')' :: inner => (Text.split ',' inner.reverse).mapM fun part => Text.word? (Text.trimChars part)
  | _ => none

/-- Reads a type such as `varchar(40)` or `DECIMAL(10, 2)`. -/
def parse (raw : String) : Except TypeError SqlType :=
  let cs := Text.trimChars raw.toList
  let (name, params) := match Text.splitFirst? '(' cs with
    | some (name, rest) => (name, readParams? rest)
    | none => (cs, some [])
  match Text.trimChars name, params with
  | [], _ => .error (.malformed raw)
  | _, none => .error (.malformed raw)
  | _, some params => ofParts (String.ofList name) params

/-- Whether a value may be stored as another type. Parameters do not matter. -/
def canCastTo (source target : SqlType) : Bool :=
  source.kind.canCastTo target.kind

end SqlType
end SqlAnalysis
