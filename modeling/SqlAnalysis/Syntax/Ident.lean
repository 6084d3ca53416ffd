import SqlAnalysis.Source.Span
import SqlAnalysis.Text.Case
import SqlAnalysis.Text.Split

/-!
# Identifiers

A name as it stands in a source, without the quotes it may have had there.
-/
namespace SqlAnalysis

structure Ident where
  name : String
  /-- It was written between quotes or brackets. -/
  quoted : Bool
  span : Span
deriving DecidableEq, Inhabited

namespace Ident

/-- Whether the identifier spells a name, up to case. -/
def isNamed (ident : Ident) (name : String) : Bool :=
  Text.sameName ident.name name

/-- Characters that a name without quotes may hold. -/
def isPlainChar (c : Char) : Bool :=
  Text.isLetter c || Text.isDigit c || c = '_'

/-- Whether a name can be read back only between quotes. -/
def needsQuotes (name : String) : Bool :=
  match name.toList with
  | [] => true
  | c :: cs => !(Text.isLetter c || c = '_') || cs.any fun d => !isPlainChar d

/-- A name between double quotes, those inside it doubled. -/
def quote (name : String) : String :=
  "\"" ++ String.ofList (Text.double '\x22' name.toList) ++ "\""

/-- The identifier as it is written in a query. -/
def render (ident : Ident) : String :=
  if ident.quoted || needsQuotes ident.name then quote ident.name else ident.name

end Ident
end SqlAnalysis
