import SqlAnalysis.Binary64.Notation
import SqlAnalysis.Text.Split

/-!
# Literals

Constant values as they are written in a query. The constructor records the
lexical kind, so a quoted text of one character is kept apart from the others.
-/
namespace SqlAnalysis

/-- A constant. -/
inductive Literal where
  | integer (value : Int)
  | float (value : Binary64)
  | boolean (value : Bool)
  /-- A quoted text that does not have exactly one character. -/
  | string (value : String)
  /-- A quoted text of one character. -/
  | character (value : Char)
  | null
deriving DecidableEq, Inhabited

namespace Literal

/-- The text as a quoted literal, with quotes inside it doubled. -/
def quote (s : String) : String :=
  "'" ++ String.ofList (Text.double '\x27' s.toList) ++ "'"

/-- The literal of a quoted text. -/
def ofText (s : String) : Literal :=
  match s.toList with
  | [c] => .character c
  | _ => .string s

/-- The content of a quoted text. -/
def text? : Literal → Option String
  | .string s => some s
  | .character c => some c.toString
  | _ => none

/-- The literal as it is written in a query. -/
def render : Literal → String
  | .integer i => toString i
  | .float x => x.render
  | .boolean true => "TRUE"
  | .boolean false => "FALSE"
  | .string s => quote s
  | .character c => quote c.toString
  | .null => "NULL"

theorem text?_ofText (s : String) : (ofText s).text? = some s := by
  unfold ofText
  split
  · rename_i c h
    have hs : s = c.toString := by
      rw [← String.ofList_toList (s := s), h]
      rfl
    simp [text?, hs]
  · rfl

end Literal
end SqlAnalysis
