import SqlAnalysis.Json.Basic
import SqlAnalysis.Text.Split

/-!
# Writing JSON

The compact form stays on one line whatever a reader takes for the end of a
line. The indented form has two blanks for each level and one member a line.
-/
namespace SqlAnalysis.Json

def hexDigit (n : Nat) : Char :=
  (Nat.toDigits 16 n).headD '0'

/-- A character by its number in four hexadecimal digits. -/
def unicodeEscape (c : Char) : List Char :=
  let n := c.toNat
  '\x5c' :: 'u' :: [n / 4096 % 16, n / 256 % 16, n / 16 % 16, n % 16].map hexDigit

/-- The characters that other readers end a line at. -/
def isLineSeparator (c : Char) : Bool :=
  c.toNat = 0x85 || c.toNat = 0x2028 || c.toNat = 0x2029

/-- A character inside a written string. -/
def escapeChar (escapeAlso : Char → Bool) (c : Char) : List Char :=
  match c with
  | '\x22' => ['\x5c', '\x22']
  | '\x5c' => ['\x5c', '\x5c']
  | '\n' => ['\x5c', 'n']
  | '\r' => ['\x5c', 'r']
  | '\t' => ['\x5c', 't']
  | '\x08' => ['\x5c', 'b']
  | '\x0c' => ['\x5c', 'f']
  | c => if c.toNat < 0x20 || escapeAlso c then unicodeEscape c else [c]

/-- A string with its quotes. -/
def quoteWith (escapeAlso : Char → Bool) (s : String) : String :=
  "\"" ++ String.ofList (s.toList.flatMap (escapeChar escapeAlso)) ++ "\""

mutual

/-- The value on one line. -/
def compact : Json → String
  | .null => "null"
  | .bool b => if b then "true" else "false"
  | .number written => written
  | .string s => quoteWith isLineSeparator (s.getD "")
  | .array items => "[" ++ Text.joinWith "," (compactItems items) ++ "]"
  | .object members => "\x7b" ++ Text.joinWith "," (compactMembers members) ++ "\x7d"

def compactItems : List Json → List String
  | [] => []
  | item :: items => compact item :: compactItems items

def compactMembers : List (Option String × Json) → List String
  | [] => []
  | (key, value) :: members =>
    (quoteWith isLineSeparator (key.getD "") ++ ":" ++ compact value) :: compactMembers members

end

/-- Lines of an array or object between its brackets. -/
def block (depth : Nat) (opening closing : String) (entries : List String) : String :=
  let indent := fun n => String.ofList (List.replicate (2 * n) ' ')
  match entries with
  | [] => opening ++ closing
  | entries =>
    let lines := entries.map fun entry => indent (depth + 1) ++ entry
    opening ++ "\n" ++ Text.joinWith ",\n" lines ++ "\n" ++ indent depth ++ closing

mutual

/-- The value in indented form, itself at the given level. -/
def prettyAt (depth : Nat) : Json → String
  | .null => "null"
  | .bool b => if b then "true" else "false"
  | .number written => written
  | .string s => quoteWith (fun _ => false) (s.getD "")
  | .array items => block depth "[" "]" (prettyItems (depth + 1) items)
  | .object members => block depth "\x7b" "\x7d" (prettyMembers (depth + 1) members)

def prettyItems (depth : Nat) : List Json → List String
  | [] => []
  | item :: items => prettyAt depth item :: prettyItems depth items

def prettyMembers (depth : Nat) : List (Option String × Json) → List String
  | [] => []
  | (key, value) :: members =>
    (quoteWith (fun _ => false) (key.getD "") ++ ": " ++ prettyAt depth value) ::
      prettyMembers depth members

end

/-- The value in indented form. -/
def pretty (value : Json) : String :=
  prettyAt 0 value

end SqlAnalysis.Json
