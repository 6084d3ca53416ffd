import SqlAnalysis.Compilation.Basic
import SqlAnalysis.Json.Write

/-!
# Command line

Two commands work on a file: `check` reports its diagnostics, `clean` prints the
canonical text of its statements. Running a command is a function of the
arguments and of the files; reading and printing happen outside.
-/
namespace SqlAnalysis

namespace CommandLine

inductive Command where
  | check
  | clean
deriving DecidableEq, Inhabited

/-- What the arguments ask for. -/
structure Arguments where
  command : Option Command := none
  path : Option String := none
  schemaPath : Option String := none
  json : Bool := false
  options : CompileOptions := {}
  showHelp : Bool := false
deriving DecidableEq, Inhabited

/-- Why arguments have no meaning. -/
inductive ArgumentError where
  | repeatedSchema
  | missingSchemaPath
  | missingWindow
  | badInteger (flag value : String)
  | unknownOption (text : String)
  | unknownCommand (text : String)
  | tooManyFiles
  | missingCommand
  | missingFile
  | jsonWithoutCheck
deriving DecidableEq, Inhabited

def ArgumentError.message : ArgumentError → String
  | .repeatedSchema => "`--schema` may only be provided once"
  | .missingSchemaPath => "missing JSON file path for `--schema`"
  | .missingWindow => "missing integer argument for `--dedup-window`"
  | .badInteger flag value => "invalid integer for `" ++ flag ++ "`: `" ++ value ++ "`"
  | .unknownOption text => "unknown option `" ++ text ++ "`"
  | .unknownCommand text => "unknown command `" ++ text ++ "`"
  | .tooManyFiles => "too many positional arguments; expected one SQL file"
  | .missingCommand => "missing command; expected `check` or `clean`"
  | .missingFile => "missing SQL file argument"
  | .jsonWithoutCheck => "`--json` only applies to `check`"

/-- What is left of a text after its beginning. -/
def after? (beginning text : String) : Option String :=
  (beginning.toList.isPrefixOf? text.toList).map String.ofList

def setSchema (a : Arguments) (path : String) : Except ArgumentError Arguments :=
  if a.schemaPath.isSome then .error .repeatedSchema
  else .ok { a with schemaPath := some path }

def setWindow (a : Arguments) (value : String) : Except ArgumentError Arguments :=
  match Text.word? value.toList with
  | some n => .ok { a with options := { a.options with dedupWindow := n } }
  | none => .error (.badInteger "--dedup-window" value)

/-- An argument that is no option: first the command, then the file. -/
def setPositional (a : Arguments) (text : String) : Except ArgumentError Arguments :=
  if a.command.isNone then
    match text with
    | "check" => .ok { a with command := some .check }
    | "clean" => .ok { a with command := some .clean }
    | other => .error (.unknownCommand other)
  else if a.path.isSome then
    .error .tooManyFiles
  else
    .ok { a with path := some text }

/-- An argument that stands alone: an option with its value after an equality
sign, or no option at all. -/
def setSingle (a : Arguments) (text : String) : Except ArgumentError Arguments :=
  match after? "--schema=" text, after? "--dedup-window=" text with
  | some path, _ => setSchema a path
  | none, some value => setWindow a value
  | none, none =>
    if text.toList.head? = some '-' then .error (.unknownOption text) else setPositional a text

/-- Reads arguments from left to right. -/
def readArguments (a : Arguments) : List String → Except ArgumentError Arguments
  | [] => .ok a
  | "-h" :: rest => readArguments { a with showHelp := true } rest
  | "--help" :: rest => readArguments { a with showHelp := true } rest
  | "--json" :: rest => readArguments { a with json := true } rest
  | "--no-hints" :: rest =>
    readArguments { a with options := { a.options with emitHints := false } } rest
  | "--schema" :: path :: rest => do readArguments (← setSchema a path) rest
  | ["--schema"] => if a.schemaPath.isSome then .error .repeatedSchema else .error .missingSchemaPath
  | "--dedup-window" :: value :: rest => do readArguments (← setWindow a value) rest
  | ["--dedup-window"] => .error .missingWindow
  | text :: rest => do readArguments (← setSingle a text) rest

/-- Reads arguments and makes sure that nothing is missing. -/
def parseArguments (args : List String) : Except ArgumentError Arguments := do
  let a ← readArguments {} args
  if !a.showHelp && a.command.isNone then throw .missingCommand
  if !a.showHelp && a.path.isNone then throw .missingFile
  if a.json && a.command = some .clean then throw .jsonWithoutCheck
  return a

def usage : String :=
  "Usage: sqlfront check FILE [--schema SCHEMA.json] [--json] [--dedup-window N] [--no-hints]\n" ++
  "       sqlfront clean FILE [--schema SCHEMA.json]\n" ++
  "\n" ++
  "check prints one line per diagnostic and exits 1 when any is an error.\n" ++
  "clean prints the canonical text of every statement, each ending in `;`.\n" ++
  "\n" ++
  "Examples:\n" ++
  "\n" ++
  "sqlfront check queries.sql --schema schema.json\n" ++
  "sqlfront check queries.sql --json\n" ++
  "sqlfront clean dump.sql\n\n"

/-- What a run prints and how it exits. -/
structure Outcome where
  code : Nat
  out : String := ""
  err : String := ""
deriving DecidableEq, Inhabited

/-- The outcome of a run that failed. -/
def failed (f : Failure) : Outcome :=
  let advice := match f.suggestion? with
    | some text => s!"hint: {text}\n"
    | none => ""
  { code := f.exitCode, err := s!"error: {f.message}\n{advice}" }

def positionJson (p : Position) : Json :=
  .record [("line", .nat p.line), ("column", .nat p.column)]

def rangeJson (r : Range) : Json :=
  .record [("start", positionJson r.start), ("end", positionJson r.stop)]

def diagnosticJson (d : Diagnostic) : Json :=
  let fix := d.quickFix.toList.map fun text => ("quick_fix", Json.text text)
  .record ([("kind", .text d.kind.name), ("severity", .text d.severity.name),
    ("message", .text d.message), ("range", rangeJson d.range)] ++ fix)

/-- The report of a check as JSON. -/
def reportJson (path : String) (c : Compilation) : Json :=
  .record [("file", .text path), ("errors", .nat c.errors.length),
    ("warnings", .nat (c.diagnostics.length - c.errors.length)),
    ("diagnostics", .array (c.diagnostics.map diagnosticJson)),
    ("statements", .array (c.statementRanges.map rangeJson)),
    ("hints", .array (c.hints.entries.map fun h => rangeJson h.range))]

/-- The report of a check as lines of text. -/
def reportText (c : Compilation) : String :=
  let errors := c.errors.length
  let warnings := c.diagnostics.length - errors
  String.join (c.diagnostics.map fun d => d.render ++ "\n") ++
    s!"{errors} error(s), {warnings} warning(s)\n"

def check (a : Arguments) (path source : String) (schema : Option (List TableDescriptor)) :
    Outcome :=
  let c := Compilation.ofText source schema a.options
  { code := if c.hasErrors then 1 else 0
    out := if a.json then (reportJson path c).pretty ++ "\n" else reportText c
    err := if schema.isNone then "note: no --schema given; names were not resolved\n" else "" }

def clean (source : String) (schema : Option (List TableDescriptor)) : Outcome :=
  match normalize source (schema.getD []) with
  | .ok statements => { code := 0, out := String.join (statements.map (· ++ ";\n")) }
  | .error f => failed f

/-- Reads the schema that the arguments name, if they name one. -/
def readSchema (readFile : String → Except String String) (path : Option String) :
    Except Failure (Option (List TableDescriptor)) :=
  match path with
  | none => .ok none
  | some path => do
    let text ← (readFile path).mapError .io
    return some (← TableDescriptor.loadSchema text)

/-- Runs the command that arguments ask for on the file they name. -/
def runCommand (readFile : String → Except String String) (a : Arguments) (command : Command)
    (path : String) : Outcome :=
  match readFile path with
  | .error detail =>
    { code := 1, err := "error: failed reading SQL input `" ++ path ++ "`: " ++ detail ++ "\n" }
  | .ok source =>
    match readSchema readFile a.schemaPath with
    | .error f => failed f
    | .ok schema =>
      match command with
      | .check => check a path source schema
      | .clean => clean source schema

/-- Runs a command line. Files are read by the function given, which tells why
a file cannot be read. -/
def run (readFile : String → Except String String) (args : List String) : Outcome :=
  match parseArguments args with
  | .error e => { code := 2, err := s!"error: {e.message}\n{usage}" }
  | .ok a =>
    if a.showHelp then
      { code := 0, out := usage }
    else
      match a.command, a.path with
      | some command, some path => runCommand readFile a command path
      | _, _ => failed (.usage "missing command")

/-- The files that a run may read, in the order in which it does. -/
def filesOf (args : List String) : List String :=
  match parseArguments args with
  | .error _ => []
  | .ok a => a.path.toList ++ a.schemaPath.toList

end CommandLine
end SqlAnalysis
