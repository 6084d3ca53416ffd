import SqlAnalysis.Canonical
import SqlAnalysis.Compilation.Hover
import SqlAnalysis.Compilation.Options
import SqlAnalysis.Grammar.Script
import SqlAnalysis.Resolution.Statement

/-!
# Compilations

A compilation is all that is known about a source text: its tokens, statements,
diagnostics and hints, and, if there is a schema, what its names stand for. An
editor asks it by cursor position.
-/
namespace SqlAnalysis

structure Compilation where
  source : String
  index : LineIndex
  tokens : List Token
  statements : List Statement
  /-- What was found in all stages, by place, with near-duplicates dropped. -/
  diagnostics : List Diagnostic
  bracketFault : Option BracketFault
  hints : Hints
  /-- Nothing if names were not bound. -/
  resolution : Option Resolution
deriving Inhabited

/-- What can be offered at a position. -/
structure Completion where
  /-- The text that a choice replaces. -/
  range : Range
  columns : List String
  tables : List String
  keywords : List String
  /-- Texts to put before and after what is chosen. -/
  wrap : Option (String × String)
deriving DecidableEq, Inhabited

namespace Compilation

/-- Diagnostics in the order in which they start; those that start together keep
theirs. -/
def inOrder (ds : List Diagnostic) : List Diagnostic :=
  ds.mergeSort fun a b => decide (a.range.start ≤ b.range.start)

/-- Analyses a source text. Names are bound only if a schema is given and the
options ask for it. -/
def ofText (source : String) (schema : Option (List TableDescriptor))
    (options : CompileOptions) : Compilation :=
  let index := LineIndex.ofText source
  let lexed := Lexed.ofText source
  let script := Script.ofTokens lexed.tokens
  let resolution := match schema with
    | some tables =>
      if options.resolve then
        some (Resolution.ofStatements index (Catalog.ofDescriptors tables) script.statements)
      else none
    | none => none
  let semantic := match resolution with
    | some r => (r.sink options.dedupWindow).items
    | none => []
  let found := inOrder (lexed.errors ++ script.errors ++ semantic)
  { source := source
    index := index
    tokens := lexed.tokens
    statements := match resolution with
      | some r => r.statements
      | none => script.statements
    diagnostics := (Sink.ofList options.dedupWindow found).items
    bracketFault := lexed.bracketFault
    hints := if options.emitHints then script.hints else ⟨[]⟩
    resolution := resolution }

def catalog? (c : Compilation) : Option Catalog :=
  c.resolution.map Resolution.catalog

def scopes? (c : Compilation) : Option ScopeTree :=
  c.resolution.map Resolution.scopes

def errors (c : Compilation) : List Diagnostic :=
  c.diagnostics.filter Diagnostic.isError

def hasErrors (c : Compilation) : Bool :=
  c.diagnostics.any Diagnostic.isError

/-- The diagnostics whose range covers a line. -/
def diagnosticsOnLine (c : Compilation) (line : Nat) : List Diagnostic :=
  c.diagnostics.filter fun d => d.range.start.line ≤ line && line ≤ d.range.stop.line

/-- Where the statements stand, in order. -/
def statementRanges (c : Compilation) : List Range :=
  c.statements.map fun s => c.index.range s.span

/-- The statement under a position, or right before it. -/
def statementAt? (c : Compilation) (p : Position) : Option Statement :=
  c.statements.find? fun s => (c.index.range s.span).touches p

/-- The scopes around a position, from the inside out. -/
def scopesAt (c : Compilation) (p : Position) : List Scope :=
  match c.scopes? with
  | some tree => tree.chainAt p
  | none => []

/-- The innermost scope around a position. -/
def scopeAt? (c : Compilation) (p : Position) : Option Scope :=
  (c.scopesAt p).head?

/-- The table or column that the name at a position stands for. -/
def bindingAt? (c : Compilation) (p : Position) : Option Binding := do
  let offset ← c.index.offset? p
  let statement ← c.statementAt? p
  Target.bindingAt? statement offset

/-- What to show for the name at a position. -/
def hoverAt? (c : Compilation) (p : Position) : Option String := do
  let catalog ← c.catalog?
  return catalog.hover (← c.bindingAt? p)

/-- The columns of the table that a name stands for, in the scopes given or else
in the catalog. -/
def columnsOf (catalog : Catalog) (scopes : List Scope) (name : String) : List String :=
  let visible := (Scope.lookup scopes name Symbol.hasTables).bind fun s => s.tables.head?
  match visible <|> (catalog.findTables name).head? with
  | some id => (catalog.table id).columns.map fun column => (catalog.column column).name
  | none => []

/-- The columns that a hint offers in the scopes given. -/
def suggestedColumns (catalog : Catalog) (scopes : List Scope) : ColumnSuggestion → List String
  | .none => []
  | .all => ((Scope.visible scopes).filter fun entry => entry.2.hasColumns).map Prod.fst
  | .table name => columnsOf catalog scopes name

/-- What can be offered at a position. Names are offered only if they are bound. -/
def completionAt? (c : Compilation) (p : Position) : Option Completion := do
  let hint ← c.hints.at? p
  let (columns, tables) := match c.catalog? with
    | some catalog =>
      (suggestedColumns catalog (c.scopesAt p) hint.columns,
        if hint.tables then catalog.tableNames else [])
    | none => ([], [])
  return ⟨hint.range, columns, tables, hint.keywords, hint.wrap⟩

/-- The canonical text of each statement. -/
def canonical (c : Compilation) : List String :=
  c.statements.map fun s => s.canonical c.source c.catalog?

/-- The names and types of the columns of a resolved query. -/
def outputColumns? (c : Compilation) (s : Statement) : Option (List (String × Option SqlType)) :=
  match s.body with
  | .select select => do
    let catalog ← c.catalog?
    let table ← select.result
    return (catalog.table table).columns.map fun id =>
      ((catalog.column id).name, (catalog.column id).type)
  | _ => none

end Compilation

/-- The canonical text of every statement of a batch, starting from a schema. A
batch with an error is rejected as a whole. -/
def normalize (source : String) (schema : List TableDescriptor) : Except Failure (List String) :=
  let c := Compilation.ofText source (some schema) { emitHints := false }
  match c.errors with
  | [] => .ok c.canonical
  | first :: rest => .error (.importRejected (rest.length + 1) first.render)

end SqlAnalysis
