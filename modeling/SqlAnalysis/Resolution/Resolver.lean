import SqlAnalysis.Diagnostic.Basic
import SqlAnalysis.Scope.Tree
import SqlAnalysis.Signature
import SqlAnalysis.Source.LineIndex
import SqlAnalysis.SqlType.Result
import SqlAnalysis.SqlType.Storage
import SqlAnalysis.Suggestion
import SqlAnalysis.Syntax.Render

/-!
# Resolvers

A resolver works on a catalog and on a stack of open scopes, and complains as it
goes. A scope that is left becomes part of the scope around it. An expression
whose type cannot be found has no type, and nothing more is said about what is
built from it.
-/
namespace SqlAnalysis

/-- A scope that is still open. -/
structure Frame where
  scope : Scope
  /-- A source of rows in it is unknown, so that any name may come from there. -/
  opaqueSource : Bool := false
  /-- The scopes inside it that have been left. -/
  children : List ScopeTree := []
deriving Inhabited

def Frame.toTree (f : Frame) : ScopeTree :=
  .node f.scope f.children

structure ResolverState where
  index : LineIndex
  catalog : Catalog
  /-- Everything complained about, in order. -/
  diagnostics : List Diagnostic
  /-- The scopes around the outermost one that is open, innermost first. -/
  frames : List Frame
  /-- The scope of the whole text. -/
  root : Frame
deriving Inhabited

abbrev Resolver := StateM ResolverState

namespace ResolverState

/-- The state before anything is resolved. -/
def start (index : LineIndex) (catalog : Catalog) : ResolverState where
  index := index
  catalog := catalog
  diagnostics := []
  frames := []
  root := { scope := { range := ⟨⟨0, 0⟩, index.position index.length⟩ } }

/-- The open scopes, innermost first. -/
def allFrames (s : ResolverState) : List Frame :=
  s.frames ++ [s.root]

def scopes (s : ResolverState) : List Scope :=
  s.allFrames.map Frame.scope

/-- Whether an open scope has an unknown source of rows. -/
def isOpaque (s : ResolverState) : Bool :=
  s.allFrames.any Frame.opaqueSource

/-- Changes the innermost open scope. -/
def modifyFrame (s : ResolverState) (f : Frame → Frame) : ResolverState :=
  match s.frames with
  | frame :: outer => { s with frames := f frame :: outer }
  | [] => { s with root := f s.root }

/-- Opens a scope for a span inside the innermost one. -/
def enter (s : ResolverState) (span : Span) : ResolverState :=
  let outer := (s.frames.headD s.root).scope
  { s with frames := { scope := { range := outer.clip (s.index.range span) } } :: s.frames }

/-- Leaves the innermost scope. -/
def leave (s : ResolverState) : ResolverState :=
  match s.frames with
  | frame :: outer =>
    { s with frames := outer }.modifyFrame fun f =>
      { f with children := f.children ++ [frame.toTree] }
  | [] => s

/-- Binds the columns of a table in the innermost scope. -/
def bindColumns (s : ResolverState) (table : TableId) : ResolverState :=
  s.modifyFrame fun f => { f with
    scope := (s.catalog.table table).columns.foldl
      (fun scope id => scope.bindColumn (s.catalog.column id).name id) f.scope }

/-- Binds a table and its columns in the innermost scope. -/
def bindTable (s : ResolverState) (name : String) (table : TableId) : ResolverState :=
  (s.modifyFrame fun f => { f with scope := f.scope.bindTable name table }).bindColumns table

def bindColumn (s : ResolverState) (name : String) (column : ColumnId) : ResolverState :=
  s.modifyFrame fun f => { f with scope := f.scope.bindColumn name column }

end ResolverState

namespace Resolver

def catalog : Resolver Catalog := return (← get).catalog

def setCatalog (c : Catalog) : Resolver Unit := modify fun s => { s with catalog := c }

def modifyCatalog (f : Catalog → Catalog) : Resolver Unit :=
  modify fun s => { s with catalog := f s.catalog }

/-- Complains about a span. -/
def complain (make : Range → Diagnostic) (span : Span) : Resolver Unit :=
  modify fun s => { s with diagnostics := s.diagnostics ++ [make (s.index.range span)] }

def error (message : String) (span : Span) : Resolver Unit :=
  complain (Diagnostic.semantic message) span

def errorWithFix (message : String) (span : Span) (fix : Option String) : Resolver Unit :=
  complain (fun range => { Diagnostic.semantic message range with quickFix := fix }) span

def warning (message : String) (span : Span) : Resolver Unit :=
  complain (Diagnostic.warning message) span

/-- Runs `r` in a scope of its own. -/
def within (span : Span) (r : Resolver α) : Resolver α := do
  modify fun s => s.enter span
  let a ← r
  modify ResolverState.leave
  return a

def addTable (name : String) (origin : TableOrigin) : Resolver TableId := do
  let (id, c) := (← catalog).addTable name origin
  setCatalog c
  return id

def addColumn (table : TableId) (column : Column) : Resolver ColumnId := do
  let (id, c) := (← catalog).addColumn table column
  setCatalog c
  return id

/-! ### Looking up names -/

/-- The table that the catalog has under a name. -/
def catalogTable? (name : Ident) : Resolver (Option TableId) := do
  let c ← catalog
  match c.findTables name.name with
  | [only] => return some only
  | [] =>
    errorWithFix s!"unknown table {name.name}" name.span (Suggestion.fix? name.name c.tableNames)
    return none
  | _ =>
    error s!"ambiguous table name {name.name}" name.span
    return none

/-- The names in the open scopes whose meaning has a property. -/
def visibleNames (wanted : Symbol → Bool) : Resolver (List String) := do
  let visible := Scope.visible (← get).scopes
  return (visible.filter fun entry => wanted entry.2).map Prod.fst

/-- The table that the open scopes have under a name. -/
def scopeTable? (name : Ident) : Resolver (Option TableId) := do
  match Scope.lookup (← get).scopes name.name Symbol.hasTables with
  | some symbol =>
    match symbol.tables with
    | [only] => return some only
    | _ =>
      error s!"ambiguous table name {name.name}" name.span
      return none
  | none =>
    if !(← get).isOpaque then
      let names ← visibleNames Symbol.hasTables
      errorWithFix s!"unknown table {name.name}" name.span (Suggestion.fix? name.name names)
    return none

/-- The column that the open scopes have under a name. -/
def scopeColumn? (name : Ident) : Resolver (Option ColumnId) := do
  match Scope.lookup (← get).scopes name.name Symbol.hasColumns with
  | some symbol =>
    match symbol.columns with
    | [only] => return some only
    | many =>
      let c ← catalog
      let tables := Text.joinWith ", " (many.map fun id => (c.table (c.column id).table).name)
      error s!"ambiguous identifier {name.name} (found in {tables})" name.span
      return none
  | none =>
    if !(← get).isOpaque then
      let names ← visibleNames Symbol.hasColumns
      errorWithFix s!"unknown identifier {name.name}" name.span
        (Suggestion.fix? name.name names)
    return none

/-- The column that a table has under a name. -/
def tableColumn? (table : TableId) (name : Ident) : Resolver (Option ColumnId) := do
  let c ← catalog
  let tableName := (c.table table).name
  match c.findColumns table name.name with
  | [only] => return some only
  | [] =>
    let names := (c.table table).columns.map fun id => (c.column id).name
    errorWithFix s!"unknown column {name.name} in table {tableName}" name.span
      (Suggestion.fix? name.name names)
    return none
  | _ =>
    error s!"ambiguous column {name.name} in table {tableName}" name.span
    return none

/-- The type of a column, if it is known which column is meant and what its type is. -/
def columnType (column : Option ColumnId) : Resolver (Option SqlType) := do
  let c ← catalog
  return column.bind fun id => (c.column id).type

end Resolver
end SqlAnalysis
