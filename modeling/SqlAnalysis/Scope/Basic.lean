import SqlAnalysis.Catalog.Basic
import SqlAnalysis.Source.Position

/-!
# Scopes

A scope is a region of a source text with the names that are bound there. A
name may stand for tables and for columns at the same time, and is looked up
from the innermost scope outwards.
-/
namespace SqlAnalysis

/-- What a name stands for in one scope, in the order of binding. -/
structure Symbol where
  tables : List TableId := []
  columns : List ColumnId := []
deriving DecidableEq, Inhabited

namespace Symbol

def addTable (s : Symbol) (id : TableId) : Symbol :=
  if s.tables.contains id then s else { s with tables := s.tables ++ [id] }

def addColumn (s : Symbol) (id : ColumnId) : Symbol :=
  if s.columns.contains id then s else { s with columns := s.columns ++ [id] }

def hasTables (s : Symbol) : Bool := !s.tables.isEmpty

def hasColumns (s : Symbol) : Bool := !s.columns.isEmpty

end Symbol

/-- A region with the folded names bound in it. -/
structure Scope where
  range : Range
  symbols : List (String × Symbol) := []
deriving DecidableEq, Inhabited

namespace Scope

/-- What a name stands for in this very scope. -/
def symbol? (s : Scope) (name : String) : Option Symbol :=
  s.symbols.lookup (Text.foldCase name)

/-- Changes the entry of a folded name, or makes one. -/
def update (key : String) (f : Symbol → Symbol) : List (String × Symbol) → List (String × Symbol)
  | [] => [(key, f {})]
  | (other, symbol) :: rest =>
    if other = key then (other, f symbol) :: rest else (other, symbol) :: update key f rest

def bindTable (s : Scope) (name : String) (id : TableId) : Scope :=
  { s with symbols := update (Text.foldCase name) (·.addTable id) s.symbols }

def bindColumn (s : Scope) (name : String) (id : ColumnId) : Scope :=
  { s with symbols := update (Text.foldCase name) (·.addColumn id) s.symbols }

/-- The part of a range that lies in the scope. -/
def clip (s : Scope) (r : Range) : Range :=
  let start := max s.range.start (min r.start s.range.stop)
  ⟨start, max start (min r.stop s.range.stop)⟩

/-- The symbols of a scope in alphabetical order of their names. -/
def sorted (symbols : List (String × Symbol)) : List (String × Symbol) :=
  symbols.mergeSort fun a b => decide (a.1 ≤ b.1)

/-- The innermost wanted meaning of a name. The scopes come from the inside out. -/
def lookup (scopes : List Scope) (name : String) (wanted : Symbol → Bool) : Option Symbol :=
  (scopes.filterMap fun s => s.symbol? name).find? wanted

/-- Adds the symbols whose names are not there yet. -/
def addHidden (seen more : List (String × Symbol)) : List (String × Symbol) :=
  seen ++ more.filter fun entry => !(seen.any fun other => other.1 == entry.1)

/-- Every name that can be seen, with its innermost meaning, in alphabetical
order. The scopes come from the inside out. -/
def visible (scopes : List Scope) : List (String × Symbol) :=
  sorted (scopes.foldl (fun seen s => addHidden seen s.symbols) [])

end Scope
end SqlAnalysis
