import SqlAnalysis.Grammar.Query
import SqlAnalysis.Syntax.Statement

/-!
# Reading statements that change rows
-/
namespace SqlAnalysis.Parser

/-- A tuple of values in brackets, which may be empty. -/
def valueRow : Parser ValueRow := do
  let start := (← expect .leftParen "'('").span
  let values ← unlessClosing (commaSeparated expr)
  let _ ← expect .rightParen "')'"
  return ⟨values, ← spanFrom start⟩

/-- The columns of a table in brackets, or none if no bracket opens. -/
def columnsOf (table : Ident) : Parser (List Ident) := do
  if ← check .leftParen then under (← columnsOfHint table) identList else return []

def insert : Parser Insert := do
  let _ ← advance
  let _ ← expectWord .INTO
  let table ← under (← tablesHint) ident
  let columns ← columnsOf table
  let _ ← under (← keywordsHint ["VALUES"]) (expectWord .VALUES)
  let h ← hint
  let rows ← under { h with wrap := some ("(", ")") } (commaSeparated valueRow)
  return ⟨table, none, columns, rows, []⟩

/-- The condition of a statement about one table, if it has one. -/
def rowCondition? (table : Ident) : Parser (Option Expr) :=
  afterWord .WHERE do
    let h ← columnsOfHint table
    under { h with keywords := conditionKeywords } expr

def assignment : Parser Assignment := do
  let column ← ident
  let _ ← expect .eq "'='"
  return ⟨column, none, ← expr⟩

def update : Parser Update := do
  let _ ← advance
  let table ← under (← tablesHint) ident
  let _ ← expectWord .SET
  let assignments ← under (← columnsOfHint table) (commaSeparated assignment)
  return ⟨table, none, assignments, ← rowCondition? table⟩

def delete : Parser Delete := do
  let _ ← advance
  let _ ← expectWord .FROM
  let table ← under (← tablesHint) ident
  return ⟨table, none, ← rowCondition? table⟩

end SqlAnalysis.Parser
