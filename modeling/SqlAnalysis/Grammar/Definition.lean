import SqlAnalysis.Grammar.Change
import SqlAnalysis.SqlType.Kind
import SqlAnalysis.Text.Number

/-!
# Reading statements that define tables
-/
namespace SqlAnalysis.Parser

/-- What may follow the type of a column. -/
def columnRuleKeywords : List String :=
  ["NOT NULL", "DEFAULT", "PRIMARY KEY", "AUTOINCREMENT", "UNIQUE", "REFERENCES", "COLLATE",
    "CHECK"]

/-- What may be done to a table. -/
def alterKeywords : List String := ["ADD COLUMN", "DROP COLUMN", "RENAME TO", "RENAME COLUMN"]

/-- An expression in brackets, which are left out. -/
def bracketed : Parser Expr := do
  let _ ← expect .leftParen "'('"
  let e ← expr
  let _ ← expect .rightParen "')'"
  return e

/-- A number after the sign that is the next token. -/
def signedNumber : Parser Expr := do
  match ← peekAt 1 with
  | .integer _ | .float _ => exprAt BinaryOperator.signPower
  | _ => failExpected "number"

/-- A literal, a number with a sign, a name, or an expression in brackets. -/
def defaultValue : Parser Expr := do
  if let some e ← literal? then
    return e
  match ← peek with
  | .leftParen =>
    let start := (← current).span
    let inner ← bracketed
    return .brackets { span := ← spanFrom start } inner
  | .minus | .plus => signedNumber
  | kind =>
    if isNameStart kind then
      let name ← ident
      return .name { span := name.span } name
    else
      failExpected "default value"

/-- A word of a type name, if the next token is one. Keywords are none. -/
def typeWord? : Parser (Option String) := do
  match ← peek with
  | .name word =>
    let _ ← advance
    return some word
  | _ => return none

/-- A parameter of a type, which must fit a 32-bit word. -/
def typeParam : Parser Nat := do
  let t ← current
  match t.kind with
  | .integer value =>
    let _ ← advance
    if value ≤ Text.maxWord then return value
    else throw (.grammatical s!"type parameter {value} is out of range" t.range)
  | _ => failExpected "type parameter"

/-- The parameters of a type in brackets, or none if no bracket opens. -/
def typeParams : Parser (List Nat) := do
  if ← eat .leftParen then
    let params ← commaSeparated typeParam
    let _ ← expect .rightParen "')'"
    return params
  else
    return []

/-- The words of a type with its parameters, if there is a type at all. -/
def typeName? : Parser (Option TypeName) := do
  let start := (← current).span
  match ← many typeWord? with
  | [] => return none
  | words =>
    let params ← typeParams
    return some ⟨Text.joinWith " " words, params, ← spanFrom start⟩

def foreignKeyClause : Parser ForeignKeyClause := do
  let _ ← expectWord .REFERENCES
  let table ← under (← tablesHint) ident
  return ⟨table, ← columnsOf table⟩

/-- The name of a constraint, if it has one. -/
def constraintName? : Parser (Option Ident) :=
  afterWord .CONSTRAINT ident

/-- A rule for one column, if the next token begins one. -/
def columnRule? : Parser (Option ColumnRule) := do
  match ← peek with
  | .keyword .NOT =>
    let _ ← advance
    let _ ← expectWord .NULL
    return some .notNull
  | .keyword .NULL =>
    let _ ← advance
    return some .null
  | .keyword .DEFAULT =>
    let _ ← advance
    return some (.default (← defaultValue))
  | .keyword .PRIMARY =>
    let _ ← advance
    let _ ← expectWord .KEY
    let direction ← direction?
    return some (.primaryKey direction (← eatWord .AUTOINCREMENT))
  | .keyword .UNIQUE =>
    let _ ← advance
    return some .unique
  | .keyword .REFERENCES => return some (.references (← foreignKeyClause))
  | .keyword .COLLATE =>
    let _ ← advance
    return some (.collate (← ident))
  | .keyword .CHECK =>
    let _ ← advance
    return some (.check (← bracketed))
  | _ => return none

/-- A constraint of one column, if there is another. -/
def columnConstraint? : Parser (Option ColumnConstraint) := do
  let start := (← current).span
  let name ← constraintName?
  match ← columnRule? with
  | some rule => return some ⟨name, rule, ← spanFrom start⟩
  | none => if name.isSome then failExpected "column constraint" else return none

def columnDef : Parser ColumnDef := do
  let name ← ident
  let typeName ← under (← keywordsHint (TypeKind.all.map TypeKind.name)) typeName?
  let constraints ← under (← keywordsHint columnRuleKeywords) (many columnConstraint?)
  return ⟨name, typeName, constraints, ← spanFrom name.span, none, none⟩

def tableRule : Parser TableRule := do
  match ← peek with
  | .keyword .PRIMARY =>
    let _ ← advance
    let _ ← expectWord .KEY
    return .primaryKey (← identList)
  | .keyword .UNIQUE =>
    let _ ← advance
    return .unique (← identList)
  | .keyword .CHECK =>
    let _ ← advance
    return .check (← bracketed)
  | .keyword .FOREIGN =>
    let _ ← advance
    let _ ← expectWord .KEY
    let columns ← identList
    return .foreignKey columns (← foreignKeyClause)
  | _ => failExpected "PRIMARY KEY, UNIQUE, CHECK, or FOREIGN KEY"

def tableConstraint : Parser TableConstraint := do
  let start := (← current).span
  let name ← constraintName?
  let rule ← tableRule
  return ⟨name, rule, ← spanFrom start⟩

/-- Whether a token begins a constraint of the whole table. -/
def startsTableConstraint : TokenKind → Bool
  | .keyword .CONSTRAINT | .keyword .PRIMARY | .keyword .UNIQUE | .keyword .CHECK
  | .keyword .FOREIGN => true
  | _ => false

/-- A column or a constraint of a table. -/
def tableItem : Parser (ColumnDef ⊕ TableConstraint) := do
  if startsTableConstraint (← peek) then
    return .inr (← tableConstraint)
  else
    return .inl (← columnDef)

/-- Reads `IF NOT EXISTS` if its first two words are there. -/
def ifNotExists : Parser Bool := do
  if (← checkWord .IF) && (← peekAt 1) == .keyword .NOT then
    let _ ← advance
    let _ ← advance
    let _ ← expectWord .EXISTS
    return true
  else
    return false

def createTable : Parser CreateTable := do
  let _ ← advance
  let _ ← expectWord .TABLE
  let ifNotExists ← ifNotExists
  let name ← ident
  let _ ← expect .leftParen "'('"
  let items ← commaSeparated tableItem
  let _ ← expect .rightParen "')'"
  return ⟨ifNotExists, name, items.filterMap Sum.getLeft?, items.filterMap Sum.getRight?, none⟩

/-- The kinds of change to a table, told by the words they begin with. -/
inductive AlterVerb where
  | addColumn | dropColumn | renameTo | renameColumn

def alterVerb : Parser AlterVerb := do
  match ← peek with
  | .keyword .ADD =>
    let _ ← advance
    let _ ← eatWord .COLUMN
    return .addColumn
  | .keyword .DROP =>
    let _ ← advance
    let _ ← eatWord .COLUMN
    return .dropColumn
  | .keyword .RENAME =>
    let _ ← advance
    if ← eatWord .TO then
      return .renameTo
    else
      let _ ← eatWord .COLUMN
      return .renameColumn
  | _ => failExpected "ADD, DROP, or RENAME"

def alterTable : Parser AlterTable := do
  let _ ← advance
  let _ ← expectWord .TABLE
  let table ← under (← tablesHint) ident
  match ← under (← keywordsHint alterKeywords) alterVerb with
  | .addColumn => return ⟨table, none, .addColumn (← columnDef)⟩
  | .dropColumn => return ⟨table, none, .dropColumn (← under (← columnsOfHint table) ident)⟩
  | .renameTo => return ⟨table, none, .renameTo (← ident)⟩
  | .renameColumn =>
    let column ← under (← columnsOfHint table) ident
    let _ ← expectWord .TO
    return ⟨table, none, .renameColumn column (← ident)⟩

/-- Reads `IF EXISTS` if it is there. -/
def ifExists : Parser Bool := do
  if (← checkWord .IF) && (← peekAt 1) == .keyword .EXISTS then
    let _ ← advance
    let _ ← advance
    return true
  else
    return false

def dropTable : Parser DropTable := do
  let _ ← advance
  let _ ← expectWord .TABLE
  let ifExists ← ifExists
  let table ← under (← tablesHint) ident
  return ⟨ifExists, table, none⟩

end SqlAnalysis.Parser
