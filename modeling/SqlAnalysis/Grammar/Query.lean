import SqlAnalysis.Grammar.Expression

/-!
# Reading queries
-/
namespace SqlAnalysis.Parser

/-- What may follow the sources of a query. -/
def afterSourceKeywords : List String :=
  ["WHERE", "JOIN", "LEFT JOIN", "INNER JOIN", "CROSS JOIN", "NATURAL JOIN", "GROUP BY",
    "ORDER BY", "LIMIT"]

/-- What may follow inside a condition. -/
def conditionKeywords : List String := ["AND", "OR", "NOT", "IN", "LIKE", "NULL"]

/-- A condition that may use all columns. -/
def condition (nested : Nested) : Parser Expr := do
  under (← columnsHint conditionKeywords) (nested.expr 0)

/-- One column of the result, or a star for several. -/
def resultColumn (nested : Nested) : Parser ResultColumn := do
  if ← check .star then
    return .star (← advance).span
  else if isNameStart (← peek) && (← peekAt 1) == .dot && (← peekAt 2) == .star then
    let table ← ident
    let _ ← advance
    let _ ← advance
    return .tableStar table
  else
    let value ← nested.expr 0
    return .expr value (← alias?)

/-- A table or a query in brackets, with an alias. -/
def source (nested : Nested) : Parser Source := do
  if (← check .leftParen) && (← peekAt 1) == .keyword .SELECT then
    let start := (← advance).span
    let select ← nested.select
    let _ ← expect .rightParen "')'"
    let span ← spanFrom start
    return .subquery select (← alias?) span
  else
    let name ← ident
    return .table name (← alias?) none

/-- The words between two sources, if there are any. -/
def joinOperator? (natural : Bool) : Parser (Option JoinOperator) := do
  if !natural && (← check .comma) then
    let _ ← advance
    return some .comma
  else if ← eatWord .LEFT then
    let outer ← eatWord .OUTER
    let _ ← expectWord .JOIN
    return some (if outer then .leftOuter else .left)
  else if ← eatWord .INNER then
    let _ ← expectWord .JOIN
    return some .inner
  else if ← eatWord .CROSS then
    let _ ← expectWord .JOIN
    return some .cross
  else if ← eatWord .JOIN then
    return some .plain
  else if natural then
    failExpected "JOIN"
  else
    return none

/-- A further source, if there is one. -/
def join? (nested : Nested) : Parser (Option Join) := do
  let start := (← current).span
  let natural ← eatWord .NATURAL
  match ← joinOperator? natural with
  | none => return none
  | some operator =>
    let table ← under (← tablesHint) (source nested)
    let on ← afterWord .ON (condition nested)
    return some ⟨natural, operator, table, on, ← spanFrom start⟩

def fromClause (nested : Nested) : Parser FromClause := do
  let first ← source nested
  return ⟨first, ← many (join? nested)⟩

def groupBy (nested : Nested) : Parser GroupBy := do
  let start := (← advance).span
  let _ ← expectWord .BY
  let exprs ← under (← columnsHint ["HAVING", "ORDER BY", "LIMIT"])
    (commaSeparated (nested.expr 0))
  let having ← afterWord .HAVING (condition nested)
  return ⟨exprs, having, ← spanFrom start⟩

def direction? : Parser (Option SortDirection) := do
  if ← eatWord .ASC then return some .ascending
  else if ← eatWord .DESC then return some .descending
  else return none

def nullsOrder : Parser NullsOrder := do
  if ← eatWord .FIRST then return .first
  else if ← eatWord .LAST then return .last
  else failExpected "FIRST or LAST"

def orderingTerm (nested : Nested) : Parser OrderingTerm := do
  let expr ← nested.expr 0
  let direction ← direction?
  return ⟨expr, direction, ← afterWord .NULLS nullsOrder⟩

def orderBy (nested : Nested) : Parser OrderBy := do
  let start := (← advance).span
  let _ ← expectWord .BY
  let terms ← under (← columnsHint ["ASC", "DESC", "NULLS FIRST", "NULLS LAST", "LIMIT"])
    (commaSeparated (orderingTerm nested))
  return ⟨terms, ← spanFrom start⟩

/-- A limit with an offset after it, or before it with a comma. -/
def limit (nested : Nested) : Parser Limit := do
  let start := (← advance).span
  let first ← nested.expr 0
  if ← eatWord .OFFSET then
    let offset ← nested.expr 0
    return ⟨first, some offset, ← spanFrom start⟩
  else if ← eat .comma then
    let second ← nested.expr 0
    return ⟨second, some first, ← spanFrom start⟩
  else
    return ⟨first, none, ← spanFrom start⟩

/-- Runs `p` if the next token is a keyword, which `p` reads itself. -/
def atWord (word : Keyword) (p : Parser α) : Parser (Option α) := do
  if ← checkWord word then return some (← p) else return none

/-- Whether `DISTINCT` stands before the columns. `ALL` says no more than nothing. -/
def quantifier : Parser Bool := do
  if ← eatWord .DISTINCT then
    return true
  else
    let _ ← eatWord .ALL
    return false

def selectWith (nested : Nested) : Parser Select := do
  let start := (← expectWord .SELECT).span
  let distinct ← quantifier
  let columns ← under (← columnsHint ["DISTINCT", "FROM"])
    (commaSeparated (resultColumn nested))
  let source ← afterWord .FROM do
    let h ← tablesHint
    under { h with keywords := afterSourceKeywords } (fromClause nested)
  let condition ← afterWord .WHERE (condition nested)
  let groupBy ← atWord .GROUP (groupBy nested)
  let orderBy ← atWord .ORDER (orderBy nested)
  let limit ← atWord .LIMIT (limit nested)
  return ⟨distinct, columns, source, condition, groupBy, orderBy, limit, ← spanFrom start, none⟩

/-- Fails because nesting is deeper than there are tokens, which cannot be. -/
def tooDeep : Parser α :=
  failExpected "less nesting"

/-- Expressions and queries with at most `depth` levels of nesting. -/
def nested : Nat → Nested
  | 0 => ⟨fun _ => tooDeep, tooDeep⟩
  | depth + 1 => ⟨exprWith (nested depth), selectWith (nested depth)⟩

/-- Runs a parser with room for all the nesting that the tokens allow: a token
is read at every level. -/
def withNesting (p : Nested → Parser α) : Parser α := do
  p (nested ((← get).tokens.length + 1))

/-- An expression whose operators bind at least so strongly. -/
def exprAt (power : Nat) : Parser Expr :=
  withNesting fun inner => inner.expr power

def expr : Parser Expr := exprAt 0

def select : Parser Select :=
  withNesting Nested.select

end SqlAnalysis.Parser
