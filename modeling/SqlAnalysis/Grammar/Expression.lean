import SqlAnalysis.Grammar.Parser
import SqlAnalysis.Syntax.Query

/-!
# Reading expressions

Operators bind by their power, loosest first: `OR`, `AND`, prefix `NOT`,
comparison, addition, multiplication, `IN`, prefix minus. Binary operators group
to the left. Expressions and queries are read with a parser for the expressions
and queries inside them, which is used only after a token has been read.
-/
namespace SqlAnalysis

namespace BinaryOperator

/-- The strength with which an operator takes the operand on its left. The one
on its right is taken one stronger. -/
def power : BinaryOperator → Nat
  | .or => 1
  | .and => 3
  | .eq | .notEq | .lt | .le | .gt | .ge | .like | .notLike => 7
  | .concat | .add | .subtract => 9
  | .multiply | .divide | .modulo => 11
  | .member | .notMember => 13

/-- The strength with which `NOT` takes its operand. -/
def notPower : Nat := 5

/-- The strength with which a sign takes its operand. -/
def signPower : Nat := 15

/-- The operator that the next two tokens begin, and how many of them it takes. -/
def ofTokens? : TokenKind → TokenKind → Option (BinaryOperator × Nat)
  | .keyword .OR, _ => some (.or, 1)
  | .keyword .AND, _ => some (.and, 1)
  | .eq, _ => some (.eq, 1)
  | .notEq, _ => some (.notEq, 1)
  | .lt, _ => some (.lt, 1)
  | .le, _ => some (.le, 1)
  | .gt, _ => some (.gt, 1)
  | .ge, _ => some (.ge, 1)
  | .keyword .LIKE, _ => some (.like, 1)
  | .keyword .NOT, .keyword .LIKE => some (.notLike, 2)
  | .keyword .NOT, .keyword .IN => some (.notMember, 2)
  | .concat, _ => some (.concat, 1)
  | .plus, _ => some (.add, 1)
  | .minus, _ => some (.subtract, 1)
  | .star, _ => some (.multiply, 1)
  | .slash, _ => some (.divide, 1)
  | .percent, _ => some (.modulo, 1)
  | .keyword .IN, _ => some (.member, 1)
  | _, _ => none

end BinaryOperator

namespace Expr

/-- An expression just read, of which only the span is known. -/
def binaryOf (left : Expr) (op : BinaryOperator) (right : Expr) : Expr :=
  .binary { span := left.span.merge right.span } left op right

end Expr

/-- The parsers for what stands inside an expression or a query. -/
structure Nested where
  /-- An expression whose operators bind at least so strongly. -/
  expr : Nat → Parser Expr
  select : Parser Select

namespace Parser

/-- The literal that a token is. -/
def literalOf? : TokenKind → Option Literal
  | .integer value => some (.integer value)
  | .float value => some (.float value)
  | .string value => some (.string value)
  | .character value => some (.character value)
  | .keyword .TRUE => some (.boolean true)
  | .keyword .FALSE => some (.boolean false)
  | .keyword .NULL => some .null
  | _ => none

/-- Reads a literal if the next token is one. -/
def literal? : Parser (Option Expr) := do
  match literalOf? (← peek) with
  | some value =>
    let t ← advance
    return some (.constant { span := t.span } value)
  | none => return none

/-- A query or expressions after an opening bracket. -/
def bracketTerm (nested : Nested) : Parser Expr := do
  let start := (← advance).span
  if ← checkWord .SELECT then
    let select ← nested.select
    let _ ← expect .rightParen "')'"
    return .subquery { span := ← spanFrom start } select
  else
    let items ← commaSeparated (nested.expr 0)
    let _ ← expect .rightParen "')'"
    let note : Note := { span := ← spanFrom start }
    match items with
    | [inner] => return .brackets note inner
    | items => return .list note items

/-- The rest of a call after the name of the function. -/
def call (nested : Nested) (function : Ident) : Parser Expr := do
  let _ ← advance
  if ← check .star then
    let star := (← advance).span
    let _ ← expect .rightParen "')'"
    return .callStar { span := ← spanFrom function.span } function star
  else
    let args ← unlessClosing do under (← columnsHint []) (commaSeparated (nested.expr 0))
    let _ ← expect .rightParen "')'"
    return .call { span := ← spanFrom function.span } function args

/-- The columns to offer after a point that follows `e`. -/
def suggestionAfter : Expr → ColumnSuggestion
  | .name _ table => .table table.name
  | _ => .none

/-- The names after points that follow `e`, no more than `n` of them. -/
def dots : Nat → Expr → Parser Expr
  | 0, e => return e
  | n + 1, e => do
    if ← eat .dot then
      let h ← hint
      let right ← under { h with columns := suggestionAfter e } ident
      dots n (.dot { span := e.span.merge right.span } e right)
    else
      return e

/-- A name, a chain of names with points, or a call. -/
def nameTerm (nested : Nested) : Parser Expr := do
  let name ← ident
  if ← check .leftParen then
    call nested name
  else
    dots ((← get).tokens.length + 1) (.name { span := name.span } name)

def minusTerm (nested : Nested) : Parser Expr := do
  let sign ← advance
  let e ← nested.expr BinaryOperator.signPower
  return .unary { span := sign.span.merge e.span } .negate e

/-- A plus sign leaves no trace but in the span. -/
def plusTerm (nested : Nested) : Parser Expr := do
  let sign ← advance
  let e ← nested.expr BinaryOperator.signPower
  return e.withNote { e.note with span := sign.span.merge e.span }

def notTerm (nested : Nested) : Parser Expr := do
  let sign ← advance
  let e ← nested.expr BinaryOperator.notPower
  return .unary { span := sign.span.merge e.span } .not e

/-- An operand with the signs before it. -/
def operand (nested : Nested) : Parser Expr := do
  if let some e ← literal? then
    return e
  match ← peek with
  | .minus => minusTerm nested
  | .plus => plusTerm nested
  | .keyword .NOT => notTerm nested
  | .leftParen => bracketTerm nested
  | kind => if isNameStart kind then nameTerm nested else failExpected "expression"

/-- A query or a list after the bracket that opens it. A single expression is a
list of one. -/
def memberList (nested : Nested) : Parser Expr := do
  let start := (← advance).span
  if ← checkWord .SELECT then
    let select ← nested.select
    let _ ← expect .rightParen "')'"
    return .subquery { span := ← spanFrom start } select
  else
    let items ← unlessClosing do
      let h ← columnsHint []
      under { h with wrap := some ("(", ")") } (commaSeparated (nested.expr 0))
    let _ ← expect .rightParen "')'"
    return .list { span := ← spanFrom start } items

/-- What stands after `IN`. In brackets it is a query or a list, never a single
expression. -/
def members (nested : Nested) (power : Nat) : Parser Expr := do
  if ← check .leftParen then memberList nested else nested.expr power

/-- Reads the tokens of an operator, one or two of them. -/
def operatorWords (width : Nat) : Parser Unit := do
  let _ ← advance
  if width = 2 then
    let _ ← advance

def rightOperand (nested : Nested) (op : BinaryOperator) : Parser Expr :=
  if op.isMembership then members nested (op.power + 1) else nested.expr (op.power + 1)

/-- Operators of at least a power with their right operands, after the operand
`left`; no more than `n` of them. -/
def operations (nested : Nested) (power : Nat) : Nat → Expr → Parser Expr
  | 0, left => return left
  | n + 1, left => do
    match BinaryOperator.ofTokens? (← peek) (← peekAt 1) with
    | none => return left
    | some (op, width) =>
      if op.power < power then
        return left
      else
        operatorWords width
        let right ← rightOperand nested op
        operations nested power n (left.binaryOf op right)

/-- An expression whose operators have at least a power. -/
def exprWith (nested : Nested) (power : Nat) : Parser Expr := do
  let left ← operand nested
  operations nested power ((← get).tokens.length + 1) left

end Parser
end SqlAnalysis
