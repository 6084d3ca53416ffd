import SqlAnalysis.Catalog.Basic
import SqlAnalysis.Literal
import SqlAnalysis.Operator
import SqlAnalysis.Syntax.Ident

/-!
# Expressions and queries

Every expression carries a note: the span it was read from, and the type and
the binding that name resolution finds for it. Expressions and queries contain
each other.
-/
namespace SqlAnalysis

/-- What a name stands for. -/
inductive Binding where
  | table (id : TableId)
  | column (id : ColumnId)
deriving DecidableEq, Inhabited

/-- What is known about an expression besides its shape. -/
structure Note where
  span : Span
  /-- Nothing before resolution, or if the type is unknown. -/
  type : Option SqlType := none
  binding : Option Binding := none
deriving DecidableEq, Inhabited

/-- How a source is joined to those before it. -/
inductive JoinOperator where
  | comma | plain | inner | left | leftOuter | cross
deriving DecidableEq, Inhabited

inductive SortDirection where
  | ascending | descending
deriving DecidableEq, Inhabited

inductive NullsOrder where
  | first | last
deriving DecidableEq, Inhabited

mutual

inductive Expr where
  | constant (note : Note) (value : Literal)
  | name (note : Note) (ident : Ident)
  /-- A qualified name; longer chains nest to the left. -/
  | dot (note : Note) (left : Expr) (right : Ident)
  | binary (note : Note) (left : Expr) (op : BinaryOperator) (right : Expr)
  | unary (note : Note) (op : UnaryOperator) (operand : Expr)
  | call (note : Note) (function : Ident) (args : List Expr)
  /-- A call with a lone star, such as `count(*)`. -/
  | callStar (note : Note) (function : Ident) (star : Span)
  | brackets (note : Note) (inner : Expr)
  /-- Several expressions in brackets, or any number of them after `IN`. -/
  | list (note : Note) (items : List Expr)
  | subquery (note : Note) (select : Select)

inductive ResultColumn where
  | star (span : Span)
  | tableStar (table : Ident)
  | expr (value : Expr) (label : Option Ident)

/-- A source of rows. -/
inductive Source where
  | table (name : Ident) (label : Option Ident) (binding : Option TableId)
  | subquery (select : Select) (label : Option Ident) (span : Span)

structure Join where
  natural : Bool
  operator : JoinOperator
  source : Source
  on : Option Expr
  span : Span

structure FromClause where
  source : Source
  joins : List Join

structure GroupBy where
  exprs : List Expr
  having : Option Expr
  span : Span

structure OrderingTerm where
  expr : Expr
  direction : Option SortDirection
  nulls : Option NullsOrder

structure OrderBy where
  terms : List OrderingTerm
  span : Span

structure Limit where
  limit : Expr
  offset : Option Expr
  span : Span

structure Select where
  distinct : Bool
  columns : List ResultColumn
  source : Option FromClause
  condition : Option Expr
  groupBy : Option GroupBy
  orderBy : Option OrderBy
  limit : Option Limit
  span : Span
  /-- The table that holds one column for each column of the result. -/
  result : Option TableId

end

instance : Inhabited Expr := ⟨.constant default .null⟩

namespace Expr

def note : Expr → Note
  | .constant note _ => note
  | .name note _ => note
  | .dot note _ _ => note
  | .binary note _ _ _ => note
  | .unary note _ _ => note
  | .call note _ _ => note
  | .callStar note _ _ => note
  | .brackets note _ => note
  | .list note _ => note
  | .subquery note _ => note

/-- The expression under another note. -/
def withNote (note : Note) : Expr → Expr
  | .constant _ value => .constant note value
  | .name _ ident => .name note ident
  | .dot _ left right => .dot note left right
  | .binary _ left op right => .binary note left op right
  | .unary _ op operand => .unary note op operand
  | .call _ function args => .call note function args
  | .callStar _ function star => .callStar note function star
  | .brackets _ inner => .brackets note inner
  | .list _ items => .list note items
  | .subquery _ select => .subquery note select

@[simp] theorem note_withNote (note : Note) (e : Expr) : (e.withNote note).note = note := by
  cases e <;> rfl

def span (e : Expr) : Span := e.note.span

def type (e : Expr) : Option SqlType := e.note.type

def binding (e : Expr) : Option Binding := e.note.binding

/-- The constant that the expression writes: a literal, a number with a minus
sign, or either of them in brackets. -/
def literal? : Expr → Option Literal
  | .constant _ value => some value
  | .unary _ .negate (.constant _ (.integer i)) => some (.integer (-i))
  | .unary _ .negate (.constant _ (.float x)) => some (.float x.negate)
  | .brackets _ inner => inner.literal?
  | _ => none

mutual

/-- The expression and all those inside it, from the outside in and from left
to right. Queries are not entered. -/
def nodes : Expr → List Expr
  | .constant note value => [.constant note value]
  | .name note ident => [.name note ident]
  | .dot note left right => .dot note left right :: left.nodes
  | .binary note left op right => .binary note left op right :: (left.nodes ++ right.nodes)
  | .unary note op operand => .unary note op operand :: operand.nodes
  | .call note function args => .call note function args :: nodesOfList args
  | .callStar note function star => [.callStar note function star]
  | .brackets note inner => .brackets note inner :: inner.nodes
  | .list note items => .list note items :: nodesOfList items
  | .subquery note select => [.subquery note select]

def nodesOfList : List Expr → List Expr
  | [] => []
  | e :: es => e.nodes ++ nodesOfList es

end

end Expr

namespace Source

/-- The text of a source, its alias included. -/
def span : Source → Span
  | .table name none _ => name.span
  | .table name (some label) _ => name.span.merge label.span
  | .subquery _ _ span => span

end Source
end SqlAnalysis
