import SqlAnalysis.Text.Case

/-!
# Keywords

The reserved words of the language. A few of them may still be used as names.
-/
namespace SqlAnalysis

inductive Keyword where
  | ADD | ALL | ALTER | AND | AS | ASC | AUTOINCREMENT | BY | CHECK | COLLATE | COLUMN
  | CONSTRAINT | CREATE | CROSS | DEFAULT | DELETE | DESC | DISTINCT | DROP | EXISTS | FALSE
  | FIRST | FOREIGN | FROM | GROUP | HAVING | IF | IN | INNER | INSERT | INTO | JOIN | KEY | LAST
  | LEFT | LIKE | LIMIT | NATURAL | NOT | NULL | NULLS | OFFSET | ON | OR | ORDER | OUTER
  | PRIMARY | REFERENCES | RENAME | SELECT | SET | TABLE | TO | TRUE | UNIQUE | UPDATE | VALUES
  | WHERE
deriving DecidableEq, Inhabited

namespace Keyword

def all : List Keyword :=
  [.ADD, .ALL, .ALTER, .AND, .AS, .ASC, .AUTOINCREMENT, .BY, .CHECK, .COLLATE, .COLUMN,
    .CONSTRAINT, .CREATE, .CROSS, .DEFAULT, .DELETE, .DESC, .DISTINCT, .DROP, .EXISTS, .FALSE,
    .FIRST, .FOREIGN, .FROM, .GROUP, .HAVING, .IF, .IN, .INNER, .INSERT, .INTO, .JOIN, .KEY,
    .LAST, .LEFT, .LIKE, .LIMIT, .NATURAL, .NOT, .NULL, .NULLS, .OFFSET, .ON, .OR, .ORDER,
    .OUTER, .PRIMARY, .REFERENCES, .RENAME, .SELECT, .SET, .TABLE, .TO, .TRUE, .UNIQUE, .UPDATE,
    .VALUES, .WHERE]

/-- The keyword in capitals. -/
def spelling : Keyword → String
  | .ADD => "ADD"
  | .ALL => "ALL"
  | .ALTER => "ALTER"
  | .AND => "AND"
  | .AS => "AS"
  | .ASC => "ASC"
  | .AUTOINCREMENT => "AUTOINCREMENT"
  | .BY => "BY"
  | .CHECK => "CHECK"
  | .COLLATE => "COLLATE"
  | .COLUMN => "COLUMN"
  | .CONSTRAINT => "CONSTRAINT"
  | .CREATE => "CREATE"
  | .CROSS => "CROSS"
  | .DEFAULT => "DEFAULT"
  | .DELETE => "DELETE"
  | .DESC => "DESC"
  | .DISTINCT => "DISTINCT"
  | .DROP => "DROP"
  | .EXISTS => "EXISTS"
  | .FALSE => "FALSE"
  | .FIRST => "FIRST"
  | .FOREIGN => "FOREIGN"
  | .FROM => "FROM"
  | .GROUP => "GROUP"
  | .HAVING => "HAVING"
  | .IF => "IF"
  | .IN => "IN"
  | .INNER => "INNER"
  | .INSERT => "INSERT"
  | .INTO => "INTO"
  | .JOIN => "JOIN"
  | .KEY => "KEY"
  | .LAST => "LAST"
  | .LEFT => "LEFT"
  | .LIKE => "LIKE"
  | .LIMIT => "LIMIT"
  | .NATURAL => "NATURAL"
  | .NOT => "NOT"
  | .NULL => "NULL"
  | .NULLS => "NULLS"
  | .OFFSET => "OFFSET"
  | .ON => "ON"
  | .OR => "OR"
  | .ORDER => "ORDER"
  | .OUTER => "OUTER"
  | .PRIMARY => "PRIMARY"
  | .REFERENCES => "REFERENCES"
  | .RENAME => "RENAME"
  | .SELECT => "SELECT"
  | .SET => "SET"
  | .TABLE => "TABLE"
  | .TO => "TO"
  | .TRUE => "TRUE"
  | .UNIQUE => "UNIQUE"
  | .UPDATE => "UPDATE"
  | .VALUES => "VALUES"
  | .WHERE => "WHERE"

/-- The keyword that a word spells, in any case. -/
def ofWord? (word : String) : Option Keyword :=
  all.find? fun k => Text.sameName k.spelling word

/-- Keywords that begin a statement. -/
def isStatementStart : Keyword → Bool
  | .SELECT | .INSERT | .UPDATE | .DELETE | .CREATE | .ALTER | .DROP => true
  | _ => false

/-- Keywords that may stand for a name. None of them begins an expression or a
clause where a name is expected. -/
def isSoft : Keyword → Bool
  | .FIRST | .LAST | .KEY | .NULLS | .COLUMN | .ADD | .RENAME | .TO | .IF => true
  | _ => false

theorem mem_all (k : Keyword) : k ∈ all := by
  cases k <;> decide

end Keyword
end SqlAnalysis
