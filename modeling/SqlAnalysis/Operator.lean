/-!
# Operators

The binary and unary operators of expressions, by family, with their spelling.
-/
namespace SqlAnalysis

/-- Binary operators, loosest first. -/
inductive BinaryOperator where
  | or
  | and
  | eq | notEq | lt | le | gt | ge
  | like | notLike
  | concat | add | subtract
  | multiply | divide | modulo
  | member | notMember
deriving DecidableEq, Inhabited

namespace BinaryOperator

def all : List BinaryOperator :=
  [.or, .and, .eq, .notEq, .lt, .le, .gt, .ge, .like, .notLike, .concat, .add, .subtract,
    .multiply, .divide, .modulo, .member, .notMember]

def spelling : BinaryOperator → String
  | .or => "OR"
  | .and => "AND"
  | .eq => "="
  | .notEq => "<>"
  | .lt => "<"
  | .le => "<="
  | .gt => ">"
  | .ge => ">="
  | .like => "LIKE"
  | .notLike => "NOT LIKE"
  | .concat => "||"
  | .add => "+"
  | .subtract => "-"
  | .multiply => "*"
  | .divide => "/"
  | .modulo => "%"
  | .member => "IN"
  | .notMember => "NOT IN"

/-- The operator with a given spelling. -/
def ofSpelling? (text : String) : Option BinaryOperator :=
  all.find? fun op => op.spelling == text

/-- Operators on numbers with a number as result. -/
def isArithmetic : BinaryOperator → Bool
  | .add | .subtract | .multiply | .divide | .modulo => true
  | _ => false

def isComparison : BinaryOperator → Bool
  | .eq | .notEq | .lt | .le | .gt | .ge => true
  | _ => false

def isMembership : BinaryOperator → Bool
  | .member | .notMember => true
  | _ => false

end BinaryOperator

/-- Operators that stand before their operand. -/
inductive UnaryOperator where
  | negate
  | not
deriving DecidableEq, Inhabited

def UnaryOperator.spelling : UnaryOperator → String
  | .negate => "-"
  | .not => "NOT"

end SqlAnalysis
