import SqlAnalysis.Operator
import SqlAnalysis.SqlType.Basic

/-!
# Types of operations

The kind of a result is looked up in a table under the operator and the operands' kinds.
Concatenation adds the lengths of its operands and decimal arithmetic takes the larger
precision and the larger scale.
-/
namespace SqlAnalysis

/-- An entry in the table of operations, for one or more operators. -/
structure Operation where
  operators : List BinaryOperator
  left : TypeKind
  right : TypeKind
  result : TypeKind
  /-- Whether the operands can change places. -/
  commutative : Bool

namespace Operation

/-- Whether the entry is about `a op b`. -/
def Covers (o : Operation) (op : BinaryOperator) (a b : TypeKind) : Prop :=
  op ∈ o.operators ∧
    (a = o.left ∧ b = o.right ∨ o.commutative = true ∧ a = o.right ∧ b = o.left)

instance (o : Operation) (op : BinaryOperator) (a b : TypeKind) : Decidable (o.Covers op a b) :=
  inferInstanceAs (Decidable (_ ∧ _))

/-- The entries for all operands from two lists. -/
def pairwise (operators : List BinaryOperator) (lefts rights : List TypeKind) (result : TypeKind)
    (commutative : Bool) : List Operation :=
  lefts.flatMap fun left => rights.map fun right => ⟨operators, left, right, result, commutative⟩

def numberKinds : List TypeKind := [.integer, .real, .numeric, .decimal]

def textKinds : List TypeKind := [.varchar, .char, .text]

def temporalKinds : List TypeKind := [.date, .datetime]

def arithmeticOperators : List BinaryOperator := [.add, .subtract, .multiply, .divide, .modulo]

def orderingOperators : List BinaryOperator := [.eq, .notEq, .lt, .le, .gt, .ge]

def arithmetic : List Operation :=
  [⟨arithmeticOperators, .integer, .integer, .integer, false⟩,
    ⟨arithmeticOperators, .real, .real, .real, false⟩,
    ⟨arithmeticOperators, .numeric, .numeric, .numeric, false⟩,
    ⟨arithmeticOperators, .decimal, .decimal, .decimal, false⟩,
    ⟨arithmeticOperators, .integer, .real, .real, true⟩,
    ⟨arithmeticOperators, .integer, .numeric, .numeric, true⟩,
    ⟨arithmeticOperators, .real, .numeric, .numeric, true⟩,
    ⟨arithmeticOperators, .decimal, .integer, .decimal, true⟩,
    ⟨arithmeticOperators, .decimal, .real, .real, true⟩,
    ⟨arithmeticOperators, .decimal, .numeric, .numeric, true⟩]

/-- The sum of two texts of variable length is a concatenation as well. -/
def concatenation : List Operation :=
  [⟨[.concat, .add], .varchar, .varchar, .varchar, false⟩,
    ⟨[.concat], .char, .char, .varchar, false⟩,
    ⟨[.concat], .varchar, .char, .varchar, true⟩] ++
  pairwise [.concat] [.text] textKinds .text true ++
  [.integer, .real].flatMap fun number =>
    [⟨[.concat], .varchar, number, .varchar, true⟩,
      ⟨[.concat], .char, number, .varchar, true⟩,
      ⟨[.concat], .text, number, .text, true⟩]

def ordering : List Operation :=
  pairwise orderingOperators numberKinds numberKinds .boolean false ++
  pairwise orderingOperators textKinds textKinds .boolean false ++
  pairwise orderingOperators textKinds temporalKinds .boolean true ++
  pairwise orderingOperators temporalKinds temporalKinds .boolean false

def patterns : List Operation :=
  pairwise [.like, .notLike] textKinds textKinds .boolean false

/-- Operands that can be told apart and have no order. -/
def equality : List Operation :=
  [⟨[.eq, .notEq], .boolean, .boolean, .boolean, false⟩,
    ⟨[.eq, .notEq], .boolean, .integer, .boolean, true⟩,
    ⟨[.eq, .notEq], .blob, .blob, .boolean, false⟩]

def logic : List Operation :=
  [⟨[.and, .or], .boolean, .boolean, .boolean, false⟩]

/-- The table of operations. -/
def table : List Operation :=
  arithmetic ++ concatenation ++ ordering ++ patterns ++ equality ++ logic

/-- The kind of `a op b` according to some entries. A later one replaces an earlier one. -/
def lookup? (entries : List Operation) (op : BinaryOperator) (a b : TypeKind) : Option TypeKind :=
  entries.foldl (fun found o => if o.Covers op a b then some o.result else found) none

end Operation

/-- The kind of `a op b`, if the operator is defined on the two. -/
def TypeKind.operate? (op : BinaryOperator) (a b : TypeKind) : Option TypeKind :=
  Operation.lookup? Operation.table op a b

namespace SqlType

/-- Entry by entry the larger of two parameter lists; the longer one's rest is kept. -/
def maxParams : List Nat → List Nat → List Nat
  | [], ys => ys
  | xs, [] => xs
  | x :: xs, y :: ys => max x y :: maxParams xs ys

/-- The parameters that an operand brings to decimal arithmetic. -/
def decimalParams (t : SqlType) : List Nat :=
  if t.kind = .decimal then t.params else []

/-- The length of a concatenation: known if both operands have one parameter. -/
def joinedLength (a b : SqlType) : List Nat :=
  match a.params, b.params with
  | [m], [n] => [min (m + n) Text.maxWord]
  | _, _ => []

/-- The type of `a op b`, if the operator is defined on the two. -/
def operate? (op : BinaryOperator) (a b : SqlType) : Option SqlType :=
  (TypeKind.operate? op a.kind b.kind).map fun kind =>
    match kind with
    | .varchar => ⟨.varchar, joinedLength a b⟩
    | .decimal => ⟨.decimal, maxParams a.decimalParams b.decimalParams⟩
    | _ => plain kind

/-- The type of `op t`, if the operator is defined on it. -/
def operateUnary? (op : UnaryOperator) (t : SqlType) : Option SqlType :=
  match op with
  | .negate => if t.kind.isNumber then some t else none
  | .not => if t.kind = .boolean then some (plain .boolean) else none

end SqlType
end SqlAnalysis
