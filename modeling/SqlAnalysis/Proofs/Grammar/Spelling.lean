import SqlAnalysis.Grammar.Query
import SqlAnalysis.Proofs.Syntax.Grouping
import SqlAnalysis.Proofs.Token.Outline

/-!
# How expressions and queries are spelled

A relation between trees and the tokens they are read from, written down apart
from the parsers. It says which tokens stand where, and in which order; notes and
spans are left open. Two trees of one shape may be spelled alike: a plus sign
before an operand, `ALL`, and `AS` before an alias leave no trace in a tree.

The rules for one construct are stated over relations for the expressions and
queries inside it. `Rules` collects them: a pair of relations that obeys the rules
holds of everything the parsers build. The least such pair is `Expr.Spelled` and
`Select.Spelled`.
-/
namespace SqlAnalysis

/-! ### Pieces of a token list -/

section Pieces

variable {α : Type}

/-- Nothing, or something with its tokens. -/
inductive Optional (R : α → List Token → Prop) : Option α → List Token → Prop
  | none : Optional R none []
  | some {a ts} : R a ts → Optional R (some a) ts

/-- Something with its tokens after a token of a kind. -/
inductive Preceded (kind : TokenKind) (R : α → List Token → Prop) : α → List Token → Prop
  | mk {t a ts} : t.kind = kind → R a ts → Preceded kind R a (t :: ts)

theorem Preceded.ne_nil {kind : TokenKind} {R : α → List Token → Prop} {a : α} {ts : List Token} :
    Preceded kind R a ts → ts ≠ []
  | .mk _ _ => List.cons_ne_nil _ _

/-- Things whose tokens follow each other. -/
inductive Sequence (R : α → List Token → Prop) : List α → List Token → Prop
  | nil : Sequence R [] []
  | cons {a as ts us} : R a ts → Sequence R as us → Sequence R (a :: as) (ts ++ us)

/-- One or more things with commas between them. -/
inductive CommaList (R : α → List Token → Prop) : List α → List Token → Prop
  | mk {a as ts us} :
      R a ts → Sequence (Preceded .comma R) as us → CommaList R (a :: as) (ts ++ us)

/-- Things with commas between them, or none. -/
inductive Listed (R : α → List Token → Prop) : List α → List Token → Prop
  | empty : Listed R [] []
  | items {as ts} : CommaList R as ts → Listed R as ts

/-- Something between brackets. -/
inductive Bracketed (R : α → List Token → Prop) : α → List Token → Prop
  | mk {opening closing a ts} :
      opening.kind = .leftParen → R a ts → closing.kind = .rightParen →
      Bracketed R a (opening :: (ts ++ [closing]))

/-! What holds of everything spelled holds of all members of a piece. -/

variable {R : α → List Token → Prop} {p : α → Prop}

theorem Optional.all (h : ∀ a ts, R a ts → p a) {o : Option α} {ts : List Token} :
    Optional R o ts → ∀ a ∈ o, p a
  | .none => by simp
  | .some ha => by simpa using h _ _ ha

theorem Preceded.of (h : ∀ a ts, R a ts → p a) {kind : TokenKind} (a : α) (ts : List Token) :
    Preceded kind R a ts → p a
  | .mk _ ha => h _ _ ha

theorem Sequence.all (h : ∀ a ts, R a ts → p a) {as : List α} {ts : List Token}
    (hseq : Sequence R as ts) : ∀ a ∈ as, p a := by
  induction hseq with
  | nil => simp
  | cons ha _ ih => exact List.forall_mem_cons.mpr ⟨h _ _ ha, ih⟩

theorem CommaList.all (h : ∀ a ts, R a ts → p a) {as : List α} {ts : List Token} :
    CommaList R as ts → ∀ a ∈ as, p a
  | .mk ha hrest => List.forall_mem_cons.mpr ⟨h _ _ ha, hrest.all (Preceded.of h)⟩

theorem Listed.all (h : ∀ a ts, R a ts → p a) {as : List α} {ts : List Token} :
    Listed R as ts → ∀ a ∈ as, p a
  | .empty => by simp
  | .items hitems => hitems.all h

theorem Bracketed.of (h : ∀ a ts, R a ts → p a) {a : α} {ts : List Token} :
    Bracketed R a ts → p a
  | .mk _ ha _ => h _ _ ha

end Pieces

/-! ### Words -/

inductive Ident.Spelled : Ident → List Token → Prop
  | mk {ident : Ident} {t} :
      Parser.nameOf? t.kind = some (ident.name, ident.quoted) → ident.span = t.span →
      Spelled ident [t]

theorem Ident.Spelled.exists_span {name : Ident} {ts : List Token} :
    name.Spelled ts → ∃ t, ts = [t] ∧ name.span = t.span
  | .mk _ hspan => ⟨_, rfl, hspan⟩

theorem Ident.Spelled.runs {name : Ident} {ts : List Token} :
    name.Spelled ts → name.span.Runs ts
  | .mk (t := t) _ hspan => hspan ▸ .singleton t

theorem Ident.Spelled.eq_singleton {ident : Ident} {ts : List Token} :
    ident.Spelled ts → ∃ t, ts = [t]
  | .mk _ _ => ⟨_, rfl⟩

/-- An alias, with or without `AS`. -/
inductive AliasSpelled : Option Ident → List Token → Prop
  | none : AliasSpelled none []
  | plain {ident t} :
      Parser.isOwnName t.kind → ident.Spelled [t] → AliasSpelled (some ident) [t]
  | marked {ident mark ts} :
      mark.kind = .keyword .AS → ident.Spelled ts → AliasSpelled (some ident) (mark :: ts)

/-- `DISTINCT`, or else `ALL` or nothing. -/
inductive QuantifierSpelled : Bool → List Token → Prop
  | distinct {t} : t.kind = .keyword .DISTINCT → QuantifierSpelled true [t]
  | all {t} : t.kind = .keyword .ALL → QuantifierSpelled false [t]
  | none : QuantifierSpelled false []

/-- The tokens of an operator. -/
def BinaryOperator.words : BinaryOperator → List TokenKind
  | .or => [.keyword .OR]
  | .and => [.keyword .AND]
  | .eq => [.eq]
  | .notEq => [.notEq]
  | .lt => [.lt]
  | .le => [.le]
  | .gt => [.gt]
  | .ge => [.ge]
  | .like => [.keyword .LIKE]
  | .notLike => [.keyword .NOT, .keyword .LIKE]
  | .concat => [.concat]
  | .add => [.plus]
  | .subtract => [.minus]
  | .multiply => [.star]
  | .divide => [.slash]
  | .modulo => [.percent]
  | .member => [.keyword .IN]
  | .notMember => [.keyword .NOT, .keyword .IN]

theorem BinaryOperator.length_words_pos (op : BinaryOperator) : 0 < op.words.length := by
  cases op <;> decide

def UnaryOperator.word : UnaryOperator → TokenKind
  | .negate => .minus
  | .not => .keyword .NOT

def JoinOperator.words : JoinOperator → List TokenKind
  | .comma => [.comma]
  | .plain => [.keyword .JOIN]
  | .inner => [.keyword .INNER, .keyword .JOIN]
  | .left => [.keyword .LEFT, .keyword .JOIN]
  | .leftOuter => [.keyword .LEFT, .keyword .OUTER, .keyword .JOIN]
  | .cross => [.keyword .CROSS, .keyword .JOIN]

theorem JoinOperator.length_words_pos (operator : JoinOperator) : 0 < operator.words.length := by
  cases operator <;> decide

/-- The words before a joined source. A comma cannot be natural. -/
def joinWords : Bool → JoinOperator → List TokenKind
  | true, .comma => []
  | true, operator => .keyword .NATURAL :: operator.words
  | false, operator => operator.words

def directionWords : Option SortDirection → List TokenKind
  | none => []
  | some .ascending => [.keyword .ASC]
  | some .descending => [.keyword .DESC]

def nullsWords : Option NullsOrder → List TokenKind
  | none => []
  | some .first => [.keyword .NULLS, .keyword .FIRST]
  | some .last => [.keyword .NULLS, .keyword .LAST]

/-! ### Queries over what they contain -/

section Queries

variable (E : Expr → List Token → Prop) (S : Select → List Token → Prop)

inductive ResultColumn.SpelledWith : ResultColumn → List Token → Prop
  | star {t} : t.kind = .star → SpelledWith (.star t.span) [t]
  | tableStar {table ts point star} :
      table.Spelled ts → point.kind = .dot → star.kind = .star →
      SpelledWith (.tableStar table) (ts ++ [point, star])
  | expr {value label ts us} :
      E value ts → AliasSpelled label us → SpelledWith (.expr value label) (ts ++ us)

inductive Source.SpelledWith : Source → List Token → Prop
  | table {name label ts us} :
      name.Spelled ts → AliasSpelled label us → SpelledWith (.table name label none) (ts ++ us)
  | subquery {select label span ts us} :
      Bracketed S select ts → AliasSpelled label us →
      SpelledWith (.subquery select label span) (ts ++ us)

inductive Join.SpelledWith : Join → List Token → Prop
  | mk {natural operator source on span words ts us} :
      words.map Token.kind = joinWords natural operator → words ≠ [] →
      Source.SpelledWith S source ts → Optional (Preceded (.keyword .ON) E) on us →
      SpelledWith ⟨natural, operator, source, on, span⟩ (words ++ ts ++ us)

inductive FromClause.SpelledWith : FromClause → List Token → Prop
  | mk {source joins ts us} :
      Source.SpelledWith S source ts → Sequence (Join.SpelledWith E S) joins us →
      SpelledWith ⟨source, joins⟩ (ts ++ us)

inductive GroupBy.SpelledWith : GroupBy → List Token → Prop
  | mk {exprs having span group mark ts us} :
      group.kind = .keyword .GROUP → mark.kind = .keyword .BY → CommaList E exprs ts →
      Optional (Preceded (.keyword .HAVING) E) having us →
      SpelledWith ⟨exprs, having, span⟩ (group :: mark :: (ts ++ us))

inductive OrderingTerm.SpelledWith : OrderingTerm → List Token → Prop
  | mk {expr direction nulls ts us vs} :
      E expr ts → us.map Token.kind = directionWords direction →
      vs.map Token.kind = nullsWords nulls →
      SpelledWith ⟨expr, direction, nulls⟩ (ts ++ us ++ vs)

inductive OrderBy.SpelledWith : OrderBy → List Token → Prop
  | mk {terms span order mark ts} :
      order.kind = .keyword .ORDER → mark.kind = .keyword .BY →
      CommaList (OrderingTerm.SpelledWith E) terms ts →
      SpelledWith ⟨terms, span⟩ (order :: mark :: ts)

/-- A limit. With a comma the offset comes first. -/
inductive Limit.SpelledWith : Limit → List Token → Prop
  | plain {count span word ts} :
      word.kind = .keyword .LIMIT → E count ts → SpelledWith ⟨count, none, span⟩ (word :: ts)
  | offset {count skipped span word mark ts us} :
      word.kind = .keyword .LIMIT → E count ts → mark.kind = .keyword .OFFSET → E skipped us →
      SpelledWith ⟨count, some skipped, span⟩ (word :: (ts ++ mark :: us))
  | comma {count skipped span word mark ts us} :
      word.kind = .keyword .LIMIT → E skipped ts → mark.kind = .comma → E count us →
      SpelledWith ⟨count, some skipped, span⟩ (word :: (ts ++ mark :: us))

inductive Select.SpelledWith : Select → List Token → Prop
  | mk {distinct columns source condition groupBy orderBy limit span word qs cs fs ws gs os ls} :
      word.kind = .keyword .SELECT → QuantifierSpelled distinct qs →
      CommaList (ResultColumn.SpelledWith E) columns cs →
      Optional (Preceded (.keyword .FROM) (FromClause.SpelledWith E S)) source fs →
      Optional (Preceded (.keyword .WHERE) E) condition ws →
      Optional (GroupBy.SpelledWith E) groupBy gs →
      Optional (OrderBy.SpelledWith E) orderBy os →
      Optional (Limit.SpelledWith E) limit ls →
      SpelledWith ⟨distinct, columns, source, condition, groupBy, orderBy, limit, span, none⟩
        (word :: (qs ++ cs ++ fs ++ ws ++ gs ++ os ++ ls))

end Queries

mutual

inductive Expr.Spelled : Expr → List Token → Prop
  | constant {note value t} :
      Parser.literalOf? t.kind = some value → Expr.Spelled (.constant note value) [t]
  | name {note ident ts} : ident.Spelled ts → Expr.Spelled (.name note ident) ts
  | dot {note left right point ts us} :
      Expr.Spelled left ts → point.kind = .dot → right.Spelled us →
      Expr.Spelled (.dot note left right) (ts ++ point :: us)
  | binary {note left op right words ts us} :
      Expr.Spelled left ts → words.map Token.kind = op.words → Expr.Spelled right us →
      Expr.Spelled (.binary note left op right) (ts ++ words ++ us)
  | unary {note op operand sign ts} :
      sign.kind = op.word → Expr.Spelled operand ts →
      Expr.Spelled (.unary note op operand) (sign :: ts)
  /-- A plus sign is dropped. -/
  | plus {note e sign ts} :
      sign.kind = .plus → Expr.Spelled e ts → Expr.Spelled (e.withNote note) (sign :: ts)
  | call {note function args ts us} :
      function.Spelled ts → Bracketed (Listed Expr.Spelled) args us →
      Expr.Spelled (.call note function args) (ts ++ us)
  | callStar {note function opening star closing ts} :
      function.Spelled ts → opening.kind = .leftParen → star.kind = .star →
      closing.kind = .rightParen →
      Expr.Spelled (.callStar note function star.span) (ts ++ [opening, star, closing])
  | brackets {note inner ts} :
      Bracketed Expr.Spelled inner ts → Expr.Spelled (.brackets note inner) ts
  | list {note items ts} :
      Bracketed (Listed Expr.Spelled) items ts → Expr.Spelled (.list note items) ts
  | subquery {note select ts} :
      Bracketed Select.Spelled select ts → Expr.Spelled (.subquery note select) ts

inductive Select.Spelled : Select → List Token → Prop
  | mk {select ts} :
      Select.SpelledWith Expr.Spelled Select.Spelled select ts → Select.Spelled select ts

end

theorem Select.Spelled.ne_nil {select : Select} {ts : List Token} : select.Spelled ts → ts ≠ []
  | .mk (.mk _ _ _ _ _ _ _ _) => List.cons_ne_nil _ _

/-- A relation for expressions and one for queries that obey the rules of the
grammar. The span of an expression may be assumed to run over all of its tokens, and the
operands of an operation to be grouped. -/
structure Rules (E : Expr → List Token → Prop) (S : Select → List Token → Prop) : Prop where
  constant {note value t} :
    Parser.literalOf? t.kind = some value → note.span.Runs [t] → E (.constant note value) [t]
  name {note ident ts} : ident.Spelled ts → note.span.Runs ts → E (.name note ident) ts
  dot {note left right point ts us} :
    E left ts → point.kind = .dot → right.Spelled us → note.span.Runs (ts ++ point :: us) →
    E (.dot note left right) (ts ++ point :: us)
  binary {note left op right words ts us} :
    E left ts → words.map Token.kind = op.words → E right us →
    (Expr.binary note left op right).IsGrouped → note.span.Runs (ts ++ words ++ us) →
    E (.binary note left op right) (ts ++ words ++ us)
  unary {note op operand sign ts} :
    sign.kind = op.word → E operand ts → (Expr.unary note op operand).IsGrouped →
    note.span.Runs (sign :: ts) → E (.unary note op operand) (sign :: ts)
  plus {note e sign ts} :
    sign.kind = .plus → E e ts → e.operator? = none → note.span.Runs (sign :: ts) →
    E (e.withNote note) (sign :: ts)
  call {note function args ts us} :
    function.Spelled ts → Bracketed (Listed E) args us → note.span.Runs (ts ++ us) →
    E (.call note function args) (ts ++ us)
  callStar {note function opening star closing ts} :
    function.Spelled ts → opening.kind = .leftParen → star.kind = .star →
    closing.kind = .rightParen → note.span.Runs (ts ++ [opening, star, closing]) →
    E (.callStar note function star.span) (ts ++ [opening, star, closing])
  brackets {note inner ts} :
    Bracketed E inner ts → note.span.Runs ts → E (.brackets note inner) ts
  list {note items ts} :
    Bracketed (Listed E) items ts → note.span.Runs ts → E (.list note items) ts
  subquery {note select ts} :
    Bracketed S select ts → note.span.Runs ts → E (.subquery note select) ts
  select {select ts} : Select.SpelledWith E S select ts → S select ts

theorem spelled_rules : Rules Expr.Spelled Select.Spelled where
  constant value _ := .constant value
  name ident _ := .name ident
  dot left point right _ := .dot left point right
  binary left words right _ _ := .binary left words right
  unary sign operand _ _ := .unary sign operand
  plus sign e _ _ := .plus sign e
  call function args _ := .call function args
  callStar function opening star closing _ := .callStar function opening star closing
  brackets inner _ := .brackets inner
  list items _ := .list items
  subquery select _ := .subquery select
  select := .mk

/-- The weakest relations, for where only the reading matters. -/
theorem trivial_rules : Rules (fun _ _ => True) (fun _ _ => True) := by
  constructor <;> intros <;> trivial

end SqlAnalysis
