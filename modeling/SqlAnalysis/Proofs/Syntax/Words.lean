import SqlAnalysis.Proofs.Grammar.Spelling
import SqlAnalysis.Syntax.Render
import SqlAnalysis.Token.Scan

/-!
# The tokens of a canonical text

What the lexer should see in the canonical text of a tree: the tokens without the
blanks between them. They are written down clause by clause, in the order in which
the text is put together, with brackets around the operands that are operations.
-/
namespace SqlAnalysis

/-! ### Pieces -/

/-- Tokens between brackets. -/
def enclosed (words : List TokenKind) : List TokenKind :=
  .leftParen :: (words ++ [.rightParen])

/-- Groups of tokens with a comma before each but the first. -/
def commaWords : List (List TokenKind) → List TokenKind
  | [] => []
  | first :: rest => first ++ rest.flatMap (.comma :: ·)

/-- The tokens of an operand. -/
def encloseIf (operation : Bool) (words : List TokenKind) : List TokenKind :=
  if operation then enclosed words else words

namespace Ident

/-- Whether the name is written between quotes. -/
def writtenQuoted (ident : Ident) : Bool :=
  ident.quoted || needsQuotes ident.name

def word (ident : Ident) : TokenKind :=
  if ident.writtenQuoted then .quotedName ident.name else Scan.wordKind ident.name.toList

end Ident

/-- The token of a literal. No literal that is read is negative. -/
def Literal.word : Literal → TokenKind
  | .integer i => .integer i.toNat
  | .float x => .float x
  | .boolean true => .keyword .TRUE
  | .boolean false => .keyword .FALSE
  | .string s => .string s
  | .character c => .character c
  | .null => .keyword .NULL

def aliasWords : Option Ident → List TokenKind
  | none => []
  | some label => [.keyword .AS, label.word]

def quantifierWords (distinct : Bool) : List TokenKind :=
  if distinct then [.keyword .DISTINCT] else []

/-! ### Expressions and queries -/

mutual

@[simp] def Expr.words : Expr → List TokenKind
  | .constant _ value => [value.word]
  | .name _ ident => [ident.word]
  | .dot _ left right => left.words ++ [.dot, right.word]
  | .binary _ left op right =>
    encloseIf left.isOperation left.words ++ op.words ++ encloseIf right.isOperation right.words
  | .unary _ op operand => op.word :: encloseIf operand.isOperation operand.words
  | .call _ function args => function.word :: enclosed (commaWords (exprWords args))
  | .callStar _ function _ => function.word :: enclosed [.star]
  | .brackets _ inner => enclosed inner.words
  | .list _ items => enclosed (commaWords (exprWords items))
  | .subquery _ select => enclosed select.words

def exprWords : List Expr → List (List TokenKind)
  | [] => []
  | e :: es => e.words :: exprWords es

def columnWords : List ResultColumn → List (List TokenKind)
  | [] => []
  | .star _ :: columns => [.star] :: columnWords columns
  | .tableStar table :: columns => [table.word, .dot, .star] :: columnWords columns
  | .expr value label :: columns => (value.words ++ aliasWords label) :: columnWords columns

def Source.words : Source → List TokenKind
  | .table name label _ => name.word :: aliasWords label
  | .subquery select label _ => enclosed select.words ++ aliasWords label

def joinedWords : List Join → List TokenKind
  | [] => []
  | ⟨natural, op, source, none, _⟩ :: joins =>
    joinWords natural op ++ source.words ++ joinedWords joins
  | ⟨natural, op, source, some on, _⟩ :: joins =>
    joinWords natural op ++ source.words ++ .keyword .ON :: on.words ++ joinedWords joins

def termWords : List OrderingTerm → List (List TokenKind)
  | [] => []
  | ⟨expr, direction, nulls⟩ :: terms =>
    (expr.words ++ directionWords direction ++ nullsWords nulls) :: termWords terms

def Select.words : Select → List TokenKind
  | ⟨distinct, columns, source, condition, groupBy, orderBy, limit, _, _⟩ =>
    .keyword .SELECT :: quantifierWords distinct ++ commaWords (columnWords columns) ++
    (match source with
      | some ⟨source, joins⟩ => .keyword .FROM :: source.words ++ joinedWords joins
      | none => []) ++
    (match condition with
      | some condition => .keyword .WHERE :: condition.words
      | none => []) ++
    (match groupBy with
      | some ⟨exprs, some having, _⟩ =>
        .keyword .GROUP :: .keyword .BY :: commaWords (exprWords exprs) ++
          .keyword .HAVING :: having.words
      | some ⟨exprs, none, _⟩ => .keyword .GROUP :: .keyword .BY :: commaWords (exprWords exprs)
      | none => []) ++
    (match orderBy with
      | some ⟨terms, _⟩ => .keyword .ORDER :: .keyword .BY :: commaWords (termWords terms)
      | none => []) ++
    (match limit with
      | some ⟨limit, some offset, _⟩ =>
        .keyword .LIMIT :: limit.words ++ .keyword .OFFSET :: offset.words
      | some ⟨limit, none, _⟩ => .keyword .LIMIT :: limit.words
      | none => [])

end

/-! ### Clause by clause

The text and the tokens of the parts of a query, each as a function of its own. -/

def ResultColumn.render : ResultColumn → String
  | .star _ => "*"
  | .tableStar table => table.render ++ ".*"
  | .expr value label => value.render ++ renderAlias label

def ResultColumn.words : ResultColumn → List TokenKind
  | .star _ => [.star]
  | .tableStar table => [table.word, .dot, .star]
  | .expr value label => value.words ++ aliasWords label

def Join.render : Join → String
  | ⟨natural, op, source, none, _⟩ => renderJoinWords natural op ++ source.render
  | ⟨natural, op, source, some on, _⟩ =>
    renderJoinWords natural op ++ source.render ++ " ON " ++ on.render

def Join.words : Join → List TokenKind
  | ⟨natural, op, source, none, _⟩ => joinWords natural op ++ source.words
  | ⟨natural, op, source, some on, _⟩ =>
    joinWords natural op ++ source.words ++ .keyword .ON :: on.words

def OrderingTerm.render (term : OrderingTerm) : String :=
  term.expr.render ++ renderDirection term.direction ++ renderNulls term.nulls

def OrderingTerm.words (term : OrderingTerm) : List TokenKind :=
  term.expr.words ++ directionWords term.direction ++ nullsWords term.nulls

def renderFrom (clause : FromClause) : String :=
  " FROM " ++ clause.source.render ++ renderJoins clause.joins

def fromWords (clause : FromClause) : List TokenKind :=
  .keyword .FROM :: clause.source.words ++ joinedWords clause.joins

def renderWhere (condition : Expr) : String :=
  " WHERE " ++ condition.render

def whereWords (condition : Expr) : List TokenKind :=
  .keyword .WHERE :: condition.words

def renderGroupBy : GroupBy → String
  | ⟨exprs, none, _⟩ => " GROUP BY " ++ commaList (renderExprs exprs)
  | ⟨exprs, some having, _⟩ =>
    " GROUP BY " ++ commaList (renderExprs exprs) ++ " HAVING " ++ having.render

def groupByWords : GroupBy → List TokenKind
  | ⟨exprs, none, _⟩ => .keyword .GROUP :: .keyword .BY :: commaWords (exprWords exprs)
  | ⟨exprs, some having, _⟩ =>
    .keyword .GROUP :: .keyword .BY :: commaWords (exprWords exprs) ++
      .keyword .HAVING :: having.words

def renderOrderBy (orderBy : OrderBy) : String :=
  " ORDER BY " ++ commaList (renderTerms orderBy.terms)

def orderByWords (orderBy : OrderBy) : List TokenKind :=
  .keyword .ORDER :: .keyword .BY :: commaWords (termWords orderBy.terms)

def renderLimit : Limit → String
  | ⟨limit, none, _⟩ => " LIMIT " ++ limit.render
  | ⟨limit, some offset, _⟩ => " LIMIT " ++ limit.render ++ " OFFSET " ++ offset.render

def limitWords : Limit → List TokenKind
  | ⟨limit, none, _⟩ => .keyword .LIMIT :: limit.words
  | ⟨limit, some offset, _⟩ => .keyword .LIMIT :: limit.words ++ .keyword .OFFSET :: offset.words

theorem renderExprs_eq (es : List Expr) : renderExprs es = es.map Expr.render := by
  induction es with
  | nil => rfl
  | cons e es ih => simp [renderExprs, ih]

theorem exprWords_eq (es : List Expr) : exprWords es = es.map Expr.words := by
  induction es with
  | nil => rfl
  | cons e es ih => simp [exprWords, ih]

theorem renderColumns_eq (columns : List ResultColumn) :
    renderColumns columns = columns.map ResultColumn.render := by
  induction columns with
  | nil => rfl
  | cons column columns ih => cases column <;> simp [renderColumns, ResultColumn.render, ih]

theorem columnWords_eq (columns : List ResultColumn) :
    columnWords columns = columns.map ResultColumn.words := by
  induction columns with
  | nil => rfl
  | cons column columns ih => cases column <;> simp [columnWords, ResultColumn.words, ih]

theorem renderJoins_eq (joins : List Join) :
    renderJoins joins = String.join (joins.map Join.render) := by
  induction joins with
  | nil => rfl
  | cons join joins ih =>
    obtain ⟨natural, operator, source, on, span⟩ := join
    cases on <;> simp [renderJoins, Join.render, ih]

theorem joinedWords_eq (joins : List Join) : joinedWords joins = joins.flatMap Join.words := by
  induction joins with
  | nil => rfl
  | cons join joins ih =>
    obtain ⟨natural, operator, source, on, span⟩ := join
    cases on <;> simp [joinedWords, Join.words, ih]

theorem renderTerms_eq (terms : List OrderingTerm) :
    renderTerms terms = terms.map OrderingTerm.render := by
  induction terms with
  | nil => rfl
  | cons term terms ih =>
    obtain ⟨expr, direction, nulls⟩ := term
    simp [renderTerms, OrderingTerm.render, ih]

theorem termWords_eq (terms : List OrderingTerm) :
    termWords terms = terms.map OrderingTerm.words := by
  induction terms with
  | nil => rfl
  | cons term terms ih =>
    obtain ⟨expr, direction, nulls⟩ := term
    simp [termWords, OrderingTerm.words, ih]

theorem Select.render_eq (s : Select) :
    s.render = "SELECT " ++ (if s.distinct then "DISTINCT " else "") ++
      commaList (renderColumns s.columns) ++ s.source.elim "" renderFrom ++
      s.condition.elim "" renderWhere ++ s.groupBy.elim "" renderGroupBy ++
      s.orderBy.elim "" renderOrderBy ++ s.limit.elim "" renderLimit := by
  rcases s with ⟨_, _, _ | ⟨_, _⟩, _ | _, _ | ⟨_, _ | _, _⟩, _ | ⟨_, _⟩, _ | ⟨_, _ | _, _⟩, _, _⟩ <;> rfl

theorem Select.words_eq (s : Select) :
    s.words = .keyword .SELECT :: quantifierWords s.distinct ++
      commaWords (columnWords s.columns) ++ s.source.elim [] fromWords ++
      s.condition.elim [] whereWords ++ s.groupBy.elim [] groupByWords ++
      s.orderBy.elim [] orderByWords ++ s.limit.elim [] limitWords := by
  rcases s with ⟨_, _, _ | ⟨_, _⟩, _ | _, _ | ⟨_, _ | _, _⟩, _ | ⟨_, _⟩, _ | ⟨_, _ | _, _⟩, _, _⟩ <;> rfl

/-! Notes are not shown. -/

namespace Expr

theorem render_withNote (note : Note) (e : Expr) : (e.withNote note).render = e.render := by
  rcases e with _ | _ | _ | _ | ⟨_, _ | _, _⟩ | _ | _ | _ | _ | _ <;> rfl

theorem words_withNote (note : Note) (e : Expr) : (e.withNote note).words = e.words := by
  cases e <;> rfl

theorem isOperation_withNote (note : Note) (e : Expr) :
    (e.withNote note).isOperation = e.isOperation := by
  cases e <;> rfl

end Expr

/-! ### Statements that change rows -/

def ValueRow.words (row : ValueRow) : List TokenKind :=
  enclosed (commaWords (row.values.map Expr.words))

/-- The columns of a table in brackets, or nothing for none. -/
def nameListWords : List Ident → List TokenKind
  | [] => []
  | names => enclosed (commaWords (names.map fun name => [name.word]))

def Insert.words (s : Insert) : List TokenKind :=
  .keyword .INSERT :: .keyword .INTO :: s.table.word :: nameListWords s.columns ++
    .keyword .VALUES :: commaWords (s.rows.map ValueRow.words)

def Assignment.words (a : Assignment) : List TokenKind :=
  a.column.word :: .eq :: a.value.words

def Update.words (s : Update) : List TokenKind :=
  .keyword .UPDATE :: s.table.word :: .keyword .SET ::
    commaWords (s.assignments.map Assignment.words) ++ s.condition.elim [] whereWords

def Delete.words (s : Delete) : List TokenKind :=
  .keyword .DELETE :: .keyword .FROM :: s.table.word :: s.condition.elim [] whereWords

/-! ### Statements that define tables -/

/-- The words between the blanks of a type name. -/
def TypeName.nameWords (t : TypeName) : List String :=
  (Text.split ' ' t.name.toList).map String.ofList

/-- The parameters of a type in brackets, or nothing for none. -/
def paramWords : List Nat → List TokenKind
  | [] => []
  | params => enclosed (commaWords (params.map fun n => [.integer n]))

def TypeName.words (t : TypeName) : List TokenKind :=
  t.nameWords.map .name ++ paramWords t.params

def identWords (names : List Ident) : List TokenKind :=
  enclosed (commaWords (names.map fun name => [name.word]))

def ForeignKeyClause.words (clause : ForeignKeyClause) : List TokenKind :=
  .keyword .REFERENCES :: clause.table.word :: nameListWords clause.columns

def ColumnRule.words : ColumnRule → List TokenKind
  | .notNull => [.keyword .NOT, .keyword .NULL]
  | .null => [.keyword .NULL]
  | .default value =>
    .keyword .DEFAULT :: if value.literal?.isSome then value.words else enclosed value.words
  | .primaryKey direction autoincrement =>
    .keyword .PRIMARY :: .keyword .KEY :: directionWords direction ++
      if autoincrement then [.keyword .AUTOINCREMENT] else []
  | .unique => [.keyword .UNIQUE]
  | .references clause => clause.words
  | .collate collation => [.keyword .COLLATE, collation.word]
  | .check condition => .keyword .CHECK :: enclosed condition.words

def constraintNameWords : Option Ident → List TokenKind
  | some name => [.keyword .CONSTRAINT, name.word]
  | none => []

def ColumnConstraint.words (c : ColumnConstraint) : List TokenKind :=
  constraintNameWords c.name ++ c.rule.words

def ColumnDef.words (d : ColumnDef) : List TokenKind :=
  d.name.word :: d.typeName.elim [] TypeName.words ++ d.constraints.flatMap ColumnConstraint.words

def TableRule.words : TableRule → List TokenKind
  | .primaryKey columns => .keyword .PRIMARY :: .keyword .KEY :: identWords columns
  | .unique columns => .keyword .UNIQUE :: identWords columns
  | .check condition => .keyword .CHECK :: enclosed condition.words
  | .foreignKey columns clause =>
    .keyword .FOREIGN :: .keyword .KEY :: identWords columns ++ clause.words

def TableConstraint.words (c : TableConstraint) : List TokenKind :=
  constraintNameWords c.name ++ c.rule.words

/-- The columns and then the constraints of a table, as they stand in its text. -/
def CreateTable.items (s : CreateTable) : List (ColumnDef ⊕ TableConstraint) :=
  s.columns.map .inl ++ s.constraints.map .inr

def CreateTable.words (s : CreateTable) : List TokenKind :=
  .keyword .CREATE :: .keyword .TABLE ::
    (if s.ifNotExists then [.keyword .IF, .keyword .NOT, .keyword .EXISTS] else []) ++
      s.name.word :: enclosed (commaWords (s.items.map (Sum.elim ColumnDef.words TableConstraint.words)))

end SqlAnalysis
