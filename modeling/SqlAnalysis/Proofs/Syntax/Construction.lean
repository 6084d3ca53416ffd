import SqlAnalysis.Proofs.Syntax.Words

/-!
# What trees are built of

A pair of predicates, one for expressions and one for queries, builds trees if it
passes from the parts of a tree to the tree wherever the grammar puts parts together.
It then holds of everything the parser gives for tokens that a canonical text can show
again: no string has a backslash, which would begin an escape, and the text of a
floating-point number is read as that number.
-/
namespace SqlAnalysis

/-- Whether the text of a number is read as the number itself. The number is finite and
has no sign. -/
structure Binary64.ReadsBack (x : Binary64) : Prop where
  finite : ∃ m q, x = .finite false m q
  unsigned? : Binary64.unsigned? false x.render.toList = some x

/-- Whether characters are those of a word. -/
def Scan.IsWord (cs : List Char) : Prop :=
  ∃ c more, cs = c :: more ∧ isNameStart c = true ∧ more.all isNameChar = true

/-- Whether a token of a source can be shown again in a canonical text. Words and
integers have the form that the lexer gives them. -/
def TokenKind.Plain : TokenKind → Prop
  | .integer n => n ≤ Scan.maxInteger
  | .float x => x.ReadsBack
  | .string s => s.toList.length ≠ 1 ∧ '\x5c' ∉ s.toList
  | .character c => c ≠ '\x5c'
  | .name text => Scan.IsWord text.toList ∧ Scan.wordKind text.toList = .name text
  | _ => True

/-- The literal is the one that its token is read as. -/
structure Literal.Plain (value : Literal) : Prop where
  word : value.word.Plain
  literalOf? : Parser.literalOf? value.word = some value

/-- The name is the one that its token is read as. -/
def Ident.Plain (ident : Ident) : Prop :=
  Parser.nameOf? ident.word = some (ident.name, ident.writtenQuoted)

/-- Whether an expression is a name, alone or after others with points between. -/
def Expr.IsPath : Expr → Prop
  | .name _ _ => True
  | .dot _ left _ => left.IsPath
  | _ => False

namespace Expr

theorem isPath_withNote (note : Note) (e : Expr) : (e.withNote note).IsPath ↔ e.IsPath := by
  cases e <;> exact Iff.rfl

theorem IsPath.isOperation {e : Expr} (h : e.IsPath) : e.isOperation = false := by
  cases e <;> first | rfl | exact h.elim

end Expr

/-! ### Queries -/

section

variable (P : Expr → Prop) (S : Select → Prop)

def ResultColumn.BuiltOf : ResultColumn → Prop
  | .star _ => True
  | .tableStar table => table.Plain
  | .expr value label => P value ∧ ∀ name ∈ label, name.Plain

inductive Source.BuiltOf : Source → Prop
  | table {name label} : name.Plain → (∀ name ∈ label, name.Plain) →
      Source.BuiltOf (.table name label none)
  | subquery {select label span} : S select → (∀ name ∈ label, name.Plain) →
      Source.BuiltOf (.subquery select label span)

/-- A comma cannot be natural. -/
structure Join.BuiltOf (join : Join) : Prop where
  operator : join.natural = true → join.operator ≠ .comma
  source : join.source.BuiltOf S
  on : ∀ e ∈ join.on, P e

structure FromClause.BuiltOf (clause : FromClause) : Prop where
  source : clause.source.BuiltOf S
  joins : ∀ join ∈ clause.joins, join.BuiltOf P S

structure GroupBy.BuiltOf (groupBy : GroupBy) : Prop where
  exprs_ne_nil : groupBy.exprs ≠ []
  exprs : ∀ e ∈ groupBy.exprs, P e
  having : ∀ e ∈ groupBy.having, P e

structure OrderBy.BuiltOf (orderBy : OrderBy) : Prop where
  terms_ne_nil : orderBy.terms ≠ []
  terms : ∀ term ∈ orderBy.terms, P term.expr

structure Limit.BuiltOf (limit : Limit) : Prop where
  count : P limit.limit
  offset : ∀ e ∈ limit.offset, P e

structure Select.BuiltOf (s : Select) : Prop where
  columns_ne_nil : s.columns ≠ []
  columns : ∀ column ∈ s.columns, column.BuiltOf P
  source : ∀ clause ∈ s.source, clause.BuiltOf P S
  condition : ∀ e ∈ s.condition, P e
  groupBy : ∀ groupBy ∈ s.groupBy, groupBy.BuiltOf P
  orderBy : ∀ orderBy ∈ s.orderBy, orderBy.BuiltOf P
  limit : ∀ limit ∈ s.limit, limit.BuiltOf P
  result : s.result = none

/-- What may stand on the right of an operator. Only there, and only after `IN`, a list
may have a single item. -/
inductive Expr.RightOf (op : BinaryOperator) : Expr → Prop
  | expr {e} : P e → Expr.RightOf op e
  | members {span items} : op.isMembership = true → (∀ e ∈ items, P e) →
      Expr.RightOf op (.list { span := span } items)

end

/-- A predicate on expressions and one on queries that hold of a tree if they hold of
its parts. -/
structure Builds (P : Expr → Prop) (S : Select → Prop) : Prop where
  constant {span value} : value.Plain → P (.constant { span := span } value)
  name {span ident} : ident.Plain → P (.name { span := span } ident)
  dot {span left right} : left.IsPath → P left → right.Plain →
    P (.dot { span := span } left right)
  binary {span left op right} : P left → right.RightOf P op →
    P (.binary { span := span } left op right)
  unary {span op operand} : P operand → P (.unary { span := span } op operand)
  /-- A plus sign is kept in the span only. -/
  plus {span e} : P e → P (e.withNote { e.note with span := span })
  call {span function args} : function.Plain → (∀ e ∈ args, P e) →
    P (.call { span := span } function args)
  callStar {span function star} : function.Plain → P (.callStar { span := span } function star)
  brackets {span inner} : P inner → P (.brackets { span := span } inner)
  list {span items} : 2 ≤ items.length → (∀ e ∈ items, P e) → P (.list { span := span } items)
  subquery {span select} : S select → P (.subquery { span := span } select)
  select {s} : s.BuiltOf P S → S s

/-! ### Statements that change rows -/

section

variable (P : Expr → Prop)

structure Insert.BuiltOf (s : Insert) : Prop where
  table : s.table.Plain
  columns : ∀ name ∈ s.columns, name.Plain
  rows_ne_nil : s.rows ≠ []
  rows : ∀ row ∈ s.rows, ∀ e ∈ row.values, P e
  binding : s.binding = none
  targets : s.targets = []

structure Assignment.BuiltOf (a : Assignment) : Prop where
  column : a.column.Plain
  value : P a.value
  binding : a.binding = none

structure Update.BuiltOf (s : Update) : Prop where
  table : s.table.Plain
  assignments_ne_nil : s.assignments ≠ []
  assignments : ∀ a ∈ s.assignments, a.BuiltOf P
  condition : ∀ e ∈ s.condition, P e
  binding : s.binding = none

structure Delete.BuiltOf (s : Delete) : Prop where
  table : s.table.Plain
  condition : ∀ e ∈ s.condition, P e
  binding : s.binding = none

end

/-! ### Statements that define tables -/

structure TypeName.Plain (t : TypeName) : Prop where
  words : ∀ word ∈ t.nameWords, TokenKind.Plain (.name word)
  params : ∀ n ∈ t.params, n ≤ Text.maxWord

namespace TypeName

theorem joinWith_nameWords (t : TypeName) : Text.joinWith " " t.nameWords = t.name := by
  have htext := Text.toList_joinWith ' ' t.nameWords
  have hwords : t.nameWords.map String.toList = Text.split ' ' t.name.toList := by
    simp [nameWords, Function.comp_def]
  rw [hwords, Text.join_split] at htext
  exact String.toList_inj.mp htext

/-- The words that a type name is made of are found again. -/
theorem nameWords_joinWith {words : List String} (hne : words ≠ [])
    (h : ∀ word ∈ words, TokenKind.Plain (.name word)) (params : List Nat) (span : Span) :
    nameWords ⟨Text.joinWith " " words, params, span⟩ = words := by
  have htext : (Text.joinWith " " words).toList = Text.join ' ' (words.map String.toList) :=
    Text.toList_joinWith ' ' words
  have hsplit : Text.split ' ' (Text.join ' ' (words.map String.toList)) = words.map String.toList := by
    refine Text.split_join ' ' (by simpa using hne) fun cs hcs hblank => ?_
    obtain ⟨word, hword, rfl⟩ := List.mem_map.mp hcs
    obtain ⟨c, more, hcs, hc, hmore⟩ := (h word hword).1
    rw [hcs] at hblank
    rcases List.mem_cons.mp hblank with rfl | hblank
    · cases hc
    · cases List.all_eq_true.mp hmore ' ' hblank
  rw [nameWords, htext, hsplit, List.map_map]
  simp [Function.comp_def]

end TypeName

structure ForeignKeyClause.Plain (clause : ForeignKeyClause) : Prop where
  table : clause.table.Plain
  columns : ∀ name ∈ clause.columns, name.Plain

def Literal.isNumber : Literal → Bool
  | .integer _ | .float _ => true
  | _ => false

section

variable (P : Expr → Prop)

/-- What may stand for the default of a column. -/
inductive Expr.DefaultOf : Expr → Prop
  | constant {span value} : value.Plain → Expr.DefaultOf (.constant { span := span } value)
  | negative {span span' value} : value.Plain → value.isNumber = true →
      Expr.DefaultOf (.unary { span := span } .negate (.constant { span := span' } value))
  | name {span ident} : ident.Plain → Expr.DefaultOf (.name { span := span } ident)
  | brackets {span inner} : P inner → Expr.DefaultOf (.brackets { span := span } inner)

def ColumnRule.BuiltOf : ColumnRule → Prop
  | .default value => value.DefaultOf P
  | .references clause => clause.Plain
  | .collate collation => collation.Plain
  | .check condition => P condition
  | _ => True

structure ColumnConstraint.BuiltOf (c : ColumnConstraint) : Prop where
  name : ∀ name ∈ c.name, name.Plain
  rule : c.rule.BuiltOf P

structure ColumnDef.BuiltOf (d : ColumnDef) : Prop where
  name : d.name.Plain
  typeName : ∀ t ∈ d.typeName, t.Plain
  constraints : ∀ c ∈ d.constraints, c.BuiltOf P
  type : d.type = none
  binding : d.binding = none

/-- The columns of a rule are no empty list. -/
def TableRule.BuiltOf : TableRule → Prop
  | .primaryKey columns => columns ≠ [] ∧ ∀ name ∈ columns, name.Plain
  | .unique columns => columns ≠ [] ∧ ∀ name ∈ columns, name.Plain
  | .check condition => P condition
  | .foreignKey columns clause => (columns ≠ [] ∧ ∀ name ∈ columns, name.Plain) ∧ clause.Plain

structure TableConstraint.BuiltOf (c : TableConstraint) : Prop where
  name : ∀ name ∈ c.name, name.Plain
  rule : c.rule.BuiltOf P

/-- A table has a column or a rule at least. -/
structure CreateTable.BuiltOf (s : CreateTable) : Prop where
  name : s.name.Plain
  items : s.items ≠ []
  columns : ∀ d ∈ s.columns, d.BuiltOf P
  constraints : ∀ c ∈ s.constraints, c.BuiltOf P
  binding : s.binding = none

/-- What statements are built of. Of changes to a table and of its removal nothing is
said. -/
def StatementBody.BuiltOf (S : Select → Prop) : StatementBody → Prop
  | .select s => S s
  | .insert s => s.BuiltOf P
  | .update s => s.BuiltOf P
  | .delete s => s.BuiltOf P
  | .createTable s => s.BuiltOf P
  | _ => True

end

theorem Expr.DefaultOf.built {P : Expr → Prop} {S : Select → Prop} (builds : Builds P S) {e : Expr}
    (h : e.DefaultOf P) : P e := by
  cases h with
  | constant hvalue => exact builds.constant hvalue
  | negative hvalue _ => exact builds.unary (builds.constant hvalue)
  | name hident => exact builds.name hident
  | brackets hinner => exact builds.brackets hinner

end SqlAnalysis
