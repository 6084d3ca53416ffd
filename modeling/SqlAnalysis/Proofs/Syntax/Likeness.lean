import SqlAnalysis.Proofs.Pointwise
import SqlAnalysis.Proofs.Text.Folding
import SqlAnalysis.Syntax.Render

/-!
# Trees up to case

Alike trees have the same shape and the same notes, and their names differ in case
only. Where types may be forgotten, the second tree may lack types of the first one.
-/
namespace SqlAnalysis

open Text

/-- The identifiers are one, up to the case of its name. -/
structure Ident.Like (a b : Ident) : Prop where
  name : foldCase a.name = foldCase b.name
  quoted : a.quoted = b.quoted
  span : a.span = b.span

section

variable (forget : Prop)

/-- The types are one, or the second is unknown where that is allowed. -/
def TypeLike (a b : Option SqlType) : Prop :=
  b = a ∨ forget ∧ b = none

structure Note.Like (a b : Note) : Prop where
  span : a.span = b.span
  type : TypeLike forget a.type b.type
  binding : a.binding = b.binding

mutual

inductive Expr.Like : Expr → Expr → Prop
  | constant {n n' : Note} {value : Literal} (note : n.Like forget n') :
    Expr.Like (.constant n value) (.constant n' value)
  | name {n n' : Note} {x x' : Ident} (note : n.Like forget n') (ident : x.Like x') :
    Expr.Like (.name n x) (.name n' x')
  | dot {n n' : Note} {e e' : Expr} {x x' : Ident} (note : n.Like forget n')
      (left : Expr.Like e e') (right : x.Like x') : Expr.Like (.dot n e x) (.dot n' e' x')
  | binary {n n' : Note} {e e' f f' : Expr} {op : BinaryOperator} (note : n.Like forget n')
      (left : Expr.Like e e') (right : Expr.Like f f') :
    Expr.Like (.binary n e op f) (.binary n' e' op f')
  | unary {n n' : Note} {op : UnaryOperator} {e e' : Expr} (note : n.Like forget n')
      (operand : Expr.Like e e') : Expr.Like (.unary n op e) (.unary n' op e')
  | call {n n' : Note} {x x' : Ident} {es es' : List Expr} (note : n.Like forget n')
      (function : x.Like x') (args : List.Forall₂ Expr.Like es es') :
    Expr.Like (.call n x es) (.call n' x' es')
  | callStar {n n' : Note} {x x' : Ident} {star : Span} (note : n.Like forget n')
      (function : x.Like x') : Expr.Like (.callStar n x star) (.callStar n' x' star)
  | brackets {n n' : Note} {e e' : Expr} (note : n.Like forget n') (inner : Expr.Like e e') :
    Expr.Like (.brackets n e) (.brackets n' e')
  | list {n n' : Note} {es es' : List Expr} (note : n.Like forget n')
      (items : List.Forall₂ Expr.Like es es') : Expr.Like (.list n es) (.list n' es')
  | subquery {n n' : Note} {s s' : Select} (note : n.Like forget n') (select : Select.Like s s') :
    Expr.Like (.subquery n s) (.subquery n' s')

inductive ResultColumn.Like : ResultColumn → ResultColumn → Prop
  | star (span : Span) : ResultColumn.Like (.star span) (.star span)
  | tableStar {x x' : Ident} (table : x.Like x') :
    ResultColumn.Like (.tableStar x) (.tableStar x')
  | expr {e e' : Expr} {a a' : Option Ident} (value : Expr.Like e e')
      (label : Option.Rel Ident.Like a a') : ResultColumn.Like (.expr e a) (.expr e' a')

inductive Source.Like : Source → Source → Prop
  | table {x x' : Ident} {a a' : Option Ident} {binding : Option TableId} (name : x.Like x')
      (label : Option.Rel Ident.Like a a') :
    Source.Like (.table x a binding) (.table x' a' binding)
  | subquery {s s' : Select} {a a' : Option Ident} {span : Span} (select : Select.Like s s')
      (label : Option.Rel Ident.Like a a') :
    Source.Like (.subquery s a span) (.subquery s' a' span)

inductive Join.Like : Join → Join → Prop
  | mk {natural : Bool} {op : JoinOperator} {s s' : Source} {e e' : Option Expr} {span : Span}
      (source : Source.Like s s') (on : Option.Rel Expr.Like e e') :
    Join.Like ⟨natural, op, s, e, span⟩ ⟨natural, op, s', e', span⟩

inductive FromClause.Like : FromClause → FromClause → Prop
  | mk {s s' : Source} {js js' : List Join} (source : Source.Like s s')
      (joins : List.Forall₂ Join.Like js js') : FromClause.Like ⟨s, js⟩ ⟨s', js'⟩

inductive GroupBy.Like : GroupBy → GroupBy → Prop
  | mk {es es' : List Expr} {e e' : Option Expr} {span : Span}
      (exprs : List.Forall₂ Expr.Like es es') (having : Option.Rel Expr.Like e e') :
    GroupBy.Like ⟨es, e, span⟩ ⟨es', e', span⟩

inductive OrderingTerm.Like : OrderingTerm → OrderingTerm → Prop
  | mk {e e' : Expr} {direction : Option SortDirection} {nulls : Option NullsOrder}
      (expr : Expr.Like e e') : OrderingTerm.Like ⟨e, direction, nulls⟩ ⟨e', direction, nulls⟩

inductive OrderBy.Like : OrderBy → OrderBy → Prop
  | mk {ts ts' : List OrderingTerm} {span : Span} (terms : List.Forall₂ OrderingTerm.Like ts ts') :
    OrderBy.Like ⟨ts, span⟩ ⟨ts', span⟩

inductive Limit.Like : Limit → Limit → Prop
  | mk {e e' : Expr} {o o' : Option Expr} {span : Span} (limit : Expr.Like e e')
      (offset : Option.Rel Expr.Like o o') : Limit.Like ⟨e, o, span⟩ ⟨e', o', span⟩

inductive Select.Like : Select → Select → Prop
  | mk {distinct : Bool} {cs cs' : List ResultColumn} {f f' : Option FromClause}
      {e e' : Option Expr} {g g' : Option GroupBy} {o o' : Option OrderBy} {l l' : Option Limit}
      {span : Span} {result : Option TableId} (columns : List.Forall₂ ResultColumn.Like cs cs')
      (source : Option.Rel FromClause.Like f f') (condition : Option.Rel Expr.Like e e')
      (groupBy : Option.Rel GroupBy.Like g g') (orderBy : Option.Rel OrderBy.Like o o')
      (limit : Option.Rel Limit.Like l l') :
    Select.Like ⟨distinct, cs, f, e, g, o, l, span, result⟩
      ⟨distinct, cs', f', e', g', o', l', span, result⟩

end

/-! ### Statements -/

structure ValueRow.Like (a b : ValueRow) : Prop where
  values : List.Forall₂ (Expr.Like forget) a.values b.values
  span : a.span = b.span

structure Insert.Like (a b : Insert) : Prop where
  table : a.table.Like b.table
  binding : a.binding = b.binding
  columns : List.Forall₂ Ident.Like a.columns b.columns
  rows : List.Forall₂ (ValueRow.Like forget) a.rows b.rows
  targets : a.targets = b.targets

structure Assignment.Like (a b : Assignment) : Prop where
  column : a.column.Like b.column
  binding : a.binding = b.binding
  value : a.value.Like forget b.value

structure Update.Like (a b : Update) : Prop where
  table : a.table.Like b.table
  binding : a.binding = b.binding
  assignments : List.Forall₂ (Assignment.Like forget) a.assignments b.assignments
  condition : Option.Rel (Expr.Like forget) a.condition b.condition

structure Delete.Like (a b : Delete) : Prop where
  table : a.table.Like b.table
  binding : a.binding = b.binding
  condition : Option.Rel (Expr.Like forget) a.condition b.condition

structure TypeName.Like (a b : TypeName) : Prop where
  name : foldCase a.name = foldCase b.name
  params : a.params = b.params
  span : a.span = b.span

structure ForeignKeyClause.Like (a b : ForeignKeyClause) : Prop where
  table : a.table.Like b.table
  columns : List.Forall₂ Ident.Like a.columns b.columns

inductive ColumnRule.Like : ColumnRule → ColumnRule → Prop
  | notNull : ColumnRule.Like .notNull .notNull
  | null : ColumnRule.Like .null .null
  | default {e e' : Expr} (value : e.Like forget e') : ColumnRule.Like (.default e) (.default e')
  | primaryKey (direction : Option SortDirection) (autoincrement : Bool) :
    ColumnRule.Like (.primaryKey direction autoincrement) (.primaryKey direction autoincrement)
  | unique : ColumnRule.Like .unique .unique
  | references {k k' : ForeignKeyClause} (clause : k.Like k') :
    ColumnRule.Like (.references k) (.references k')
  | collate {x x' : Ident} (collation : x.Like x') : ColumnRule.Like (.collate x) (.collate x')
  | check {e e' : Expr} (condition : e.Like forget e') :
    ColumnRule.Like (.check e) (.check e')

structure ColumnConstraint.Like (a b : ColumnConstraint) : Prop where
  name : Option.Rel Ident.Like a.name b.name
  rule : a.rule.Like forget b.rule
  span : a.span = b.span

structure ColumnDef.Like (a b : ColumnDef) : Prop where
  name : a.name.Like b.name
  typeName : Option.Rel TypeName.Like a.typeName b.typeName
  constraints : List.Forall₂ (ColumnConstraint.Like forget) a.constraints b.constraints
  span : a.span = b.span
  type : a.type = b.type
  binding : a.binding = b.binding

inductive TableRule.Like : TableRule → TableRule → Prop
  | primaryKey {xs xs' : List Ident} (columns : List.Forall₂ Ident.Like xs xs') :
    TableRule.Like (.primaryKey xs) (.primaryKey xs')
  | unique {xs xs' : List Ident} (columns : List.Forall₂ Ident.Like xs xs') :
    TableRule.Like (.unique xs) (.unique xs')
  | check {e e' : Expr} (condition : e.Like forget e') : TableRule.Like (.check e) (.check e')
  | foreignKey {xs xs' : List Ident} {k k' : ForeignKeyClause}
      (columns : List.Forall₂ Ident.Like xs xs') (clause : k.Like k') :
    TableRule.Like (.foreignKey xs k) (.foreignKey xs' k')

structure TableConstraint.Like (a b : TableConstraint) : Prop where
  name : Option.Rel Ident.Like a.name b.name
  rule : a.rule.Like forget b.rule
  span : a.span = b.span

structure CreateTable.Like (a b : CreateTable) : Prop where
  ifNotExists : a.ifNotExists = b.ifNotExists
  name : a.name.Like b.name
  columns : List.Forall₂ (ColumnDef.Like forget) a.columns b.columns
  constraints : List.Forall₂ (TableConstraint.Like forget) a.constraints b.constraints
  binding : a.binding = b.binding

inductive AlterAction.Like : AlterAction → AlterAction → Prop
  | addColumn {d d' : ColumnDef} (definition : d.Like forget d') :
    AlterAction.Like (.addColumn d) (.addColumn d')
  | dropColumn {x x' : Ident} (column : x.Like x') :
    AlterAction.Like (.dropColumn x) (.dropColumn x')
  | renameColumn {x x' y y' : Ident} (column : x.Like x') (newName : y.Like y') :
    AlterAction.Like (.renameColumn x y) (.renameColumn x' y')
  | renameTo {x x' : Ident} (newName : x.Like x') : AlterAction.Like (.renameTo x) (.renameTo x')

structure AlterTable.Like (a b : AlterTable) : Prop where
  table : a.table.Like b.table
  binding : a.binding = b.binding
  action : a.action.Like forget b.action

structure DropTable.Like (a b : DropTable) : Prop where
  ifExists : a.ifExists = b.ifExists
  table : a.table.Like b.table
  binding : a.binding = b.binding

inductive StatementBody.Like : StatementBody → StatementBody → Prop
  | select {s s' : Select} (body : s.Like forget s') : StatementBody.Like (.select s) (.select s')
  | insert {s s' : Insert} (body : s.Like forget s') : StatementBody.Like (.insert s) (.insert s')
  | update {s s' : Update} (body : s.Like forget s') : StatementBody.Like (.update s) (.update s')
  | delete {s s' : Delete} (body : s.Like forget s') : StatementBody.Like (.delete s) (.delete s')
  | createTable {s s' : CreateTable} (body : s.Like forget s') :
    StatementBody.Like (.createTable s) (.createTable s')
  | alterTable {s s' : AlterTable} (body : s.Like forget s') :
    StatementBody.Like (.alterTable s) (.alterTable s')
  | dropTable {s s' : DropTable} (body : s.Like s') :
    StatementBody.Like (.dropTable s) (.dropTable s')

structure Statement.Like (a b : Statement) : Prop where
  body : a.body.Like forget b.body
  span : a.span = b.span
  leadingComment : a.leadingComment = b.leadingComment

end

variable {forget : Prop}

/-! ### Every tree is like itself -/

instance Ident.Like.refl : Std.Refl Ident.Like :=
  ⟨fun _ => ⟨rfl, rfl, rfl⟩⟩

instance TypeLike.refl : Std.Refl (TypeLike forget) :=
  ⟨fun _ => .inl rfl⟩

theorem TypeLike.unknown (hforget : forget) (type : Option SqlType) : TypeLike forget type none :=
  .inr ⟨hforget, rfl⟩

instance Note.Like.refl : Std.Refl (Note.Like forget) :=
  ⟨fun _ => ⟨rfl, .inl rfl, rfl⟩⟩

mutual

theorem Expr.like_self : (e : Expr) → e.Like forget e
  | .constant note _ => .constant (Std.Refl.refl note)
  | .name note ident => .name (Std.Refl.refl note) (Std.Refl.refl ident)
  | .dot note left right => .dot (Std.Refl.refl note) left.like_self (Std.Refl.refl right)
  | .binary note left _ right => .binary (Std.Refl.refl note) left.like_self right.like_self
  | .unary note _ operand => .unary (Std.Refl.refl note) operand.like_self
  | .call note function args =>
    .call (Std.Refl.refl note) (Std.Refl.refl function) (Expr.likes_self args)
  | .callStar note function _ => .callStar (Std.Refl.refl note) (Std.Refl.refl function)
  | .brackets note inner => .brackets (Std.Refl.refl note) inner.like_self
  | .list note items => .list (Std.Refl.refl note) (Expr.likes_self items)
  | .subquery note select => .subquery (Std.Refl.refl note) select.like_self

theorem Expr.likes_self : (es : List Expr) → List.Forall₂ (Expr.Like forget) es es
  | [] => .nil
  | e :: es => .cons e.like_self (Expr.likes_self es)

theorem Expr.option_like_self : (e : Option Expr) → Option.Rel (Expr.Like forget) e e
  | none => .none
  | some e => .some e.like_self

theorem ResultColumn.likes_self :
    (columns : List ResultColumn) → List.Forall₂ (ResultColumn.Like forget) columns columns
  | [] => .nil
  | .star span :: columns => .cons (.star span) (ResultColumn.likes_self columns)
  | .tableStar table :: columns =>
    .cons (.tableStar (Std.Refl.refl table)) (ResultColumn.likes_self columns)
  | .expr value label :: columns =>
    .cons (.expr value.like_self (Std.Refl.refl label)) (ResultColumn.likes_self columns)

theorem Source.like_self : (s : Source) → s.Like forget s
  | .table name label _ => .table (Std.Refl.refl name) (Std.Refl.refl label)
  | .subquery select label _ => .subquery select.like_self (Std.Refl.refl label)

theorem Join.likes_self : (joins : List Join) → List.Forall₂ (Join.Like forget) joins joins
  | [] => .nil
  | ⟨_, _, source, on, _⟩ :: joins =>
    .cons (.mk source.like_self (Expr.option_like_self on)) (Join.likes_self joins)

theorem FromClause.option_like_self :
    (clause : Option FromClause) → Option.Rel (FromClause.Like forget) clause clause
  | none => .none
  | some ⟨first, joins⟩ => .some (.mk first.like_self (Join.likes_self joins))

theorem GroupBy.option_like_self :
    (clause : Option GroupBy) → Option.Rel (GroupBy.Like forget) clause clause
  | none => .none
  | some ⟨exprs, having, _⟩ =>
    .some (.mk (Expr.likes_self exprs) (Expr.option_like_self having))

theorem OrderingTerm.likes_self :
    (terms : List OrderingTerm) → List.Forall₂ (OrderingTerm.Like forget) terms terms
  | [] => .nil
  | ⟨expr, _, _⟩ :: terms => .cons (.mk expr.like_self) (OrderingTerm.likes_self terms)

theorem OrderBy.option_like_self :
    (clause : Option OrderBy) → Option.Rel (OrderBy.Like forget) clause clause
  | none => .none
  | some ⟨terms, _⟩ => .some (.mk (OrderingTerm.likes_self terms))

theorem Limit.option_like_self :
    (clause : Option Limit) → Option.Rel (Limit.Like forget) clause clause
  | none => .none
  | some ⟨limit, offset, _⟩ => .some (.mk limit.like_self (Expr.option_like_self offset))

theorem Select.like_self : (s : Select) → s.Like forget s
  | ⟨_, columns, clause, test, groupBy, orderBy, limit, _, _⟩ =>
    .mk (ResultColumn.likes_self columns) (FromClause.option_like_self clause)
      (Expr.option_like_self test) (GroupBy.option_like_self groupBy)
      (OrderBy.option_like_self orderBy) (Limit.option_like_self limit)

end

instance Expr.Like.refl : Std.Refl (Expr.Like forget) :=
  ⟨Expr.like_self⟩

instance Source.Like.refl : Std.Refl (Source.Like forget) :=
  ⟨Source.like_self⟩

instance Select.Like.refl : Std.Refl (Select.Like forget) :=
  ⟨Select.like_self⟩

instance ResultColumn.Like.refl : Std.Refl (ResultColumn.Like forget) :=
  ⟨fun column => (List.forall₂_cons.mp (ResultColumn.likes_self [column])).1⟩

instance Join.Like.refl : Std.Refl (Join.Like forget) :=
  ⟨fun join => (List.forall₂_cons.mp (Join.likes_self [join])).1⟩

instance OrderingTerm.Like.refl : Std.Refl (OrderingTerm.Like forget) :=
  ⟨fun term => (List.forall₂_cons.mp (OrderingTerm.likes_self [term])).1⟩

instance FromClause.Like.refl : Std.Refl (FromClause.Like forget) :=
  ⟨fun ⟨source, joins⟩ => .mk source.like_self (Join.likes_self joins)⟩

instance GroupBy.Like.refl : Std.Refl (GroupBy.Like forget) :=
  ⟨fun ⟨exprs, having, _⟩ => .mk (Expr.likes_self exprs) (Expr.option_like_self having)⟩

instance OrderBy.Like.refl : Std.Refl (OrderBy.Like forget) :=
  ⟨fun ⟨terms, _⟩ => .mk (OrderingTerm.likes_self terms)⟩

instance Limit.Like.refl : Std.Refl (Limit.Like forget) :=
  ⟨fun ⟨limit, offset, _⟩ => .mk limit.like_self (Expr.option_like_self offset)⟩

instance ValueRow.Like.refl : Std.Refl (ValueRow.Like forget) :=
  ⟨fun _ => ⟨Std.Refl.refl _, rfl⟩⟩

instance Insert.Like.refl : Std.Refl (Insert.Like forget) :=
  ⟨fun _ => ⟨Std.Refl.refl _, rfl, Std.Refl.refl _, Std.Refl.refl _, rfl⟩⟩

instance Assignment.Like.refl : Std.Refl (Assignment.Like forget) :=
  ⟨fun _ => ⟨Std.Refl.refl _, rfl, Std.Refl.refl _⟩⟩

instance Update.Like.refl : Std.Refl (Update.Like forget) :=
  ⟨fun _ => ⟨Std.Refl.refl _, rfl, Std.Refl.refl _, Std.Refl.refl _⟩⟩

instance Delete.Like.refl : Std.Refl (Delete.Like forget) :=
  ⟨fun _ => ⟨Std.Refl.refl _, rfl, Std.Refl.refl _⟩⟩

instance TypeName.Like.refl : Std.Refl TypeName.Like :=
  ⟨fun _ => ⟨rfl, rfl, rfl⟩⟩

instance ForeignKeyClause.Like.refl : Std.Refl ForeignKeyClause.Like :=
  ⟨fun _ => ⟨Std.Refl.refl _, Std.Refl.refl _⟩⟩

instance ColumnRule.Like.refl : Std.Refl (ColumnRule.Like forget) where
  refl
    | .notNull => .notNull
    | .null => .null
    | .default value => .default value.like_self
    | .primaryKey direction autoincrement => .primaryKey direction autoincrement
    | .unique => .unique
    | .references clause => .references (Std.Refl.refl clause)
    | .collate collation => .collate (Std.Refl.refl collation)
    | .check condition => .check condition.like_self

instance ColumnConstraint.Like.refl : Std.Refl (ColumnConstraint.Like forget) :=
  ⟨fun _ => ⟨Std.Refl.refl _, Std.Refl.refl _, rfl⟩⟩

instance ColumnDef.Like.refl : Std.Refl (ColumnDef.Like forget) :=
  ⟨fun _ => ⟨Std.Refl.refl _, Std.Refl.refl _, Std.Refl.refl _, rfl, rfl, rfl⟩⟩

instance TableRule.Like.refl : Std.Refl (TableRule.Like forget) where
  refl
    | .primaryKey columns => .primaryKey (Std.Refl.refl columns)
    | .unique columns => .unique (Std.Refl.refl columns)
    | .check condition => .check condition.like_self
    | .foreignKey columns clause => .foreignKey (Std.Refl.refl columns) (Std.Refl.refl clause)

instance TableConstraint.Like.refl : Std.Refl (TableConstraint.Like forget) :=
  ⟨fun _ => ⟨Std.Refl.refl _, Std.Refl.refl _, rfl⟩⟩

instance CreateTable.Like.refl : Std.Refl (CreateTable.Like forget) :=
  ⟨fun _ => ⟨rfl, Std.Refl.refl _, Std.Refl.refl _, Std.Refl.refl _, rfl⟩⟩

instance AlterAction.Like.refl : Std.Refl (AlterAction.Like forget) where
  refl
    | .addColumn definition => .addColumn (Std.Refl.refl definition)
    | .dropColumn column => .dropColumn (Std.Refl.refl column)
    | .renameColumn column newName => .renameColumn (Std.Refl.refl column) (Std.Refl.refl newName)
    | .renameTo newName => .renameTo (Std.Refl.refl newName)

instance AlterTable.Like.refl : Std.Refl (AlterTable.Like forget) :=
  ⟨fun _ => ⟨Std.Refl.refl _, rfl, Std.Refl.refl _⟩⟩

instance DropTable.Like.refl : Std.Refl DropTable.Like :=
  ⟨fun _ => ⟨rfl, Std.Refl.refl _, rfl⟩⟩

instance StatementBody.Like.refl : Std.Refl (StatementBody.Like forget) where
  refl
    | .select s => .select s.like_self
    | .insert s => .insert (Std.Refl.refl s)
    | .update s => .update (Std.Refl.refl s)
    | .delete s => .delete (Std.Refl.refl s)
    | .createTable s => .createTable (Std.Refl.refl s)
    | .alterTable s => .alterTable (Std.Refl.refl s)
    | .dropTable s => .dropTable (Std.Refl.refl s)

instance Statement.Like.refl : Std.Refl (Statement.Like forget) :=
  ⟨fun _ => ⟨Std.Refl.refl _, rfl, rfl⟩⟩

/-! ### What alike expressions have in common -/

namespace Expr.Like

variable {e e' : Expr}

theorem note (h : e.Like forget e') : e.note.Like forget e'.note := by
  cases h <;> assumption

theorem span_eq (h : e.Like forget e') : e.span = e'.span :=
  h.note.span

theorem type (h : e.Like forget e') : TypeLike forget e.type e'.type :=
  h.note.type

theorem types {es es' : List Expr} (h : List.Forall₂ (Expr.Like forget) es es') :
    List.Forall₂ (TypeLike forget) (es.map Expr.type) (es'.map Expr.type) := by
  rw [List.forall₂_map_left_iff, List.forall₂_map_right_iff]
  exact h.imp fun _ _ he => he.type

theorem withNote (h : e.Like forget e') {n n' : Note} (hn : n.Like forget n') :
    (e.withNote n).Like forget (e'.withNote n') := by
  cases h with
  | constant _ => exact .constant hn
  | name _ ident => exact .name hn ident
  | dot _ left right => exact .dot hn left right
  | binary _ left right => exact .binary hn left right
  | unary _ operand => exact .unary hn operand
  | call _ function args => exact .call hn function args
  | callStar _ function => exact .callStar hn function
  | brackets _ inner => exact .brackets hn inner
  | list _ items => exact .list hn items
  | subquery _ select => exact .subquery hn select

/-- The notes of a constant do not matter for the constant. -/
theorem literal?_eq (h : e.Like forget e') : e.literal? = e'.literal? := by
  fun_induction Expr.literal? e generalizing e' with
  | case1 =>
    cases h
    rfl
  | case2 =>
    cases h with
    | unary _ operand =>
      cases operand
      rfl
  | case3 =>
    cases h with
    | unary _ operand =>
      cases operand
      rfl
  | case4 _ inner ih =>
    cases h with
    | brackets _ hinner =>
      have hliteral := ih hinner
      exact hliteral
  | case5 e hconstant hinteger hfloat hbrackets =>
    symm
    unfold Expr.literal?
    split
    · cases h
      exact (hconstant _ _ rfl).elim
    · cases h with
      | unary _ operand =>
        cases operand
        exact (hinteger _ _ _ rfl).elim
    · cases h with
      | unary _ operand =>
        cases operand
        exact (hfloat _ _ _ rfl).elim
    · cases h
      exact (hbrackets _ _ rfl).elim
    · rfl

theorem isOperation_eq (h : e.Like forget e') : e.isOperation = e'.isOperation := by
  cases h <;> rfl

end Expr.Like

end SqlAnalysis
