import SqlAnalysis.Compilation.Hover
import SqlAnalysis.Proofs.Syntax.Clearing
import SqlAnalysis.Proofs.Syntax.Nodes

/-!
# Marks of trees

A mark is a place of a statement that can stand for a table or a column, bound or not. The
targets of a statement are its marks that are bound. Resolution binds marks, but neither
moves them nor adds any.
-/
namespace SqlAnalysis

structure Mark where
  place : Span
  /-- The bytes at which nothing but this mark may be shown. -/
  subject : Option Span
  binding : Option Binding

namespace Mark

def unbound (m : Mark) : Mark :=
  { m with binding := none }

/-- A mark that only fills the bytes that are left to it. -/
def plain (place : Span) (binding : Option Binding) : Mark :=
  ⟨place, none, binding⟩

def table (name : Ident) (id : Option TableId) : Mark :=
  plain name.span (id.map .table)

def column (name : Ident) (id : Option ColumnId) : Mark :=
  plain name.span (id.map .column)

def targets (m : Mark) : List Target :=
  Target.ofBinding m.place m.binding

@[simp] theorem unbound_plain (place : Span) (binding : Option Binding) :
    (plain place binding).unbound = plain place none := rfl

@[simp] theorem unbound_table (name : Ident) (id : Option TableId) :
    (table name id).unbound = table name none := rfl

@[simp] theorem unbound_column (name : Ident) (id : Option ColumnId) :
    (column name id).unbound = column name none := rfl

end Mark

def Note.mark (note : Note) (subject : Option Span) : Mark :=
  ⟨note.span, subject, note.binding⟩

/-- The bytes of an expression that belong to the name it stands for: all of a name, and
what is right of the point in a qualified one. -/
def Expr.subject : Expr → Option Span
  | .name note _ => some note.span
  | .dot _ _ right => some right.span
  | _ => none

def Expr.mark (e : Expr) : Mark :=
  e.note.mark e.subject

mutual

/-- The marks in an expression, its own first. -/
def Expr.marks : Expr → List Mark
  | .constant note _ => [note.mark none]
  | .name note _ => [note.mark (some note.span)]
  | .dot note left right => note.mark (some right.span) :: left.marks
  | .binary note left _ right => note.mark none :: (left.marks ++ right.marks)
  | .unary note _ operand => note.mark none :: operand.marks
  | .call note _ args => note.mark none :: exprMarks args
  | .callStar note _ _ => [note.mark none]
  | .brackets note inner => note.mark none :: inner.marks
  | .list note items => note.mark none :: exprMarks items
  | .subquery note select => note.mark none :: select.marks

def exprMarks : List Expr → List Mark
  | [] => []
  | e :: es => e.marks ++ exprMarks es

def columnMarks : List ResultColumn → List Mark
  | [] => []
  | .expr value _ :: columns => value.marks ++ columnMarks columns
  | .star _ :: columns | .tableStar _ :: columns => columnMarks columns

def Source.marks : Source → List Mark
  | .table name none id => [.table name id]
  | .table name (some label) id => [.table name id, .table label id]
  | .subquery select _ _ => select.marks

def joinMarks : List Join → List Mark
  | [] => []
  | ⟨_, _, source, on, _⟩ :: joins => source.marks ++ optionMarks on ++ joinMarks joins

def termMarks : List OrderingTerm → List Mark
  | [] => []
  | ⟨expr, _, _⟩ :: terms => expr.marks ++ termMarks terms

def sourceMarks : Option FromClause → List Mark
  | none => []
  | some ⟨first, joins⟩ => first.marks ++ joinMarks joins

def optionMarks : Option Expr → List Mark
  | none => []
  | some e => e.marks

def groupMarks : Option GroupBy → List Mark
  | none => []
  | some ⟨exprs, having, _⟩ => exprMarks exprs ++ optionMarks having

def orderMarks : Option OrderBy → List Mark
  | none => []
  | some ⟨terms, _⟩ => termMarks terms

def limitMarks : Option Limit → List Mark
  | none => []
  | some ⟨count, offset, _⟩ => count.marks ++ optionMarks offset

/-- The marks in a query, those of its result first. -/
def Select.marks : Select → List Mark
  | ⟨_, columns, source, condition, groupBy, orderBy, limit, _, _⟩ =>
    columnMarks columns ++ sourceMarks source ++ optionMarks condition ++ groupMarks groupBy ++
      orderMarks orderBy ++ limitMarks limit

end

/-! ### Statements -/

def ColumnRule.marks : ColumnRule → List Mark
  | .default e | .check e => e.marks
  | .notNull | .null | .primaryKey _ _ | .unique | .references _ | .collate _ => []

def ColumnDef.marks (d : ColumnDef) : List Mark :=
  .column d.name d.binding :: d.constraints.flatMap fun c => c.rule.marks

def TableRule.marks : TableRule → List Mark
  | .check e => e.marks
  | .primaryKey _ | .unique _ | .foreignKey _ _ => []

def AlterAction.marks : AlterAction → List Mark
  | .addColumn d => d.marks
  | .dropColumn _ | .renameColumn _ _ | .renameTo _ => []

/-- The columns that an insertion lists, bound if all of them are known. -/
def Insert.listed (s : Insert) : List Mark :=
  if s.columns.length = s.targets.length then
    List.zipWith (fun name id => .column name (some id)) s.columns s.targets
  else
    s.columns.map fun name => .column name none

def Assignment.marks (a : Assignment) : List Mark :=
  .column a.column a.binding :: a.value.marks

def StatementBody.marks : StatementBody → List Mark
  | .select s => s.marks
  | .insert s =>
    .table s.table s.binding :: (s.listed ++ s.rows.flatMap fun row => exprMarks row.values)
  | .update s =>
    .table s.table s.binding ::
      (s.assignments.flatMap Assignment.marks ++ optionMarks s.condition)
  | .delete s => .table s.table s.binding :: optionMarks s.condition
  | .createTable s =>
    .table s.name s.binding ::
      (s.columns.flatMap ColumnDef.marks ++ s.constraints.flatMap fun c => c.rule.marks)
  | .alterTable s => .table s.table s.binding :: s.action.marks
  | .dropTable s => [.table s.table s.binding]

/-! ### Targets are the marks that are bound -/

namespace Target

def ofFrom : Option FromClause → List Target
  | some ⟨first, joins⟩ => ofSource first ++ ofJoins joins
  | none => []

def ofGroupBy : Option GroupBy → List Target
  | some ⟨exprs, some having, _⟩ => ofExprs exprs ++ ofExpr having
  | some ⟨exprs, none, _⟩ => ofExprs exprs
  | none => []

def ofOrderBy : Option OrderBy → List Target
  | some ⟨terms, _⟩ => ofTerms terms
  | none => []

def ofLimit : Option Limit → List Target
  | some ⟨count, some offset, _⟩ => ofExpr count ++ ofExpr offset
  | some ⟨count, none, _⟩ => ofExpr count
  | none => []

/-- What the recursion gives once it is known which clauses there are. -/
theorem ofSelect_mk (distinct : Bool) (columns : List ResultColumn) (source : Option FromClause)
    (condition : Option Expr) (groupBy : Option GroupBy) (orderBy : Option OrderBy)
    (limit : Option Limit) (span : Span) (result : Option TableId) :
    ofSelect ⟨distinct, columns, source, condition, groupBy, orderBy, limit, span, result⟩ =
      ofColumns columns ++ ofFrom source ++ ofOption condition ++ ofGroupBy groupBy ++
        ofOrderBy orderBy ++ ofLimit limit := by
  have hoption : ∀ e, ofOption (some e) = ofExpr e := fun e => by
    simp [ofOption, ofExprs]
  rcases source with _ | ⟨first, joins⟩ <;> rcases condition with _ | e <;>
    rcases groupBy with _ | ⟨exprs, _ | having, _⟩ <;> rcases orderBy with _ | ⟨terms, _⟩ <;>
    rcases limit with _ | ⟨count, _ | offset, _⟩ <;> first | rfl | (rw [hoption]; rfl)

end Target

mutual

theorem Target.ofExpr_eq : (e : Expr) → ofExpr e = e.marks.flatMap Mark.targets
  | .constant _ _ | .name _ _ | .callStar _ _ _ => by
    simp [ofExpr, Expr.marks, Mark.targets, Note.mark]
  | .dot _ left _ => by simp [ofExpr, Expr.marks, Mark.targets, Note.mark, ofExpr_eq left]
  | .binary _ left _ right => by
    simp [ofExpr, Expr.marks, Mark.targets, Note.mark, ofExpr_eq left, ofExpr_eq right]
  | .unary _ _ operand => by
    simp [ofExpr, Expr.marks, Mark.targets, Note.mark, ofExpr_eq operand]
  | .call _ _ args => by simp [ofExpr, Expr.marks, Mark.targets, Note.mark, ofExprs_eq args]
  | .brackets _ inner => by simp [ofExpr, Expr.marks, Mark.targets, Note.mark, ofExpr_eq inner]
  | .list _ items => by simp [ofExpr, Expr.marks, Mark.targets, Note.mark, ofExprs_eq items]
  | .subquery _ select => by
    simp [ofExpr, Expr.marks, Mark.targets, Note.mark, ofSelect_eq select]

theorem Target.ofExprs_eq : (es : List Expr) → ofExprs es = (exprMarks es).flatMap Mark.targets
  | [] => rfl
  | e :: es => by simp [ofExprs, exprMarks, ofExpr_eq e, ofExprs_eq es]

theorem Target.ofColumns_eq :
    (columns : List ResultColumn) → ofColumns columns = (columnMarks columns).flatMap Mark.targets
  | [] => rfl
  | .expr value _ :: columns => by
    simp [ofColumns, columnMarks, ofExpr_eq value, ofColumns_eq columns]
  | .star _ :: columns | .tableStar _ :: columns => by
    simp [ofColumns, columnMarks, ofColumns_eq columns]

theorem Target.ofSource_eq :
    (source : Source) → ofSource source = source.marks.flatMap Mark.targets
  | .table _ none _ | .table _ (some _) _ => by
    simp [ofSource, Source.marks, Mark.targets, Mark.table, Mark.plain, ofTable]
  | .subquery select _ _ => by simp [ofSource, Source.marks, ofSelect_eq select]

theorem Target.ofJoins_eq :
    (joins : List Join) → ofJoins joins = (joinMarks joins).flatMap Mark.targets
  | [] => rfl
  | ⟨_, _, source, none, _⟩ :: joins => by
    simp [ofJoins, joinMarks, optionMarks, ofSource_eq source, ofJoins_eq joins]
  | ⟨_, _, source, some on, _⟩ :: joins => by
    simp [ofJoins, joinMarks, optionMarks, ofSource_eq source, ofExpr_eq on, ofJoins_eq joins]

theorem Target.ofTerms_eq :
    (terms : List OrderingTerm) → ofTerms terms = (termMarks terms).flatMap Mark.targets
  | [] => rfl
  | ⟨expr, _, _⟩ :: terms => by simp [ofTerms, termMarks, ofExpr_eq expr, ofTerms_eq terms]

theorem Target.ofOption_eq :
    (o : Option Expr) → ofOption o = (optionMarks o).flatMap Mark.targets
  | none => rfl
  | some e => by simp [ofOption, ofExprs, optionMarks, ofExpr_eq e]

theorem Target.ofFrom_eq :
    (clause : Option FromClause) → ofFrom clause = (sourceMarks clause).flatMap Mark.targets
  | none => rfl
  | some ⟨first, joins⟩ => by simp [ofFrom, sourceMarks, ofSource_eq first, ofJoins_eq joins]

theorem Target.ofGroupBy_eq :
    (clause : Option GroupBy) → ofGroupBy clause = (groupMarks clause).flatMap Mark.targets
  | none => rfl
  | some ⟨exprs, none, _⟩ => by simp [ofGroupBy, groupMarks, optionMarks, ofExprs_eq exprs]
  | some ⟨exprs, some having, _⟩ => by
    simp [ofGroupBy, groupMarks, optionMarks, ofExprs_eq exprs, ofExpr_eq having]

theorem Target.ofOrderBy_eq :
    (clause : Option OrderBy) → ofOrderBy clause = (orderMarks clause).flatMap Mark.targets
  | none => rfl
  | some ⟨terms, _⟩ => by simp [ofOrderBy, orderMarks, ofTerms_eq terms]

theorem Target.ofLimit_eq :
    (clause : Option Limit) → ofLimit clause = (limitMarks clause).flatMap Mark.targets
  | none => rfl
  | some ⟨count, none, _⟩ => by simp [ofLimit, limitMarks, optionMarks, ofExpr_eq count]
  | some ⟨count, some offset, _⟩ => by
    simp [ofLimit, limitMarks, optionMarks, ofExpr_eq count, ofExpr_eq offset]

theorem Target.ofSelect_eq : (s : Select) → ofSelect s = s.marks.flatMap Mark.targets
  | ⟨_, columns, source, condition, groupBy, orderBy, limit, _, _⟩ => by
    rw [ofSelect_mk, ofColumns_eq columns, ofFrom_eq source, ofOption_eq condition,
      ofGroupBy_eq groupBy, ofOrderBy_eq orderBy, ofLimit_eq limit]
    simp only [Select.marks, List.flatMap_append]

end

namespace Target

theorem ofColumnDef_eq (d : ColumnDef) : ofColumnDef d = d.marks.flatMap Mark.targets := by
  simp only [ofColumnDef, ColumnDef.marks, List.flatMap_cons, List.flatMap_assoc]
  congr 1
  refine List.flatMap_congr fun c _ => ?_
  cases c.rule <;> simp [ColumnRule.marks, ofExpr_eq]

theorem ofInsert_eq (s : Insert) :
    ofInsert s = (StatementBody.insert s).marks.flatMap Mark.targets := by
  have hzip : ∀ (names : List Ident) (ids : List ColumnId),
      ((names.zip ids).map fun entry => (entry.1.span, Binding.column entry.2)) =
        (List.zipWith (fun name id => Mark.column name (some id)) names ids).flatMap
          Mark.targets := by
    intro names
    induction names with
    | nil => exact fun ids => rfl
    | cons name names ih =>
      intro ids
      cases ids with
      | nil => rfl
      | cons id ids =>
        simp [ih, Mark.targets, Mark.column, Mark.plain, ofBinding]
  have hlisted : (if s.columns.length = s.targets.length then
      (s.columns.zip s.targets).map fun entry => (entry.1.span, Binding.column entry.2)
    else []) = s.listed.flatMap Mark.targets := by
    unfold Insert.listed
    split
    · exact hzip s.columns s.targets
    · simp [List.flatMap_map, Mark.targets, Mark.column, Mark.plain, ofBinding]
  have hopen : ofInsert s = ofTable s.table.span s.binding ++ s.listed.flatMap Mark.targets ++
      s.rows.flatMap fun row => ofExprs row.values := by
    rw [← hlisted]
    rfl
  simp only [hopen, StatementBody.marks, List.flatMap_cons, List.flatMap_append,
    List.flatMap_assoc, ofExprs_eq, List.append_assoc]
  rfl

/-- The targets of a statement are its marks that are bound. -/
theorem ofStatement_eq (s : Statement) : ofStatement s = s.body.marks.flatMap Mark.targets := by
  unfold ofStatement
  cases s.body with
  | select select => exact ofSelect_eq select
  | insert i => exact ofInsert_eq i
  | update u =>
    simp only [StatementBody.marks, List.flatMap_cons, List.flatMap_append, List.flatMap_assoc,
      Assignment.marks, ofOption_eq, ofExpr_eq, List.append_assoc]
    rfl
  | delete d =>
    simp only [StatementBody.marks, List.flatMap_cons, ofOption_eq]
    rfl
  | createTable t =>
    simp only [StatementBody.marks, List.flatMap_cons, List.flatMap_append, List.flatMap_assoc,
      funext ofColumnDef_eq, List.append_assoc]
    congr 2
    refine List.flatMap_congr fun c _ => ?_
    cases c.rule <;> simp [TableRule.marks, ofExpr_eq]
  | alterTable t =>
    simp only [StatementBody.marks, List.flatMap_cons]
    congr 1
    cases t.action <;> simp [AlterAction.marks, ofColumnDef_eq]
  | dropTable t => simp only [StatementBody.marks, List.flatMap_singleton]; rfl

end Target

/-! ### Resolution binds marks where they are -/

@[simp] theorem Note.mark_cleared (note : Note) (subject : Option Span) :
    note.cleared.mark subject = (note.mark subject).unbound := rfl

@[simp] theorem Note.span_cleared (note : Note) : note.cleared.span = note.span := rfl

mutual

theorem Expr.marks_cleared : (e : Expr) → e.cleared.marks = e.marks.map Mark.unbound
  | .constant _ _ | .name _ _ | .callStar _ _ _ => by simp [Expr.cleared, Expr.marks]
  | .dot _ left _ => by simp [Expr.cleared, Expr.marks, left.marks_cleared]
  | .binary _ left _ right => by
    simp [Expr.cleared, Expr.marks, left.marks_cleared, right.marks_cleared]
  | .unary _ _ operand => by simp [Expr.cleared, Expr.marks, operand.marks_cleared]
  | .call _ _ args => by simp [Expr.cleared, Expr.marks, exprMarks_cleared args]
  | .brackets _ inner => by simp [Expr.cleared, Expr.marks, inner.marks_cleared]
  | .list _ items => by simp [Expr.cleared, Expr.marks, exprMarks_cleared items]
  | .subquery _ select => by simp [Expr.cleared, Expr.marks, select.marks_cleared]

theorem exprMarks_cleared :
    (es : List Expr) → exprMarks (clearedExprs es) = (exprMarks es).map Mark.unbound
  | [] => rfl
  | e :: es => by simp [clearedExprs, exprMarks, e.marks_cleared, exprMarks_cleared es]

theorem optionMarks_cleared :
    (o : Option Expr) → optionMarks (clearedOption o) = (optionMarks o).map Mark.unbound
  | none => rfl
  | some e => by simp [clearedOption, optionMarks, e.marks_cleared]

theorem columnMarks_cleared : (columns : List ResultColumn) →
    columnMarks (clearedColumns columns) = (columnMarks columns).map Mark.unbound
  | [] => rfl
  | .expr value _ :: columns => by
    simp [clearedColumns, columnMarks, value.marks_cleared, columnMarks_cleared columns]
  | .star _ :: columns | .tableStar _ :: columns => by
    simp [clearedColumns, columnMarks, columnMarks_cleared columns]

theorem Source.marks_cleared :
    (source : Source) → source.cleared.marks = source.marks.map Mark.unbound
  | .table _ none _ | .table _ (some _) _ => rfl
  | .subquery select _ _ => by simp [Source.cleared, Source.marks, select.marks_cleared]

theorem joinMarks_cleared :
    (joins : List Join) → joinMarks (clearedJoins joins) = (joinMarks joins).map Mark.unbound
  | [] => rfl
  | ⟨_, _, source, on, _⟩ :: joins => by
    simp [clearedJoins, joinMarks, source.marks_cleared, optionMarks_cleared on,
      joinMarks_cleared joins]

theorem sourceMarks_cleared : (clause : Option FromClause) →
    sourceMarks (clearedFrom clause) = (sourceMarks clause).map Mark.unbound
  | none => rfl
  | some ⟨first, joins⟩ => by
    simp [clearedFrom, sourceMarks, first.marks_cleared, joinMarks_cleared joins]

theorem groupMarks_cleared : (clause : Option GroupBy) →
    groupMarks (clearedGroupBy clause) = (groupMarks clause).map Mark.unbound
  | none => rfl
  | some ⟨exprs, having, _⟩ => by
    simp [clearedGroupBy, groupMarks, exprMarks_cleared exprs, optionMarks_cleared having]

theorem termMarks_cleared :
    (terms : List OrderingTerm) → termMarks (clearedTerms terms) = (termMarks terms).map Mark.unbound
  | [] => rfl
  | ⟨expr, _, _⟩ :: terms => by
    simp [clearedTerms, termMarks, expr.marks_cleared, termMarks_cleared terms]

theorem orderMarks_cleared : (clause : Option OrderBy) →
    orderMarks (clearedOrderBy clause) = (orderMarks clause).map Mark.unbound
  | none => rfl
  | some ⟨terms, _⟩ => by simp [clearedOrderBy, orderMarks, termMarks_cleared terms]

theorem limitMarks_cleared : (clause : Option Limit) →
    limitMarks (clearedLimit clause) = (limitMarks clause).map Mark.unbound
  | none => rfl
  | some ⟨count, offset, _⟩ => by
    simp [clearedLimit, limitMarks, count.marks_cleared, optionMarks_cleared offset]

theorem Select.marks_cleared : (s : Select) → s.cleared.marks = s.marks.map Mark.unbound
  | ⟨_, columns, source, condition, groupBy, orderBy, limit, _, _⟩ => by
    simp [Select.cleared, Select.marks, columnMarks_cleared columns, sourceMarks_cleared source,
      optionMarks_cleared condition, groupMarks_cleared groupBy, orderMarks_cleared orderBy,
      limitMarks_cleared limit]

end

theorem ColumnDef.marks_cleared (d : ColumnDef) : d.cleared.marks = d.marks.map Mark.unbound := by
  simp only [ColumnDef.cleared, ColumnDef.marks, List.flatMap_map, List.map_cons, List.map_flatMap,
    Mark.unbound_column]
  congr 1
  refine List.flatMap_congr fun c _ => ?_
  obtain ⟨_, rule, _⟩ := c
  cases rule <;> simp [ColumnConstraint.cleared, ColumnRule.cleared, ColumnRule.marks,
    Expr.marks_cleared]

/-- Columns without targets are marks that nothing is known of. -/
theorem Insert.listed_of_nil {s : Insert} (h : s.targets = []) :
    s.listed = s.columns.map fun name => Mark.column name none := by
  rw [listed, h]
  split
  · next hlen =>
    have hnil : s.columns = [] := List.eq_nil_of_length_eq_zero hlen
    rw [hnil]
    rfl
  · rfl

/-- What is known of the columns that are listed is forgotten all at once. -/
theorem Insert.listed_cleared (s : Insert) : s.cleared.listed = s.listed.map Mark.unbound := by
  have hzip : ∀ (names : List Ident) (ids : List ColumnId), names.length = ids.length →
      (List.zipWith (fun name id => Mark.column name (some id)) names ids).map Mark.unbound =
        names.map fun name => Mark.column name none := by
    intro names
    induction names with
    | nil => exact fun ids _ => rfl
    | cons name names ih =>
      intro ids hlen
      cases ids with
      | nil => cases hlen
      | cons id ids => simp [ih ids (by simpa using hlen)]
  have hcleared : s.cleared.listed = s.columns.map fun name => Mark.column name none :=
    listed_of_nil rfl
  rw [hcleared, listed]
  split
  · next hlen => exact (hzip s.columns s.targets hlen).symm
  · simp

theorem StatementBody.marks_cleared (body : StatementBody) :
    body.cleared.marks = body.marks.map Mark.unbound := by
  cases body with
  | select s => exact s.marks_cleared
  | insert s =>
    simp only [StatementBody.cleared, StatementBody.marks, Insert.listed_cleared]
    simp [Insert.cleared, ValueRow.cleared, List.flatMap_map, List.map_flatMap, exprMarks_cleared]
  | update s =>
    simp [StatementBody.cleared, StatementBody.marks, Update.cleared, Assignment.cleared,
      Assignment.marks, List.flatMap_map, List.map_flatMap, Expr.marks_cleared,
      optionMarks_cleared]
  | delete s =>
    simp [StatementBody.cleared, StatementBody.marks, Delete.cleared, optionMarks_cleared]
  | createTable s =>
    have hrule : ∀ c : TableConstraint, c.cleared.rule.marks = c.rule.marks.map Mark.unbound := by
      rintro ⟨_, rule, _⟩
      cases rule <;> simp [TableConstraint.cleared, TableRule.cleared, TableRule.marks,
        Expr.marks_cleared]
    simp [StatementBody.cleared, StatementBody.marks, CreateTable.cleared, List.flatMap_map,
      List.map_flatMap, ColumnDef.marks_cleared, hrule]
  | alterTable s =>
    simp only [StatementBody.cleared, StatementBody.marks, AlterTable.cleared]
    cases s.action <;> simp [AlterAction.cleared, AlterAction.marks, ColumnDef.marks_cleared]
  | dropTable s => rfl

/-! ### Every expression has a mark -/

mutual

theorem Expr.mark_mem_marks : (e : Expr) → {x : Expr} → x ∈ e.allNodes → x.mark ∈ e.marks
  | .constant _ _, _, h | .name _ _, _, h | .callStar _ _ _, _, h => by
    simp only [Expr.allNodes, List.mem_singleton] at h
    simp [h, Expr.marks, Expr.mark, Expr.note, Expr.subject]
  | .dot _ left _, _, h => by
    rcases List.mem_cons.mp h with rfl | h
    · exact List.mem_cons_self
    · exact List.mem_cons_of_mem _ (left.mark_mem_marks h)
  | .binary _ left _ right, _, h => by
    rcases List.mem_cons.mp h with rfl | h
    · exact List.mem_cons_self
    · exact List.mem_cons_of_mem _ (List.mem_append.mpr ((List.mem_append.mp h).imp
        left.mark_mem_marks right.mark_mem_marks))
  | .unary _ _ operand, _, h => by
    rcases List.mem_cons.mp h with rfl | h
    · exact List.mem_cons_self
    · exact List.mem_cons_of_mem _ (operand.mark_mem_marks h)
  | .call _ _ args, _, h => by
    rcases List.mem_cons.mp h with rfl | h
    · exact List.mem_cons_self
    · exact List.mem_cons_of_mem _ (mark_mem_exprMarks args h)
  | .brackets _ inner, _, h => by
    rcases List.mem_cons.mp h with rfl | h
    · exact List.mem_cons_self
    · exact List.mem_cons_of_mem _ (inner.mark_mem_marks h)
  | .list _ items, _, h => by
    rcases List.mem_cons.mp h with rfl | h
    · exact List.mem_cons_self
    · exact List.mem_cons_of_mem _ (mark_mem_exprMarks items h)
  | .subquery _ select, _, h => by
    rcases List.mem_cons.mp h with rfl | h
    · exact List.mem_cons_self
    · exact List.mem_cons_of_mem _ (select.mark_mem_marks h)

theorem mark_mem_exprMarks :
    (es : List Expr) → {x : Expr} → x ∈ exprNodes es → x.mark ∈ exprMarks es
  | e :: es, _, h => List.mem_append.mpr ((List.mem_append.mp h).imp
      e.mark_mem_marks (mark_mem_exprMarks es))

theorem mark_mem_columnMarks :
    (columns : List ResultColumn) → {x : Expr} → x ∈ columnNodes columns → x.mark ∈ columnMarks columns
  | .expr value _ :: columns, _, h => List.mem_append.mpr ((List.mem_append.mp h).imp
      value.mark_mem_marks (mark_mem_columnMarks columns))
  | .star _ :: columns, _, h => mark_mem_columnMarks columns h
  | .tableStar _ :: columns, _, h => mark_mem_columnMarks columns h

theorem Source.mark_mem_marks :
    (source : Source) → {x : Expr} → x ∈ source.allNodes → x.mark ∈ source.marks
  | .subquery select _ _, _, h => select.mark_mem_marks h

theorem mark_mem_joinMarks :
    (joins : List Join) → {x : Expr} → x ∈ joinNodes joins → x.mark ∈ joinMarks joins
  | ⟨_, _, source, none, _⟩ :: joins, _, h => by
    simp only [joinNodes, joinMarks, optionMarks, List.append_nil, List.mem_append] at h ⊢
    exact h.imp source.mark_mem_marks (mark_mem_joinMarks joins)
  | ⟨_, _, source, some on, _⟩ :: joins, _, h => by
    simp only [joinNodes, joinMarks, optionMarks, List.mem_append] at h ⊢
    exact h.imp (.imp source.mark_mem_marks on.mark_mem_marks) (mark_mem_joinMarks joins)

theorem mark_mem_termMarks :
    (terms : List OrderingTerm) → {x : Expr} → x ∈ termNodes terms → x.mark ∈ termMarks terms
  | ⟨expr, _, _⟩ :: terms, _, h => List.mem_append.mpr ((List.mem_append.mp h).imp
      expr.mark_mem_marks (mark_mem_termMarks terms))

theorem mark_mem_sourceMarks :
    (clause : Option FromClause) → {x : Expr} → x ∈ sourceNodes clause → x.mark ∈ sourceMarks clause
  | some ⟨first, joins⟩, _, h => List.mem_append.mpr ((List.mem_append.mp h).imp
      first.mark_mem_marks (mark_mem_joinMarks joins))

theorem mark_mem_optionMarks :
    (o : Option Expr) → {x : Expr} → x ∈ optionNodes o → x.mark ∈ optionMarks o
  | some e, _, h => e.mark_mem_marks h

theorem mark_mem_groupMarks :
    (clause : Option GroupBy) → {x : Expr} → x ∈ groupNodes clause → x.mark ∈ groupMarks clause
  | some ⟨exprs, having, _⟩, _, h => List.mem_append.mpr ((List.mem_append.mp h).imp
      (mark_mem_exprMarks exprs) (mark_mem_optionMarks having))

theorem mark_mem_orderMarks :
    (clause : Option OrderBy) → {x : Expr} → x ∈ orderNodes clause → x.mark ∈ orderMarks clause
  | some ⟨terms, _⟩, _, h => mark_mem_termMarks terms h

theorem mark_mem_limitMarks :
    (clause : Option Limit) → {x : Expr} → x ∈ limitNodes clause → x.mark ∈ limitMarks clause
  | some ⟨count, offset, _⟩, _, h => List.mem_append.mpr ((List.mem_append.mp h).imp
      count.mark_mem_marks (mark_mem_optionMarks offset))

theorem Select.mark_mem_marks : (s : Select) → {x : Expr} → x ∈ s.allNodes → x.mark ∈ s.marks
  | ⟨_, columns, source, condition, groupBy, orderBy, limit, _, _⟩, _, h => by
    simp only [Select.allNodes, Select.marks, List.mem_append] at h ⊢
    exact h.imp (.imp (.imp (.imp (.imp (mark_mem_columnMarks columns)
      (mark_mem_sourceMarks source)) (mark_mem_optionMarks condition))
      (mark_mem_groupMarks groupBy)) (mark_mem_orderMarks orderBy)) (mark_mem_limitMarks limit)

end

theorem ColumnDef.mark_mem_marks {d : ColumnDef} {x : Expr} (h : x ∈ d.allNodes) :
    x.mark ∈ d.marks := by
  obtain ⟨c, hc, hx⟩ := List.mem_flatMap.mp h
  refine List.mem_cons_of_mem _ (List.mem_flatMap.mpr ⟨c, hc, ?_⟩)
  obtain ⟨_, rule, _⟩ := c
  cases rule with
  | default e | check e => exact e.mark_mem_marks hx
  | _ => cases hx

theorem StatementBody.mark_mem_marks {body : StatementBody} {x : Expr} (h : x ∈ body.allNodes) :
    x.mark ∈ body.marks := by
  cases body with
  | select s => exact s.mark_mem_marks h
  | insert i =>
    obtain ⟨row, hrow, hx⟩ := List.mem_flatMap.mp h
    exact List.mem_cons_of_mem _ (List.mem_append_right _
      (List.mem_flatMap.mpr ⟨row, hrow, mark_mem_exprMarks row.values hx⟩))
  | update u =>
    refine List.mem_cons_of_mem _ (List.mem_append.mpr ((List.mem_append.mp h).imp
      (fun h => ?_) (mark_mem_optionMarks u.condition)))
    obtain ⟨a, ha, hx⟩ := List.mem_flatMap.mp h
    exact List.mem_flatMap.mpr ⟨a, ha, List.mem_cons_of_mem _ (a.value.mark_mem_marks hx)⟩
  | delete d => exact List.mem_cons_of_mem _ (mark_mem_optionMarks d.condition h)
  | createTable t =>
    refine List.mem_cons_of_mem _ (List.mem_append.mpr ((List.mem_append.mp h).imp
      (fun h => ?_) fun h => ?_))
    · obtain ⟨d, hd, hx⟩ := List.mem_flatMap.mp h
      exact List.mem_flatMap.mpr ⟨d, hd, d.mark_mem_marks hx⟩
    · obtain ⟨⟨_, rule, _⟩, hc, hx⟩ := List.mem_flatMap.mp h
      refine List.mem_flatMap.mpr ⟨_, hc, ?_⟩
      cases rule with
      | check e => exact e.mark_mem_marks hx
      | _ => cases hx
  | alterTable t =>
    obtain ⟨_, _, action⟩ := t
    cases action with
    | addColumn d => exact List.mem_cons_of_mem _ (ColumnDef.mark_mem_marks h)
    | _ => cases h
  | dropTable d => cases h

end SqlAnalysis
