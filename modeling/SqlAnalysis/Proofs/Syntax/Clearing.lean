import SqlAnalysis.Canonical
import SqlAnalysis.Proofs.Syntax.Outlines
import SqlAnalysis.Proofs.Syntax.Words

/-!
# Trees without what resolution adds

Resolution fills in the types and bindings of expressions, the tables of results and what
the parts of a statement are bound to. Here all of that is taken out again. Neither the
texts nor the spans of a tree depend on it.
-/
namespace SqlAnalysis

/-- The note of an expression that was only read. -/
def Note.cleared (note : Note) : Note :=
  { span := note.span }

mutual

def Expr.cleared : Expr → Expr
  | .constant note value => .constant note.cleared value
  | .name note ident => .name note.cleared ident
  | .dot note left right => .dot note.cleared left.cleared right
  | .binary note left op right => .binary note.cleared left.cleared op right.cleared
  | .unary note op operand => .unary note.cleared op operand.cleared
  | .call note function args => .call note.cleared function (clearedExprs args)
  | .callStar note function star => .callStar note.cleared function star
  | .brackets note inner => .brackets note.cleared inner.cleared
  | .list note items => .list note.cleared (clearedExprs items)
  | .subquery note select => .subquery note.cleared select.cleared

def clearedExprs : List Expr → List Expr
  | [] => []
  | e :: es => e.cleared :: clearedExprs es

def clearedOption : Option Expr → Option Expr
  | none => none
  | some e => some e.cleared

def clearedColumns : List ResultColumn → List ResultColumn
  | [] => []
  | .star span :: columns => .star span :: clearedColumns columns
  | .tableStar table :: columns => .tableStar table :: clearedColumns columns
  | .expr value label :: columns => .expr value.cleared label :: clearedColumns columns

def Source.cleared : Source → Source
  | .table name label _ => .table name label none
  | .subquery select label span => .subquery select.cleared label span

def clearedJoins : List Join → List Join
  | [] => []
  | ⟨natural, operator, source, on, span⟩ :: joins =>
    ⟨natural, operator, source.cleared, clearedOption on, span⟩ :: clearedJoins joins

def clearedFrom : Option FromClause → Option FromClause
  | none => none
  | some ⟨source, joins⟩ => some ⟨source.cleared, clearedJoins joins⟩

def clearedGroupBy : Option GroupBy → Option GroupBy
  | none => none
  | some ⟨exprs, having, span⟩ => some ⟨clearedExprs exprs, clearedOption having, span⟩

def clearedTerms : List OrderingTerm → List OrderingTerm
  | [] => []
  | ⟨expr, direction, nulls⟩ :: terms => ⟨expr.cleared, direction, nulls⟩ :: clearedTerms terms

def clearedOrderBy : Option OrderBy → Option OrderBy
  | none => none
  | some ⟨terms, span⟩ => some ⟨clearedTerms terms, span⟩

def clearedLimit : Option Limit → Option Limit
  | none => none
  | some ⟨limit, offset, span⟩ => some ⟨limit.cleared, clearedOption offset, span⟩

def Select.cleared : Select → Select
  | ⟨distinct, columns, source, condition, groupBy, orderBy, limit, span, _⟩ =>
    ⟨distinct, clearedColumns columns, clearedFrom source, clearedOption condition,
      clearedGroupBy groupBy, clearedOrderBy orderBy, clearedLimit limit, span, none⟩

end

/-! ### Statements -/

def ValueRow.cleared (row : ValueRow) : ValueRow :=
  { row with values := clearedExprs row.values }

def Insert.cleared (s : Insert) : Insert :=
  { s with binding := none, rows := s.rows.map ValueRow.cleared, targets := [] }

def Assignment.cleared (a : Assignment) : Assignment :=
  { a with binding := none, value := a.value.cleared }

def Update.cleared (s : Update) : Update :=
  { s with
    binding := none
    assignments := s.assignments.map Assignment.cleared
    condition := clearedOption s.condition }

def Delete.cleared (s : Delete) : Delete :=
  { s with binding := none, condition := clearedOption s.condition }

def ColumnRule.cleared : ColumnRule → ColumnRule
  | .default value => .default value.cleared
  | .check condition => .check condition.cleared
  | rule => rule

def ColumnConstraint.cleared (c : ColumnConstraint) : ColumnConstraint :=
  { c with rule := c.rule.cleared }

def ColumnDef.cleared (d : ColumnDef) : ColumnDef :=
  { d with constraints := d.constraints.map ColumnConstraint.cleared, type := none, binding := none }

def TableRule.cleared : TableRule → TableRule
  | .check condition => .check condition.cleared
  | rule => rule

def TableConstraint.cleared (c : TableConstraint) : TableConstraint :=
  { c with rule := c.rule.cleared }

def CreateTable.cleared (s : CreateTable) : CreateTable :=
  { s with
    columns := s.columns.map ColumnDef.cleared
    constraints := s.constraints.map TableConstraint.cleared
    binding := none }

def AlterAction.cleared : AlterAction → AlterAction
  | .addColumn definition => .addColumn definition.cleared
  | action => action

def AlterTable.cleared (s : AlterTable) : AlterTable :=
  { s with binding := none, action := s.action.cleared }

def DropTable.cleared (s : DropTable) : DropTable :=
  { s with binding := none }

def StatementBody.cleared : StatementBody → StatementBody
  | .select s => .select s.cleared
  | .insert s => .insert s.cleared
  | .update s => .update s.cleared
  | .delete s => .delete s.cleared
  | .createTable s => .createTable s.cleared
  | .alterTable s => .alterTable s.cleared
  | .dropTable s => .dropTable s.cleared

def Statement.cleared (s : Statement) : Statement :=
  { s with body := s.body.cleared }

/-! ### What the top of an expression shows -/

namespace Expr

@[simp] theorem note_cleared (e : Expr) : e.cleared.note = e.note.cleared := by
  cases e <;> rfl

@[simp] theorem span_cleared (e : Expr) : e.cleared.span = e.span := by
  rw [span, note_cleared]
  rfl

@[simp] theorem isOperation_cleared (e : Expr) : e.cleared.isOperation = e.isOperation := by
  cases e <;> rfl

@[simp] theorem literal?_cleared : (e : Expr) → e.cleared.literal? = e.literal?
  | .constant _ _ => rfl
  | .unary _ .not _ => rfl
  | .unary _ .negate operand => by
    cases operand with
    | constant note value => cases value <;> rfl
    | _ => rfl
  | .brackets _ inner => by simp only [cleared, literal?, literal?_cleared inner]
  | .name _ _ | .dot _ _ _ | .binary _ _ _ _ | .call _ _ _ | .callStar _ _ _ | .list _ _
  | .subquery _ _ => rfl

end Expr

/-! ### Texts -/

mutual

@[simp] theorem Expr.render_cleared : (e : Expr) → e.cleared.render = e.render
  | .constant _ _ => rfl
  | .name _ _ => rfl
  | .dot _ left _ => by simp only [Expr.cleared, Expr.render, left.render_cleared]
  | .binary _ left _ right => by
    simp only [Expr.cleared, Expr.render, Expr.isOperation_cleared, left.render_cleared, right.render_cleared]
  | .unary _ op operand => by
    cases op <;> simp only [Expr.cleared, Expr.render, Expr.isOperation_cleared, operand.render_cleared]
  | .call _ _ args => by simp only [Expr.cleared, Expr.render, renderExprs_cleared args]
  | .callStar _ _ _ => rfl
  | .brackets _ inner => by simp only [Expr.cleared, Expr.render, inner.render_cleared]
  | .list _ items => by simp only [Expr.cleared, Expr.render, renderExprs_cleared items]
  | .subquery _ select => by simp only [Expr.cleared, Expr.render, select.render_cleared]

theorem renderExprs_cleared : (es : List Expr) → renderExprs (clearedExprs es) = renderExprs es
  | [] => rfl
  | e :: es => by simp only [clearedExprs, renderExprs, e.render_cleared, renderExprs_cleared es]

theorem renderWhere_cleared : (condition : Option Expr) →
    (clearedOption condition).elim "" renderWhere = condition.elim "" renderWhere
  | none => rfl
  | some e => by simp only [clearedOption, Option.elim, renderWhere, e.render_cleared]

theorem renderColumns_cleared : (columns : List ResultColumn) →
    renderColumns (clearedColumns columns) = renderColumns columns
  | [] => rfl
  | .star _ :: columns => by
    simp only [clearedColumns, renderColumns, renderColumns_cleared columns]
  | .tableStar _ :: columns => by
    simp only [clearedColumns, renderColumns, renderColumns_cleared columns]
  | .expr value _ :: columns => by
    simp only [clearedColumns, renderColumns, value.render_cleared, renderColumns_cleared columns]

theorem Source.render_cleared : (source : Source) → source.cleared.render = source.render
  | .table _ _ _ => rfl
  | .subquery select _ _ => by simp only [Source.cleared, Source.render, select.render_cleared]

theorem renderJoins_cleared : (joins : List Join) →
    renderJoins (clearedJoins joins) = renderJoins joins
  | [] => rfl
  | ⟨_, _, source, none, _⟩ :: joins => by
    simp only [clearedJoins, clearedOption, renderJoins, source.render_cleared,
      renderJoins_cleared joins]
  | ⟨_, _, source, some on, _⟩ :: joins => by
    simp only [clearedJoins, clearedOption, renderJoins, source.render_cleared, on.render_cleared,
      renderJoins_cleared joins]

theorem renderFrom_cleared : (clause : Option FromClause) →
    (clearedFrom clause).elim "" renderFrom = clause.elim "" renderFrom
  | none => rfl
  | some ⟨source, joins⟩ => by
    simp only [clearedFrom, Option.elim, renderFrom, source.render_cleared,
      renderJoins_cleared joins]

theorem renderGroupBy_cleared : (groupBy : Option GroupBy) →
    (clearedGroupBy groupBy).elim "" renderGroupBy = groupBy.elim "" renderGroupBy
  | none => rfl
  | some ⟨exprs, none, _⟩ => by
    simp only [clearedGroupBy, clearedOption, Option.elim, renderGroupBy,
      renderExprs_cleared exprs]
  | some ⟨exprs, some having, _⟩ => by
    simp only [clearedGroupBy, clearedOption, Option.elim, renderGroupBy,
      renderExprs_cleared exprs, having.render_cleared]

theorem renderTerms_cleared : (terms : List OrderingTerm) →
    renderTerms (clearedTerms terms) = renderTerms terms
  | [] => rfl
  | ⟨expr, _, _⟩ :: terms => by
    simp only [clearedTerms, renderTerms, expr.render_cleared, renderTerms_cleared terms]

theorem renderOrderBy_cleared : (orderBy : Option OrderBy) →
    (clearedOrderBy orderBy).elim "" renderOrderBy = orderBy.elim "" renderOrderBy
  | none => rfl
  | some ⟨terms, _⟩ => by
    simp only [clearedOrderBy, Option.elim, renderOrderBy, renderTerms_cleared terms]

theorem renderLimit_cleared : (limit : Option Limit) →
    (clearedLimit limit).elim "" renderLimit = limit.elim "" renderLimit
  | none => rfl
  | some ⟨limit, none, _⟩ => by
    simp only [clearedLimit, clearedOption, Option.elim, renderLimit, limit.render_cleared]
  | some ⟨limit, some offset, _⟩ => by
    simp only [clearedLimit, clearedOption, Option.elim, renderLimit, limit.render_cleared,
      offset.render_cleared]

theorem Select.render_cleared : (s : Select) → s.cleared.render = s.render
  | ⟨_, columns, source, condition, groupBy, orderBy, limit, _, _⟩ => by
    rw [Select.cleared, Select.render_eq, Select.render_eq]
    simp only [renderColumns_cleared columns, renderFrom_cleared source,
      renderWhere_cleared condition, renderGroupBy_cleared groupBy,
      renderOrderBy_cleared orderBy, renderLimit_cleared limit]

end

/-! ### Outlines -/

mutual

theorem Expr.outline_cleared : (e : Expr) → e.cleared.outline = e.outline
  | .constant _ _ => rfl
  | .name _ _ => rfl
  | .dot _ left _ => by simp only [Expr.cleared, Expr.outline, Note.cleared, left.outline_cleared]
  | .binary _ left _ right => by
    simp only [Expr.cleared, Expr.outline, Note.cleared, left.outline_cleared,
      right.outline_cleared]
  | .unary _ _ operand => by
    simp only [Expr.cleared, Expr.outline, Note.cleared, operand.outline_cleared]
  | .call _ _ args => by
    simp only [Expr.cleared, Expr.outline, Note.cleared, exprOutlines_cleared args]
  | .callStar _ _ _ => rfl
  | .brackets _ inner => by
    simp only [Expr.cleared, Expr.outline, Note.cleared, inner.outline_cleared]
  | .list _ items => by
    simp only [Expr.cleared, Expr.outline, Note.cleared, exprOutlines_cleared items]
  | .subquery _ select => by
    simp only [Expr.cleared, Expr.outline, Note.cleared, select.outline_cleared]

theorem exprOutlines_cleared : (es : List Expr) → exprOutlines (clearedExprs es) = exprOutlines es
  | [] => rfl
  | e :: es => by simp only [clearedExprs, exprOutlines, e.outline_cleared, exprOutlines_cleared es]

theorem optionOutlines_cleared : (o : Option Expr) →
    optionOutlines (clearedOption o) = optionOutlines o
  | none => rfl
  | some e => by simp only [clearedOption, optionOutlines, e.outline_cleared]

theorem columnOutlines_cleared : (columns : List ResultColumn) →
    columnOutlines (clearedColumns columns) = columnOutlines columns
  | [] => rfl
  | .star _ :: columns => by
    simp only [clearedColumns, columnOutlines, columnOutlines_cleared columns]
  | .tableStar _ :: columns => by
    simp only [clearedColumns, columnOutlines, columnOutlines_cleared columns]
  | .expr value _ :: columns => by
    simp only [clearedColumns, columnOutlines, value.outline_cleared,
      columnOutlines_cleared columns]

theorem Source.outlines_cleared : (source : Source) → source.cleared.outlines = source.outlines
  | .table _ none _ => rfl
  | .table _ (some _) _ => rfl
  | .subquery select _ _ => by simp only [Source.cleared, Source.outlines, select.outline_cleared]

theorem joinOutlines_cleared : (joins : List Join) →
    joinOutlines (clearedJoins joins) = joinOutlines joins
  | [] => rfl
  | ⟨_, _, source, on, _⟩ :: joins => by
    simp only [clearedJoins, joinOutlines, source.outlines_cleared, optionOutlines_cleared on,
      joinOutlines_cleared joins]

theorem sourceOutlines_cleared : (clause : Option FromClause) →
    sourceOutlines (clearedFrom clause) = sourceOutlines clause
  | none => rfl
  | some ⟨source, joins⟩ => by
    simp only [clearedFrom, sourceOutlines, source.outlines_cleared, joinOutlines_cleared joins]

theorem groupOutlines_cleared : (groupBy : Option GroupBy) →
    groupOutlines (clearedGroupBy groupBy) = groupOutlines groupBy
  | none => rfl
  | some ⟨exprs, having, _⟩ => by
    simp only [clearedGroupBy, groupOutlines, exprOutlines_cleared exprs,
      optionOutlines_cleared having]

theorem termOutlines_cleared : (terms : List OrderingTerm) →
    termOutlines (clearedTerms terms) = termOutlines terms
  | [] => rfl
  | ⟨expr, _, _⟩ :: terms => by
    simp only [clearedTerms, termOutlines, expr.outline_cleared, termOutlines_cleared terms]

theorem orderOutlines_cleared : (orderBy : Option OrderBy) →
    orderOutlines (clearedOrderBy orderBy) = orderOutlines orderBy
  | none => rfl
  | some ⟨terms, _⟩ => by simp only [clearedOrderBy, orderOutlines, termOutlines_cleared terms]

theorem limitOutlines_cleared : (limit : Option Limit) →
    limitOutlines (clearedLimit limit) = limitOutlines limit
  | none => rfl
  | some ⟨count, offset, _⟩ => by
    simp only [clearedLimit, limitOutlines, count.outline_cleared, optionOutlines_cleared offset]

theorem Select.outline_cleared : (s : Select) → s.cleared.outline = s.outline
  | ⟨_, columns, source, condition, groupBy, orderBy, limit, _, _⟩ => by
    simp only [Select.cleared, Select.outline, columnOutlines_cleared columns,
      sourceOutlines_cleared source, optionOutlines_cleared condition,
      groupOutlines_cleared groupBy, orderOutlines_cleared orderBy, limitOutlines_cleared limit]

end

/-! ### Texts and outlines of statements -/

theorem renderCondition_cleared (condition : Option Expr) :
    renderCondition (clearedOption condition) = renderCondition condition := by
  cases condition <;> simp only [clearedOption, renderCondition, Expr.render_cleared]

theorem ValueRow.render_cleared (row : ValueRow) : row.cleared.render = row.render := by
  simp only [render, cleared, ← renderExprs_eq, renderExprs_cleared]

theorem Assignment.render_cleared (a : Assignment) : a.cleared.render = a.render := by
  simp only [render, cleared, Expr.render_cleared]

theorem ColumnRule.render_cleared (rule : ColumnRule) : rule.cleared.render = rule.render := by
  cases rule with
  | default value =>
    show (if value.cleared.literal?.isSome then "DEFAULT " ++ value.cleared.render
      else "DEFAULT (" ++ value.cleared.render ++ ")") = _
    rw [value.literal?_cleared, value.render_cleared]
    rfl
  | check condition => exact congrArg (fun text => "CHECK (" ++ text ++ ")") condition.render_cleared
  | _ => rfl

theorem ColumnConstraint.render_cleared (c : ColumnConstraint) : c.cleared.render = c.render := by
  simp only [render, cleared, c.rule.render_cleared]

theorem ColumnDef.render_cleared (d : ColumnDef) : d.cleared.render = d.render := by
  have hconstraints : d.cleared.constraints.map (fun c => " " ++ c.render) =
      d.constraints.map fun c => " " ++ c.render := by
    simp [cleared, Function.comp_def, ColumnConstraint.render_cleared]
  unfold render
  rw [hconstraints]
  rfl

theorem TableRule.render_cleared (rule : TableRule) : rule.cleared.render = rule.render := by
  cases rule with
  | check condition => exact congrArg (fun text => "CHECK (" ++ text ++ ")") condition.render_cleared
  | _ => rfl

theorem TableConstraint.render_cleared (c : TableConstraint) : c.cleared.render = c.render := by
  simp only [render, cleared, c.rule.render_cleared]

theorem AlterAction.render_cleared (action : AlterAction) :
    action.cleared.render = action.render := by
  cases action with
  | addColumn definition => exact congrArg ("ADD COLUMN " ++ ·) definition.render_cleared
  | _ => rfl

theorem Insert.render_cleared (s : Insert) : s.cleared.render = s.render := by
  have hrows : s.cleared.rows.map ValueRow.render = s.rows.map ValueRow.render := by
    simp [cleared, Function.comp_def, ValueRow.render_cleared]
  unfold render
  rw [hrows]
  rfl

theorem Update.render_cleared (s : Update) : s.cleared.render = s.render := by
  have hassignments : s.cleared.assignments.map Assignment.render =
      s.assignments.map Assignment.render := by
    simp [cleared, Function.comp_def, Assignment.render_cleared]
  have hcondition : renderCondition s.cleared.condition = renderCondition s.condition :=
    renderCondition_cleared s.condition
  unfold render
  rw [hassignments, hcondition]
  rfl

theorem CreateTable.render_cleared (s : CreateTable) : s.cleared.render = s.render := by
  have hcolumns : s.cleared.columns.map ColumnDef.render = s.columns.map ColumnDef.render := by
    simp [cleared, Function.comp_def, ColumnDef.render_cleared]
  have hconstraints : s.cleared.constraints.map (fun c => ", " ++ c.render) =
      s.constraints.map fun c => ", " ++ c.render := by
    simp [cleared, Function.comp_def, TableConstraint.render_cleared]
  unfold render
  rw [hcolumns, hconstraints]
  rfl

theorem Statement.render_cleared (s : Statement) : s.cleared.render = s.render := by
  obtain ⟨body, span, comment⟩ := s
  cases body with
  | select s => exact s.render_cleared
  | insert s => exact s.render_cleared
  | update s => exact s.render_cleared
  | delete s =>
    show s.cleared.render = s.render
    simp only [Delete.render, Delete.cleared, renderCondition_cleared]
  | createTable s => exact s.render_cleared
  | alterTable s =>
    show s.cleared.render = s.render
    simp only [AlterTable.render, AlterTable.cleared, AlterAction.render_cleared]
  | dropTable s => rfl

theorem ValueRow.outline_cleared (row : ValueRow) : row.cleared.outline = row.outline := by
  simp only [outline, cleared, exprOutlines_cleared]

theorem Assignment.outlines_cleared (a : Assignment) : a.cleared.outlines = a.outlines := by
  simp only [outlines, cleared, Expr.outline_cleared]

theorem ColumnRule.outlines_cleared (rule : ColumnRule) :
    rule.cleared.outlines = rule.outlines := by
  cases rule <;> simp only [cleared, outlines, Expr.outline_cleared]

theorem ColumnConstraint.outline_cleared (c : ColumnConstraint) :
    c.cleared.outline = c.outline := by
  simp only [outline, cleared, c.rule.outlines_cleared]

theorem ColumnDef.outline_cleared (d : ColumnDef) : d.cleared.outline = d.outline := by
  simp [outline, cleared, Function.comp_def, ColumnConstraint.outline_cleared]

theorem TableRule.outlines_cleared (rule : TableRule) :
    rule.cleared.outlines = rule.outlines := by
  cases rule <;> simp only [cleared, outlines, Expr.outline_cleared]

theorem TableConstraint.outline_cleared (c : TableConstraint) :
    c.cleared.outline = c.outline := by
  simp only [outline, cleared, c.rule.outlines_cleared]

theorem AlterAction.outlines_cleared (action : AlterAction) :
    action.cleared.outlines = action.outlines := by
  cases action <;> simp only [cleared, outlines, ColumnDef.outline_cleared]

theorem StatementBody.outlines_cleared (body : StatementBody) :
    body.cleared.outlines = body.outlines := by
  cases body with
  | select s => simp only [cleared, outlines, s.outline_cleared]
  | insert s => simp [cleared, outlines, Insert.cleared, Function.comp_def, ValueRow.outline_cleared]
  | update s =>
    simp [cleared, outlines, Update.cleared, List.flatMap_map, Assignment.outlines_cleared,
      optionOutlines_cleared]
  | delete s => simp only [cleared, outlines, Delete.cleared, optionOutlines_cleared]
  | createTable s =>
    simp [cleared, outlines, CreateTable.cleared, Function.comp_def, ColumnDef.outline_cleared,
      TableConstraint.outline_cleared]
  | alterTable s =>
    simp only [cleared, outlines, AlterTable.cleared, AlterAction.outlines_cleared]
  | dropTable s => rfl

theorem Statement.outline_cleared (s : Statement) : s.cleared.outline = s.outline := by
  simp only [outline, cleared, s.body.outlines_cleared]

/-! ### Canonical texts of tables -/

/-- The meaning of the type that a column is declared with. -/
def ColumnDef.writtenType? (d : ColumnDef) : Option SqlType :=
  d.typeName.bind fun t => (SqlType.ofParts t.name t.params).toOption

/-- The type of the column, where it is filled in, is the one it is declared with. -/
def ColumnDef.IsTypedAsWritten (d : ColumnDef) : Prop :=
  d.type = none ∨ d.type = d.writtenType?

namespace ColumnDef

variable {d : ColumnDef}

theorem IsTypedAsWritten.knownType?_cleared (h : d.IsTypedAsWritten) :
    d.cleared.knownType? = d.knownType? := by
  show (none <|> d.writtenType?) = (d.type <|> d.writtenType?)
  rcases h with h | h <;> rw [h]
  cases d.writtenType? <;> rfl

theorem canonicalConstraint_cleared (type : Option SqlType) (c : ColumnConstraint) :
    canonicalConstraint type c.cleared = canonicalConstraint type c := by
  have hrender := c.render_cleared
  obtain ⟨name, rule, span⟩ := c
  cases rule with
  | default value =>
    cases type with
    | none => exact hrender
    | some t =>
      simp only [canonicalConstraint, ColumnConstraint.cleared, ColumnRule.cleared,
        Expr.literal?_cleared] at hrender ⊢
      rw [hrender]
  | _ => exact hrender

theorem sortedConstraints_cleared (d : ColumnDef) :
    d.cleared.sortedConstraints = d.sortedConstraints.map ColumnConstraint.cleared := by
  have hrank : ∀ c : ColumnConstraint, c.cleared.rule.rank = c.rule.rank := by
    rintro ⟨name, _ | _⟩ <;> rfl
  refine (List.map_mergeSort fun a _ b _ => ?_).symm
  rw [hrank, hrank]

theorem hasCheck_cleared (d : ColumnDef) (text : String) :
    d.cleared.hasCheck text = d.hasCheck text := by
  simp only [hasCheck, hasRule, cleared, List.any_map, Function.comp_def]
  refine congrArg d.constraints.any (funext fun c => ?_)
  obtain ⟨name, rule, span⟩ := c
  cases rule <;> simp [ColumnConstraint.cleared, ColumnRule.cleared]

/-- The text that stands for a column shows its type only as it is declared. -/
theorem IsTypedAsWritten.canonical_cleared (h : d.IsTypedAsWritten) :
    d.cleared.canonical = d.canonical := by
  have hcheck : ∀ c : ColumnConstraint, c.cleared.rule.isCheck = c.rule.isCheck := by
    rintro ⟨name, _ | _⟩ <;> rfl
  have himplied : d.cleared.impliedCheck? = d.impliedCheck? := by
    simp only [impliedCheck?, h.knownType?_cleared, hasCheck_cleared]
    rfl
  have htype : d.cleared.canonicalType = d.canonicalType := by
    unfold canonicalType
    rw [h.knownType?_cleared]
    rfl
  simp only [canonical, h.knownType?_cleared, himplied, htype, sortedConstraints_cleared,
    List.partition_eq_filter_filter, List.filter_map, List.map_map, Function.comp_def,
    canonicalConstraint_cleared, hcheck]
  rfl

end ColumnDef

def CreateTable.IsTypedAsWritten (s : CreateTable) : Prop :=
  ∀ d ∈ s.columns, d.IsTypedAsWritten

/-- What resolution adds to the definition of a table does not show in its text. -/
theorem CreateTable.IsTypedAsWritten.canonical_cleared {s : CreateTable}
    (h : s.IsTypedAsWritten) : s.cleared.canonical = s.canonical := by
  have hcolumns : s.cleared.columns.map ColumnDef.canonical =
      s.columns.map ColumnDef.canonical := by
    rw [cleared, List.map_map]
    exact List.map_congr_left fun d hd => (h d hd).canonical_cleared
  have hconstraints : s.cleared.constraints.map TableConstraint.render =
      s.constraints.map TableConstraint.render := by
    simp [cleared, Function.comp_def, TableConstraint.render_cleared]
  unfold canonical
  rw [hcolumns, hconstraints]
  rfl

/-- The types of the columns that a statement creates are filled in as they are declared. -/
def StatementBody.IsTypedAsWritten : StatementBody → Prop
  | .createTable s => s.IsTypedAsWritten
  | _ => True

end SqlAnalysis
