import SqlAnalysis.Proofs.Resolution.Framing

/-!
# All resolvers are orderly

Name lookup sees the open scopes only, whose names and marks are the same behind
whatever was done before. With this every resolver for expressions, queries and
statements keeps to its own scope.
-/
namespace SqlAnalysis.Resolver

open ResolverState

variable {α β : Type}

theorem setCatalog_orderly (c : Catalog) : Orderly (setCatalog c) :=
  .modifyCatalog fun _ => c

theorem error_orderly (message : String) (span : Span) : Orderly (error message span) :=
  .complain _ span

theorem errorWithFix_orderly (message : String) (span : Span) (fix : Option String) :
    Orderly (errorWithFix message span fix) :=
  .complain _ span

theorem warning_orderly (message : String) (span : Span) : Orderly (warning message span) :=
  .complain _ span

/-- A complaint that gives nothing. -/
theorem refuse_orderly {r : Resolver Unit} (hr : Orderly r) (a : α) :
    Orderly (do r; return a) :=
  hr.bind fun _ => .pure a

theorem addTable_orderly (name : String) (origin : TableOrigin) :
    Orderly (addTable name origin) := by
  apply catalog_orderly.bind
  intro c
  exact (setCatalog_orderly _).bind fun _ => .pure _

theorem addColumn_orderly (table : TableId) (column : Column) :
    Orderly (addColumn table column) := by
  apply catalog_orderly.bind
  intro c
  exact (setCatalog_orderly _).bind fun _ => .pure _

/-! ### Lists -/

theorem mapM_orderly {f : α → Resolver β} (hf : ∀ a, Orderly (f a)) (as : List α) :
    Orderly (as.mapM f) := by
  induction as with
  | nil => exact .pure []
  | cons a as ih =>
    rw [List.mapM_cons]
    exact (hf a).bind fun b => ih.bind fun bs => .pure (b :: bs)

theorem forM_orderly {f : α → Resolver Unit} (hf : ∀ a, Orderly (f a)) (as : List α) :
    Orderly (as.forM f) := by
  induction as with
  | nil => exact .pure ()
  | cons a as ih => exact (hf a).bind fun _ => ih

/-! ### Names -/

theorem catalogTable?_orderly (name : Ident) : Orderly (catalogTable? name) := by
  apply catalog_orderly.bind
  intro c
  split
  · exact .pure _
  · exact refuse_orderly (errorWithFix_orderly _ _ _) _
  · exact refuse_orderly (error_orderly _ _) _

theorem visibleNames_orderly (wanted : Symbol → Bool) : Orderly (visibleNames wanted) := by
  apply Orderly.view (fun s => .pure _)
  intro s s' _ hscopes _
  rw [hscopes]

/-- The complaint about a name that no open scope has, unless one of them is opaque. -/
theorem missing_orderly (wanted : Symbol → Bool) (message : String) (span : Span)
    (fix? : List String → Option String) (a : α) :
    Orderly (do
      if !(← get).isOpaque then
        let names ← visibleNames wanted
        errorWithFix message span (fix? names)
      return a) := by
  refine .view (fun s => ?_) fun _ _ _ _ hunknown => by simp only [hunknown]
  split
  · exact (visibleNames_orderly _).bind fun names => refuse_orderly (errorWithFix_orderly _ _ _) _
  · exact .pure _

theorem scopeTable?_orderly (name : Ident) : Orderly (scopeTable? name) := by
  refine .view (fun s => ?_) fun _ _ _ hscopes _ => by simp only [hscopes]
  split
  · split
    · exact .pure _
    · exact refuse_orderly (error_orderly _ _) _
  · exact missing_orderly _ _ _ _ _

theorem scopeColumn?_orderly (name : Ident) : Orderly (scopeColumn? name) := by
  refine .view (fun s => ?_) fun _ _ _ hscopes _ => by simp only [hscopes]
  split
  · split
    · exact .pure _
    · exact catalog_orderly.bind fun c => refuse_orderly (error_orderly _ _) _
  · exact missing_orderly _ _ _ _ _

theorem tableColumn?_orderly (table : TableId) (name : Ident) :
    Orderly (tableColumn? table name) := by
  apply catalog_orderly.bind
  intro c
  dsimp only
  split
  · exact .pure _
  · exact refuse_orderly (errorWithFix_orderly _ _ _) _
  · exact refuse_orderly (error_orderly _ _) _

theorem columnType_orderly (column : Option ColumnId) : Orderly (columnType column) :=
  catalog_orderly.bind fun _ => .pure _

/-! ### Expressions and queries -/

theorem requireBoolean_orderly (clause : String) (e : Expr) :
    Orderly (requireBoolean clause e) := by
  unfold requireBoolean
  split
  · split
    · exact error_orderly _ _
    · exact .pure ()
  · exact .pure ()

/-- Whether a resolver does something orderly in a scope of its own. -/
def RunsWithin (r : Resolver α) : Prop :=
  ∃ span inner, Orderly inner ∧ r = within span inner

theorem RunsWithin.orderly {r : Resolver α} (h : RunsWithin r) : Orderly r := by
  obtain ⟨span, inner, hinner, rfl⟩ := h
  exact hinner.within span

/-- Wherever it is run, it does the same behind whatever was done before. -/
theorem RunsWithin.run_behind {r : Resolver α} (h : RunsWithin r) (s : ResolverState)
    (ds : List Diagnostic) (trees : List ScopeTree) :
    r.run (s.behind ds trees) = ((r.run s).1, (r.run s).2.behind ds trees) := by
  obtain ⟨span, inner, hinner, rfl⟩ := h
  have hbehind := (hinner (s.enter span) (List.cons_ne_nil _ _)).behind
  rw [run_within, run_within, enter_behind, hbehind, leave_behind]

theorem condition_within {resolved : Resolver Expr} (h : Orderly resolved) (clause : String)
    (span : Span) : RunsWithin (condition clause span resolved) :=
  ⟨span, _, h.bind fun e => refuse_orderly (requireBoolean_orderly clause e) e, rfl⟩

theorem condition_orderly {resolved : Resolver Expr} (h : Orderly resolved) (clause : String)
    (span : Span) : Orderly (condition clause span resolved) :=
  (condition_within h clause span).orderly

theorem requireInteger_orderly (e : Expr) : Orderly (requireInteger e) := by
  unfold requireInteger
  split
  · split
    · exact error_orderly _ _
    · exact .pure ()
  · exact .pure ()

theorem requireMember_orderly (left element : Option SqlType) (op : BinaryOperator) (span : Span) :
    Orderly (requireMember left element op span) := by
  unfold requireMember
  split
  · split
    · exact error_orderly _ _
    · exact .pure ()
  · exact .pure ()

theorem binaryType_orderly (op : BinaryOperator) (left right : Option SqlType) (span : Span) :
    Orderly (binaryType op left right span) := by
  unfold binaryType
  split
  · dsimp only
    split
    · exact refuse_orderly (error_orderly _ _) _
    · exact .pure _
  · exact .pure _

theorem unaryType_orderly (op : UnaryOperator) (operand : Option SqlType) (span : Span) :
    Orderly (unaryType op operand span) := by
  unfold unaryType
  split
  · dsimp only
    split
    · exact refuse_orderly (error_orderly _ _) _
    · exact .pure _
  · exact .pure _

theorem callType_orderly (function : Ident) (args : List (Option SqlType)) (star : Bool)
    (span : Span) : Orderly (callType function args star span) := by
  unfold callType
  split
  · exact .pure _
  · exact refuse_orderly (errorWithFix_orderly _ _ _) _
  · exact refuse_orderly (error_orderly _ _) _
  · exact refuse_orderly (error_orderly _ _) _

theorem dot_orderly (note : Note) (left : Expr) (right : Ident) :
    Orderly (dot note left right) := by
  unfold dot
  split
  · refine (scopeTable?_orderly _).bind fun table? => ?_
    split
    · apply (tableColumn?_orderly _ _).bind
      intro column
      exact (columnType_orderly column).bind fun type => .pure _
    · exact .pure _
  · exact refuse_orderly (error_orderly _ _) _

theorem onlyColumnType_orderly (table : TableId) {wrongCount : Nat → Resolver Unit}
    (h : ∀ n, Orderly (wrongCount n)) : Orderly (onlyColumnType table wrongCount) := by
  apply catalog_orderly.bind
  intro c
  split
  · exact .pure _
  · exact refuse_orderly (h _) _

theorem addResultColumn_orderly (result : TableId) (value : Expr) (label : Option Ident) :
    Orderly (addResultColumn result value label) := by
  unfold addResultColumn
  exact (addColumn_orderly _ _).bind fun id => .pure _

theorem addStar_orderly (result : TableId) (hasSource : Bool) (joined : List (String × TableId))
    (span : Span) : Orderly (addStar result hasSource joined span) := by
  unfold addStar
  split
  · exact (error_orderly _ _).bind fun _ => .modifyCatalog _
  · exact .modifyCatalog _

theorem addTableStar_orderly (result : TableId) (joined : List (String × TableId)) (name : Ident) :
    Orderly (addTableStar result joined name) := by
  unfold addTableStar
  split
  · exact .modifyCatalog _
  · exact errorWithFix_orderly _ _ _

theorem tableSource_orderly (name : Ident) (label : Option Ident) :
    Orderly (tableSource name label) := by
  refine (catalogTable?_orderly name).bind fun table? => ?_
  split
  · exact (Orderly.bindTable _ _).bind fun _ => .pure _
  · exact (Orderly.modifyFrame fun _ => rfl).bind fun _ => .pure _

theorem bindSubquery_orderly (label : Option Ident) (table : TableId) :
    Orderly (bindSubquery label table) := by
  unfold bindSubquery
  split
  · exact .bindTable _ _
  · exact .bindColumns _

theorem bindAliases_orderly (aliases : List (String × ColumnId)) :
    Orderly (modify fun s => aliases.foldl (fun s entry => s.bindColumn entry.1 entry.2) s) := by
  induction aliases with
  | nil => exact .pure ()
  | cons entry aliases ih => exact (Orderly.bindColumn entry.1 entry.2).bind fun _ => ih

mutual

theorem term_orderly : (e : Expr) → Orderly (term e)
  | .constant _ _ => .pure _
  | .name _ ident => by
    rw [term]
    apply (scopeColumn?_orderly ident).bind
    intro column
    exact (columnType_orderly column).bind fun type => .pure _
  | .dot note left right => by
    rw [term]
    exact dot_orderly note left right
  | .binary note left op right => by
    rw [term]
    apply (term_orderly left).bind
    intro left
    have hright := term_orderly right
    dsimp only
    split
    · cases right with
      | subquery rightNote select =>
        apply (query_within "subquery" select).orderly.bind
        intro result
        apply (onlyColumnType_orderly _ fun _ => error_orderly _ _).bind
        intro type
        exact refuse_orderly (requireMember_orderly _ _ _ _) _
      | list rightNote items =>
        exact (memberTerms_orderly left.type op items).bind fun items => .pure _
      | _ =>
        exact hright.bind fun right => refuse_orderly (requireMember_orderly _ _ _ _) _
    · apply hright.bind
      intro right
      exact (binaryType_orderly _ _ _ _).bind fun type => .pure _
  | .unary note op operand => by
    rw [term]
    apply (term_orderly operand).bind
    intro operand
    exact (unaryType_orderly _ _ _).bind fun type => .pure _
  | .call note function args => by
    rw [term]
    apply (terms_orderly args).bind
    intro args
    exact (callType_orderly _ _ _ _).bind fun type => .pure _
  | .callStar note function star => by
    rw [term]
    exact (callType_orderly _ _ _ _).bind fun type => .pure _
  | .brackets note inner => by
    rw [term]
    exact (term_orderly inner).bind fun inner => .pure _
  | .list note items => by
    rw [term]
    exact (terms_orderly items).bind fun items => .pure _
  | .subquery note select => by
    rw [term]
    apply (query_within "subquery" select).orderly.bind
    intro result
    exact (onlyColumnType_orderly _ fun _ => error_orderly _ _).bind fun type => .pure _

theorem terms_orderly : (es : List Expr) → Orderly (terms es)
  | [] => .pure _
  | e :: es => by
    rw [terms]
    exact (term_orderly e).bind fun e => (terms_orderly es).bind fun es => .pure _

theorem memberTerms_orderly (left : Option SqlType) (op : BinaryOperator) :
    (es : List Expr) → Orderly (memberTerms left op es)
  | [] => .pure _
  | e :: es => by
    rw [memberTerms]
    refine (term_orderly e).bind fun e => (requireMember_orderly _ _ _ _).bind fun _ => ?_
    exact (memberTerms_orderly left op es).bind fun es => .pure _

theorem source_orderly : (s : Source) → Orderly (source s)
  | .table name label _ => by
    rw [source]
    exact tableSource_orderly name label
  | .subquery select label span => by
    rw [source]
    apply (query_within (subqueryName label) select).orderly.bind
    intro result
    exact (bindSubquery_orderly _ _).bind fun _ => .pure _

theorem joins_orderly : (js : List Join) → Orderly (joins js)
  | [] => .pure _
  | ⟨_, _, table, none, _⟩ :: rest => by
    rw [joins]
    apply (source_orderly table).bind
    intro result
    exact (joins_orderly rest).bind fun results => .pure _
  | ⟨_, _, table, some on, _⟩ :: rest => by
    rw [joins]
    apply (source_orderly table).bind
    intro result
    apply (condition_orderly (term_orderly on) _ _).bind
    intro on
    exact (joins_orderly rest).bind fun results => .pure _

theorem resultColumns_orderly (result : TableId) (hasSource : Bool)
    (joined : List (String × TableId)) :
    (columns : List ResultColumn) → Orderly (resultColumns result hasSource joined columns)
  | [] => .pure _
  | .star span :: rest => by
    rw [resultColumns]
    apply (addStar_orderly _ _ _ _).bind
    intro _
    exact (resultColumns_orderly result hasSource joined rest).bind fun results => .pure _
  | .tableStar table :: rest => by
    rw [resultColumns]
    apply (addTableStar_orderly _ _ _).bind
    intro _
    exact (resultColumns_orderly result hasSource joined rest).bind fun results => .pure _
  | .expr value label :: rest => by
    rw [resultColumns]
    apply (term_orderly value).bind
    intro value
    apply (addResultColumn_orderly _ _ _).bind
    intro entry
    exact (resultColumns_orderly result hasSource joined rest).bind fun results => .pure _

theorem orderingTerms_orderly : (items : List OrderingTerm) → Orderly (orderingTerms items)
  | [] => .pure _
  | ⟨expr, _, _⟩ :: rest => by
    rw [orderingTerms]
    apply (term_orderly expr).bind
    intro expr
    exact (orderingTerms_orderly rest).bind fun items => .pure _

theorem sources_orderly : (clause : Option FromClause) → Orderly (sources clause)
  | none => .pure _
  | some ⟨first, others⟩ => by
    rw [sources]
    apply (source_orderly first).bind
    intro result
    exact (joins_orderly others).bind fun results => .pure _

theorem rowCondition_orderly : (test : Option Expr) → Orderly (rowCondition test)
  | none => .pure _
  | some e => by
    rw [rowCondition]
    exact (condition_orderly (term_orderly e) _ _).map _

theorem groups_orderly : (clause : Option GroupBy) → Orderly (groups clause)
  | none => .pure _
  | some ⟨exprs, none, span⟩ => by
    rw [groups]
    exact (terms_orderly exprs).bind fun exprs => .pure _
  | some ⟨exprs, some having, span⟩ => by
    rw [groups]
    apply (terms_orderly exprs).bind
    intro exprs
    exact (condition_orderly (term_orderly having) _ _).bind fun having => .pure _

theorem order_orderly (aliases : List (String × ColumnId)) :
    (clause : Option OrderBy) → Orderly (order aliases clause)
  | none => .pure _
  | some ⟨items, span⟩ => by
    rw [order]
    refine .within ((bindAliases_orderly aliases).bind fun _ => ?_) span
    exact (orderingTerms_orderly items).bind fun items => .pure _

theorem limits_orderly : (clause : Option Limit) → Orderly (limits clause)
  | none => .pure _
  | some ⟨count, none, span⟩ => by
    rw [limits]
    apply (term_orderly count).bind
    intro count
    exact refuse_orderly (requireInteger_orderly count) _
  | some ⟨count, some offset, span⟩ => by
    rw [limits]
    apply (term_orderly count).bind
    intro count
    apply (requireInteger_orderly count).bind
    intro _
    apply (term_orderly offset).bind
    intro offset
    exact refuse_orderly (requireInteger_orderly offset) _

theorem query_within (name : String) : (s : Select) → RunsWithin (query name s)
  | ⟨distinct, columns, clause, test, groupBy, orderBy, limit, span, _⟩ => by
    rw [query]
    refine ⟨span, _, ?_, rfl⟩
    apply (sources_orderly clause).bind
    intro sources
    apply (addTable_orderly _ _).bind
    intro result
    apply (resultColumns_orderly result _ _ columns).bind
    intro entries
    apply (rowCondition_orderly test).bind
    intro test
    apply (groups_orderly groupBy).bind
    intro groupBy
    apply (order_orderly _ orderBy).bind
    intro orderBy
    exact (limits_orderly limit).bind fun limit => .pure _

end

theorem query_orderly (name : String) (s : Select) : Orderly (query name s) :=
  (query_within name s).orderly

/-! ### Rows -/

theorem requireStorable_orderly (value : Expr) (column : ColumnId) :
    Orderly (requireStorable value column) := by
  apply catalog_orderly.bind
  intro c
  dsimp only
  split
  · exact .pure ()
  · split
    · split
      · exact errorWithFix_orderly _ _ _
      · exact .pure ()
    · split
      · split
        · exact errorWithFix_orderly _ _ _
        · exact .pure ()
      · exact .pure ()

theorem target?_orderly (name : Ident) : Orderly (target? name) := by
  refine (catalogTable?_orderly name).bind fun table? => ?_
  split
  · exact (Orderly.bindTable _ _).bind fun _ => .pure _
  · exact .pure _

theorem requireUnlisted_orderly (seen : List String) (ident : Ident) :
    Orderly (requireUnlisted seen ident) := by
  unfold requireUnlisted
  split
  · exact error_orderly _ _
  · exact .pure ()

theorem listedColumns_orderly (table : TableId) (idents : List Ident) :
    ∀ seen, Orderly (listedColumns table seen idents) := by
  induction idents with
  | nil => exact fun _ => .pure _
  | cons ident idents ih =>
    intro seen
    rw [listedColumns]
    apply (requireUnlisted_orderly seen ident).bind
    intro _
    apply (tableColumn?_orderly table ident).bind
    intro column
    exact (ih _).bind fun results => .pure _

theorem storedTerms_orderly (es : List Expr) :
    ∀ columns, Orderly (storedTerms columns es) := by
  induction es with
  | nil =>
    intro columns
    cases columns <;> exact .pure _
  | cons e es ih =>
    intro columns
    cases columns with
    | nil =>
      rw [storedTerms]
      exact (term_orderly e).bind fun e => (ih []).bind fun es => .pure _
    | cons column columns =>
      rw [storedTerms]
      refine (term_orderly e).bind fun e => (requireStorable_orderly e column).bind fun _ => ?_
      exact (ih columns).bind fun es => .pure _

theorem requireLength_orderly (targets : List ColumnId) (row : ValueRow) :
    Orderly (requireLength targets row) := by
  unfold requireLength
  split
  · exact error_orderly _ _
  · exact .pure ()

theorem valueRow_orderly (targets : List ColumnId) (complete : Bool) (row : ValueRow) :
    Orderly (valueRow targets complete row) := by
  unfold valueRow
  split
  · apply (requireLength_orderly targets row).bind
    intro _
    exact (storedTerms_orderly row.values targets).bind fun values => .pure _
  · exact (storedTerms_orderly row.values []).bind fun values => .pure _

theorem insertTargets_orderly (table : TableId) (columns : List Ident) :
    Orderly (insertTargets table columns) := by
  unfold insertTargets
  split
  · exact catalog_orderly.bind fun c => .pure _
  · exact listedColumns_orderly table columns []

theorem insertRows_orderly (targets : List ColumnId) (complete : Bool) (rows : List ValueRow) :
    Orderly (insertRows targets complete rows) := by
  cases rows with
  | nil => exact .pure _
  | cons first rest => exact .within (mapM_orderly (valueRow_orderly targets complete) _) _

theorem insert_orderly (s : Insert) : Orderly (insert s) := by
  refine (target?_orderly s.table).bind fun table? => ?_
  split
  · exact .pure _
  · apply (insertTargets_orderly _ s.columns).bind
    intro targets
    exact (insertRows_orderly _ _ s.rows).bind fun rows => .pure _

theorem assignment_orderly (table : TableId) (a : Assignment) :
    Orderly (assignment table a) := by
  apply (tableColumn?_orderly table a.column).bind
  intro column
  apply (term_orderly a.value).bind
  intro value
  split
  · exact refuse_orderly (requireStorable_orderly _ _) _
  · exact .pure _

theorem update_orderly (s : Update) : Orderly (update s) := by
  refine (target?_orderly s.table).bind fun table? => ?_
  split
  · exact .pure _
  · apply (mapM_orderly (assignment_orderly _) s.assignments).bind
    intro assignments
    exact (rowCondition_orderly s.condition).bind fun condition => .pure _

theorem delete_orderly (s : Delete) : Orderly (delete s) := by
  refine (target?_orderly s.table).bind fun table? => ?_
  split
  · exact .pure _
  · exact (rowCondition_orderly s.condition).bind fun condition => .pure _

/-! ### Tables -/

theorem declaredType?_orderly (typeName : Option TypeName) : Orderly (declaredType? typeName) := by
  unfold declaredType?
  split
  · exact .pure _
  · split
    · exact .pure _
    · exact refuse_orderly (error_orderly _ _) _

theorem defineColumn_orderly (table : TableId) (d : ColumnDef) :
    Orderly (defineColumn table d) := by
  apply (declaredType?_orderly d.typeName).bind
  intro type
  exact (addColumn_orderly table _).bind fun id => .pure _

theorem keyTargets?_orderly (table : TableId) (clause : ForeignKeyClause) :
    Orderly (keyTargets? table clause) := by
  unfold keyTargets?
  split
  · apply catalog_orderly.bind
    intro c
    split
    · exact .pure _
    · exact refuse_orderly (error_orderly _ _) _
  · refine .bind (mapM_orderly (fun ident => ?_) _) fun targets => .pure _
    exact (tableColumn?_orderly table ident).bind fun column => .pure _

theorem requireKey_orderly (referenced : Column) (place : Span) :
    Orderly (requireKey referenced place) := by
  unfold requireKey
  split
  · exact warning_orderly _ _
  · exact .pure ()

theorem requireReferable_orderly (name : Ident) (column referenced : Column) :
    Orderly (requireReferable name column referenced) := by
  unfold requireReferable
  split
  · split
    · exact error_orderly _ _
    · exact .pure ()
  · exact .pure ()

theorem linkColumn_orderly (source : Ident × Option ColumnId) (target : Option ColumnId × Span) :
    Orderly (linkColumn source target) := by
  unfold linkColumn
  split
  · apply catalog_orderly.bind
    intro c
    apply (requireKey_orderly _ _).bind
    intro _
    exact (requireReferable_orderly _ _ _).bind fun _ => .modifyCatalog _
  · exact .pure ()

theorem foreignKey_orderly (sources : List (Ident × Option ColumnId)) (clause : ForeignKeyClause) :
    Orderly (foreignKey sources clause) := by
  refine (catalogTable?_orderly clause.table).bind fun table? => ?_
  split
  · refine (keyTargets?_orderly _ clause).bind fun targets? => ?_
    split
    · split
      · exact error_orderly _ _
      · refine forM_orderly ?_ _
        rintro ⟨source, target⟩
        exact linkColumn_orderly source target
    · exact .pure ()
  · exact .pure ()

theorem columnRule_orderly (name : Ident) (column : ColumnId) (rule : ColumnRule) :
    Orderly (columnRule name column rule) := by
  unfold columnRule
  split
  · apply (term_orderly _).bind
    intro value
    exact refuse_orderly (requireStorable_orderly value column) _
  · exact (condition_orderly (term_orderly _) _ _).bind fun e => .pure _
  · exact refuse_orderly (foreignKey_orderly _ _) _
  · exact .pure _

theorem columnRules_orderly (d : ColumnDef) : Orderly (columnRules d) := by
  unfold columnRules
  split
  · exact .pure _
  · refine .bind (mapM_orderly (fun c => ?_) _) fun constraints => .pure _
    exact (columnRule_orderly _ _ c.rule).bind fun rule => .pure _

theorem defineColumns_orderly (table : TableId) (ds : List ColumnDef) :
    ∀ seen, Orderly (defineColumns table seen ds) := by
  induction ds with
  | nil => exact fun _ => .pure _
  | cons d ds ih =>
    intro seen
    rw [defineColumns]
    dsimp only
    split
    · exact (error_orderly _ _).bind fun _ => (ih seen).bind fun ds => .pure _
    · apply (defineColumn_orderly table d).bind
      intro result
      exact (ih _).bind fun ds => .pure _

theorem markPrimaryKey_orderly (table : TableId) (rule : TableRule) :
    Orderly (markPrimaryKey table rule) := by
  unfold markPrimaryKey
  split
  · refine forM_orderly (fun ident => ?_) _
    apply (tableColumn?_orderly table ident).bind
    intro column
    split
    · exact .modifyCatalog _
    · exact .pure ()
  · exact .pure ()

theorem tableRule_orderly (table : TableId) (rule : TableRule) :
    Orderly (tableRule table rule) := by
  unfold tableRule
  split
  · exact .pure _
  · refine refuse_orderly (forM_orderly (fun ident => ?_) _) _
    exact (tableColumn?_orderly table ident).bind fun column => .pure ()
  · exact (condition_orderly (term_orderly _) _ _).bind fun e => .pure _
  · refine .bind (mapM_orderly (fun ident => ?_) _) fun sources =>
      refuse_orderly (foreignKey_orderly sources _) _
    exact (tableColumn?_orderly table ident).bind fun column => .pure _

theorem createTable_orderly (s : CreateTable) : Orderly (createTable s) := by
  apply catalog_orderly.bind
  intro c
  split
  · split
    · exact refuse_orderly (error_orderly _ _) _
    · exact .pure _
  · apply (addTable_orderly _ _).bind
    intro table
    apply (defineColumns_orderly table s.columns []).bind
    intro columns
    apply (forM_orderly (fun c : TableConstraint => markPrimaryKey_orderly table c.rule) _).bind
    intro _
    apply (Orderly.bindTable _ _).bind
    intro _
    apply (mapM_orderly columnRules_orderly columns).bind
    intro columns
    refine .bind (mapM_orderly (fun c => ?_) _) fun constraints => .pure _
    exact (tableRule_orderly table c.rule).bind fun rule => .pure _

theorem alterAction_orderly (table : TableId) (action : AlterAction) :
    Orderly (alterAction table action) := by
  unfold alterAction
  split
  · apply catalog_orderly.bind
    intro c
    split
    · exact refuse_orderly (error_orderly _ _) _
    · apply (defineColumn_orderly table _).bind
      intro result
      apply (Orderly.bindColumn _ _).bind
      intro _
      exact (columnRules_orderly _).bind fun d => .pure _
  · apply (tableColumn?_orderly table _).bind
    intro column
    split
    · exact refuse_orderly (.modifyCatalog _) _
    · exact .pure _
  · apply (tableColumn?_orderly table _).bind
    intro column
    split
    · apply catalog_orderly.bind
      intro c
      split
      · exact refuse_orderly (error_orderly _ _) _
      · exact refuse_orderly (.modifyCatalog _) _
    · exact .pure _
  · apply catalog_orderly.bind
    intro c
    split
    · exact refuse_orderly (error_orderly _ _) _
    · exact refuse_orderly (.modifyCatalog _) _

theorem alterTable_orderly (s : AlterTable) : Orderly (alterTable s) := by
  refine (target?_orderly s.table).bind fun table? => ?_
  split
  · exact .pure _
  · exact (alterAction_orderly _ s.action).bind fun action => .pure _

theorem dropTable_orderly (s : DropTable) : Orderly (dropTable s) := by
  apply catalog_orderly.bind
  intro c
  split
  · exact .pure _
  · refine (catalogTable?_orderly s.table).bind fun table? => ?_
    split
    · exact .pure _
    · exact refuse_orderly (.modifyCatalog _) _

theorem statementBody_orderly (body : StatementBody) : Orderly (statementBody body) := by
  cases body with
  | select s => exact (query_orderly "result" s).bind fun result => .pure _
  | insert s => exact (insert_orderly s).bind fun s => .pure _
  | update s => exact (update_orderly s).bind fun s => .pure _
  | delete s => exact (delete_orderly s).bind fun s => .pure _
  | createTable s => exact (createTable_orderly s).bind fun s => .pure _
  | alterTable s => exact (alterTable_orderly s).bind fun s => .pure _
  | dropTable s => exact (dropTable_orderly s).bind fun s => .pure _

end SqlAnalysis.Resolver
