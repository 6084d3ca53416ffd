import SqlAnalysis.Proofs.Resolution.Batches
import SqlAnalysis.Proofs.Resolution.TwinQueries

/-!
# Statements resolved side by side

The resolvers of alike statements are twins, and so are those of whole batches.
-/
namespace SqlAnalysis.Resolver

open ResolverState Text

variable {forget : Prop}

/-! ### Rows -/

theorem requireStorable_twins {value value' : Expr} (h : value.Like forget value')
    (column : ColumnId) :
    Twins forget (requireStorable value column) (requireStorable value' column) Eq := by
  have hvalue := h.type
  apply catalog_twins.bind
  intro c c' hc
  have hcolumn := (hc.column column).type
  dsimp only
  rw [← h.literal?_eq, ← h.span_eq]
  generalize (c.column column).type = type at hcolumn
  generalize (c'.column column).type = type' at hcolumn
  generalize value.type = valueType at hvalue
  generalize value'.type = valueType' at hvalue
  apply SettledTwins.twins
  apply SettledTwins.forgetting hcolumn
  · exact ⟨(), rfl, fun _ _ => rfl⟩
  intro type
  split
  · exact .pure rfl
  · split
    · split
      · exact .errorWithFix _ _ _ _ _
      · exact .pure rfl
    · apply SettledTwins.forgetting hvalue
      · exact ⟨(), rfl, fun _ _ => rfl⟩
      intro valueType
      split
      · split
        · exact .errorWithFix _ _ _ _ _
        · exact .pure rfl
      · exact .pure rfl

theorem target?_twins {name name' : Ident} (h : name.Like name') :
    Twins forget (target? name) (target? name') Eq := by
  apply (catalogTable?_twins h).bind
  rintro table? _ rfl
  split
  · exact refuse_twins (.bindTable h.name _) rfl
  · exact .pure rfl

theorem requireUnlisted_twins (seen : List String) {ident ident' : Ident}
    (h : ident.Like ident') :
    Twins forget (requireUnlisted seen ident) (requireUnlisted seen ident') Eq := by
  unfold requireUnlisted
  rw [h.name, h.span]
  split
  · exact error_twins _ _ _
  · exact .pure rfl

theorem listedColumns_twins (table : TableId) {idents idents' : List Ident}
    (h : List.Forall₂ Ident.Like idents idents') :
    ∀ seen, Twins forget (listedColumns table seen idents) (listedColumns table seen idents')
      Eq := by
  induction h with
  | nil => exact fun _ => .pure rfl
  | cons hident _ ih =>
    intro seen
    rw [listedColumns, listedColumns]
    apply (requireUnlisted_twins seen hident).bind
    intro _ _ _
    apply (tableColumn?_twins table hident).bind
    rintro column _ rfl
    rw [hident.name]
    apply (ih _).bind
    rintro results _ rfl
    exact .pure rfl

theorem storedTerms_twins {es es' : List Expr} (h : List.Forall₂ (Expr.Like forget) es es') :
    ∀ columns, Twins forget (storedTerms columns es) (storedTerms columns es')
      (List.Forall₂ (Expr.Like forget)) := by
  induction h with
  | nil =>
    intro columns
    cases columns <;> exact .pure .nil
  | cons he _ ih =>
    intro columns
    cases columns with
    | nil =>
      rw [storedTerms, storedTerms]
      apply (term_twins _ he).bind
      intro e e' he
      exact (ih []).bind fun es es' hes => .pure (.cons he hes)
    | cons column columns =>
      rw [storedTerms, storedTerms]
      apply (term_twins _ he).bind
      intro e e' he
      apply (requireStorable_twins he column).bind
      intro _ _ _
      exact (ih columns).bind fun es es' hes => .pure (.cons he hes)

theorem requireLength_twins (targets : List ColumnId) {row row' : ValueRow}
    (h : row.Like forget row') :
    Twins forget (requireLength targets row) (requireLength targets row') Eq := by
  unfold requireLength
  rw [h.values.length_eq, h.span]
  split
  · exact error_twins _ _ _
  · exact .pure rfl

theorem valueRow_twins (targets : List ColumnId) (complete : Bool) {row row' : ValueRow}
    (h : row.Like forget row') :
    Twins forget (valueRow targets complete row) (valueRow targets complete row')
      (ValueRow.Like forget) := by
  unfold valueRow
  split
  · apply (requireLength_twins targets h).bind
    intro _ _ _
    exact (storedTerms_twins h.values targets).bind fun _ _ hvalues => .pure ⟨hvalues, h.span⟩
  · exact (storedTerms_twins h.values []).bind fun _ _ hvalues => .pure ⟨hvalues, h.span⟩

theorem insertTargets_twins (table : TableId) {columns columns' : List Ident}
    (h : List.Forall₂ Ident.Like columns columns') :
    Twins forget (insertTargets table columns) (insertTargets table columns') Eq := by
  unfold insertTargets
  rw [forall₂_isEmpty h]
  split
  · exact catalog_twins.bind fun c c' hc => .pure (by rw [(hc.table table).columns])
  · exact listedColumns_twins table h []

theorem insertRows_twins (targets : List ColumnId) (complete : Bool) {rows rows' : List ValueRow}
    (h : List.Forall₂ (ValueRow.Like forget) rows rows') :
    Twins forget (insertRows targets complete rows) (insertRows targets complete rows')
      (List.Forall₂ (ValueRow.Like forget)) := by
  have hspan : ∀ {rest rest' : List ValueRow}, List.Forall₂ (ValueRow.Like forget) rest rest' →
      ∀ span : Span, rest.foldl (fun span row => span.merge row.span) span =
        rest'.foldl (fun span row => span.merge row.span) span := by
    intro rest rest' hrest
    induction hrest with
    | nil => exact fun _ => rfl
    | cons hrow _ ih =>
      intro span
      rw [List.foldl_cons, List.foldl_cons, hrow.span, ih]
  cases h with
  | nil => exact .pure .nil
  | cons hfirst hrest =>
    rw [insertRows, insertRows, hfirst.span, hspan hrest]
    have hrows := List.Forall₂.cons hfirst hrest
    exact .within (.mapM hrows fun _ _ => valueRow_twins targets complete) _

theorem insert_twins {s s' : Insert} (h : s.Like forget s') :
    Twins forget (insert s) (insert s') (Insert.Like forget) := by
  apply (target?_twins h.table).bind
  rintro table? _ rfl
  split
  · exact .pure h
  · apply (insertTargets_twins _ h.columns).bind
    rintro ⟨targets, complete⟩ _ rfl
    apply (insertRows_twins targets complete h.rows).bind
    intro rows rows' hrows
    exact .pure ⟨h.table, rfl, h.columns, hrows, rfl⟩

theorem assignment_twins (table : TableId) {a a' : Assignment} (h : a.Like forget a') :
    Twins forget (assignment table a) (assignment table a') (Assignment.Like forget) := by
  apply (tableColumn?_twins table h.column).bind
  rintro column _ rfl
  apply (term_twins _ h.value).bind
  intro value value' hvalue
  split
  · exact refuse_twins (requireStorable_twins hvalue _) ⟨h.column, rfl, hvalue⟩
  · exact .pure ⟨h.column, rfl, hvalue⟩

theorem update_twins {s s' : Update} (h : s.Like forget s') :
    Twins forget (update s) (update s') (Update.Like forget) := by
  apply (target?_twins h.table).bind
  rintro table? _ rfl
  split
  · exact .pure h
  · next table =>
    apply (Twins.mapM h.assignments fun _ _ => assignment_twins table).bind
    intro assignments assignments' hassignments
    apply (rowCondition_twins _ h.condition).bind
    intro condition condition' hcondition
    exact .pure ⟨h.table, rfl, hassignments, hcondition⟩

theorem delete_twins {s s' : Delete} (h : s.Like forget s') :
    Twins forget (delete s) (delete s') (Delete.Like forget) := by
  apply (target?_twins h.table).bind
  rintro table? _ rfl
  split
  · exact .pure h
  · apply (rowCondition_twins _ h.condition).bind
    intro condition condition' hcondition
    exact .pure ⟨h.table, rfl, hcondition⟩

/-! ### Definitions of columns -/

theorem declaredType?_twins {written written' : Option TypeName}
    (h : Option.Rel TypeName.Like written written') :
    Twins forget (declaredType? written) (declaredType? written') Eq := by
  cases h with
  | none => exact .pure rfl
  | @some written written' hwritten =>
    have htype := SqlType.ofParts_eq hwritten.name written.params
    rw [declaredType?, declaredType?, ← hwritten.params, ← hwritten.span]
    generalize SqlType.ofParts written.name written.params = type at htype
    generalize SqlType.ofParts written'.name written.params = type' at htype
    cases type with
    | ok type =>
      cases type' with
      | ok type' =>
        obtain rfl := Option.some.inj htype
        exact .pure rfl
      | error e' => cases htype
    | error e =>
      cases type' with
      | ok type' => cases htype
      | error e' => exact refuse_twins (error_twins _ _ _) rfl

theorem applyRule_like {column column' : Column} (h : column.Like forget column')
    {rule rule' : ColumnRule} (hrule : rule.Like forget rule') :
    (applyRule column rule).Like forget (applyRule column' rule') := by
  cases hrule with
  | notNull => exact { h with nullable := rfl, notNull := rfl }
  | primaryKey _ _ => exact { h with primaryKey := rfl, nullable := rfl }
  | default _ => exact { h with }
  | _ => exact h

theorem applyRules_like {constraints constraints' : List ColumnConstraint}
    (h : List.Forall₂ (ColumnConstraint.Like forget) constraints constraints')
    {column column' : Column} (hcolumn : column.Like forget column') :
    (constraints.foldl (fun column c => applyRule column c.rule) column).Like forget
      (constraints'.foldl (fun column c => applyRule column c.rule) column') := by
  induction h generalizing column column' with
  | nil => exact hcolumn
  | cons hc _ ih => exact ih (applyRule_like hcolumn hc.rule)

theorem defineColumn_twins (table : TableId) {d d' : ColumnDef} (h : d.Like forget d') :
    Twins forget (defineColumn table d) (defineColumn table d')
      (Both (ColumnDef.Like forget) Eq) := by
  apply (declaredType?_twins h.typeName).bind
  rintro type _ rfl
  have hplain : (Column.plain d.name.name type table).Like forget
      (.plain d'.name.name type table) := .plain h.name.name (.inl rfl) table
  apply (addColumn_twins table (applyRules_like h.constraints hplain)).bind
  rintro id _ rfl
  exact .pure ⟨{ h with type := rfl, binding := rfl }, rfl⟩

/-! ### Foreign keys -/

theorem keyTargets?_twins (table : TableId) {clause clause' : ForeignKeyClause}
    (h : clause.Like clause') :
    Twins forget (keyTargets? table clause) (keyTargets? table clause') Eq := by
  unfold keyTargets?
  rw [forall₂_isEmpty h.columns, h.table.span]
  split
  · apply catalog_twins.bind
    intro c c' hc
    rw [hc.primaryKey? table]
    split
    · exact .pure rfl
    · exact refuse_twins (error_twins _ _ _) rfl
  · have hcolumn : ∀ ident ident' : Ident, ident.Like ident' →
        Twins forget (do return (← tableColumn? table ident, ident.span))
          (do return (← tableColumn? table ident', ident'.span)) Eq := by
      intro ident ident' hident
      rw [hident.span]
      apply (tableColumn?_twins table hident).bind
      rintro column _ rfl
      exact .pure rfl
    apply (Twins.mapM h.columns hcolumn).bind
    intro targets targets' htargets
    rw [List.forall₂_eq_eq_eq] at htargets
    subst htargets
    exact .pure rfl

theorem requireKey_twins {referenced referenced' : Column} (h : referenced.Like forget referenced')
    (place : Span) :
    Twins forget (requireKey referenced place) (requireKey referenced' place) Eq := by
  unfold requireKey
  rw [h.primaryKey]
  split
  · exact warning_twins _ _ _
  · exact .pure rfl

theorem requireReferable_twins {name name' : Ident} (hname : name.Like name')
    {column column' referenced referenced' : Column} (hcolumn : column.Like forget column')
    (hreferenced : referenced.Like forget referenced') :
    Twins forget (requireReferable name column referenced)
      (requireReferable name' column' referenced') Eq := by
  have htype := hcolumn.type
  have htype' := hreferenced.type
  unfold requireReferable
  rw [hname.span]
  generalize column.type = a at htype
  generalize column'.type = a' at htype
  generalize referenced.type = b at htype'
  generalize referenced'.type = b' at htype'
  apply SettledTwins.twins
  apply SettledTwins.forgetting htype
  · exact ⟨(), rfl, fun _ _ => rfl⟩
  intro a
  apply SettledTwins.forgetting htype'
  · exact ⟨(), by cases a <;> rfl, fun _ _ => rfl⟩
  intro b
  split
  · split
    · exact .error _ _ _
    · exact .pure rfl
  · exact .pure rfl

theorem linkColumn_twins {source source' : Ident × Option ColumnId}
    (h : Both Ident.Like Eq source source') (target : Option ColumnId × Span) :
    Twins forget (linkColumn source target) (linkColumn source' target) Eq := by
  unfold linkColumn
  rw [← h.right]
  split
  · apply catalog_twins.bind
    intro c c' hc
    apply (requireKey_twins (hc.column _) _).bind
    intro _ _ _
    apply (requireReferable_twins h.left (hc.column _) (hc.column _)).bind
    intro _ _ _
    refine .modifyCatalog fun c c' hc => hc.modifyColumn _ fun a b hab => ?_
    exact { hab with references := rfl }
  · exact .pure rfl

theorem foreignKey_twins {sources sources' : List (Ident × Option ColumnId)}
    (hsources : List.Forall₂ (Both Ident.Like Eq) sources sources')
    {clause clause' : ForeignKeyClause} (h : clause.Like clause') :
    Twins forget (foreignKey sources clause) (foreignKey sources' clause') Eq := by
  have hlinks : ∀ {sources sources' : List (Ident × Option ColumnId)},
      List.Forall₂ (Both Ident.Like Eq) sources sources' →
      ∀ targets : List (Option ColumnId × Span),
        Twins forget ((sources.zip targets).forM fun link => linkColumn link.1 link.2)
          ((sources'.zip targets).forM fun link => linkColumn link.1 link.2) Eq := by
    intro sources sources' hsources
    induction hsources with
    | nil => exact fun _ => .pure rfl
    | cons hsource _ ih =>
      intro targets
      cases targets with
      | nil => exact .pure rfl
      | cons target targets => exact (linkColumn_twins hsource target).bind fun _ _ _ => ih targets
  apply (catalogTable?_twins h.table).bind
  rintro table? _ rfl
  split
  · apply (keyTargets?_twins _ h).bind
    rintro targets? _ rfl
    split
    · rw [hsources.length_eq, h.table.span]
      split
      · exact error_twins _ _ _
      · exact hlinks hsources _
    · exact .pure rfl
  · exact .pure rfl

theorem columnRule_twins {name name' : Ident} (hname : name.Like name') (column : ColumnId)
    {rule rule' : ColumnRule} (h : rule.Like forget rule') :
    Twins forget (columnRule name column rule) (columnRule name' column rule')
      (ColumnRule.Like forget) := by
  cases h with
  | default hvalue =>
    rw [columnRule, columnRule]
    apply (term_twins _ hvalue).bind
    intro value value' hvalue
    exact refuse_twins (requireStorable_twins hvalue column) (.default hvalue)
  | check hcondition =>
    rw [columnRule, columnRule, ← hcondition.span_eq]
    apply (condition_twins (term_twins _ hcondition) _ _).bind
    exact fun _ _ hcondition => .pure (.check hcondition)
  | references hclause =>
    rw [columnRule, columnRule]
    have hsource : Both Ident.Like Eq (name, some column) (name', some column) := ⟨hname, rfl⟩
    exact refuse_twins (foreignKey_twins (.cons hsource .nil) hclause) (.references hclause)
  | notNull => exact .pure .notNull
  | null => exact .pure .null
  | primaryKey direction autoincrement => exact .pure (.primaryKey direction autoincrement)
  | unique => exact .pure .unique
  | collate hcollation => exact .pure (.collate hcollation)

theorem columnRules_twins {d d' : ColumnDef} (h : d.Like forget d') :
    Twins forget (columnRules d) (columnRules d') (ColumnDef.Like forget) := by
  unfold columnRules
  rw [← h.binding]
  split
  · exact .pure h
  · next column _ =>
    have hrule : ∀ c c' : ColumnConstraint, c.Like forget c' →
        Twins forget (do return { c with rule := ← columnRule d.name column c.rule })
          (do return { c' with rule := ← columnRule d'.name column c'.rule })
          (ColumnConstraint.Like forget) := fun c c' hc =>
      (columnRule_twins h.name column hc.rule).bind fun _ _ hrule => .pure { hc with rule := hrule }
    apply (Twins.mapM h.constraints hrule).bind
    exact fun _ _ hconstraints => .pure { h with constraints := hconstraints, binding := rfl }

/-! ### Tables -/

theorem defineColumns_twins (table : TableId) {ds ds' : List ColumnDef}
    (h : List.Forall₂ (ColumnDef.Like forget) ds ds') :
    ∀ seen, Twins forget (defineColumns table seen ds) (defineColumns table seen ds')
      (List.Forall₂ (ColumnDef.Like forget)) := by
  induction h with
  | nil => exact fun _ => .pure .nil
  | cons hd _ ih =>
    intro seen
    rw [defineColumns, defineColumns]
    dsimp only
    rw [hd.name.name, hd.name.span]
    split
    · apply (error_twins _ _ _).bind
      intro _ _ _
      exact (ih seen).bind fun _ _ hds => .pure (.cons hd hds)
    · apply (defineColumn_twins table hd).bind
      rintro ⟨d, id⟩ ⟨d', _⟩ ⟨hd, rfl⟩
      exact (ih _).bind fun _ _ hds => .pure (.cons hd hds)

theorem markPrimaryKey_twins (table : TableId) {rule rule' : TableRule}
    (h : rule.Like forget rule') :
    Twins forget (markPrimaryKey table rule) (markPrimaryKey table rule') Eq := by
  cases h with
  | primaryKey hcolumns =>
    refine .forM hcolumns fun ident ident' hident => ?_
    apply (tableColumn?_twins table hident).bind
    rintro column _ rfl
    split
    · refine .modifyCatalog fun c c' hc => hc.modifyColumn _ fun a b hab => ?_
      exact { hab with primaryKey := rfl, nullable := rfl }
    · exact .pure rfl
  | unique _ => exact .pure rfl
  | check _ => exact .pure rfl
  | foreignKey _ _ => exact .pure rfl

theorem tableRule_twins (table : TableId) {rule rule' : TableRule} (h : rule.Like forget rule') :
    Twins forget (tableRule table rule) (tableRule table rule') (TableRule.Like forget) := by
  cases h with
  | primaryKey hcolumns => exact .pure (.primaryKey hcolumns)
  | unique hcolumns =>
    refine refuse_twins (.forM hcolumns fun ident ident' hident => ?_) (.unique hcolumns)
    exact (tableColumn?_twins table hident).bind fun _ _ _ => .pure rfl
  | check hcondition =>
    rw [tableRule, tableRule, ← hcondition.span_eq]
    apply (condition_twins (term_twins _ hcondition) _ _).bind
    exact fun _ _ hcondition => .pure (.check hcondition)
  | foreignKey hcolumns hclause =>
    have hsource : ∀ ident ident' : Ident, ident.Like ident' →
        Twins forget (do return (ident, ← tableColumn? table ident))
          (do return (ident', ← tableColumn? table ident')) (Both Ident.Like Eq) :=
      fun _ _ hident => (tableColumn?_twins table hident).bind fun _ _ hcolumn =>
        .pure ⟨hident, hcolumn⟩
    rw [tableRule, tableRule]
    apply (Twins.mapM hcolumns hsource).bind
    intro sources sources' hsources
    exact refuse_twins (foreignKey_twins hsources hclause) (.foreignKey hcolumns hclause)

theorem createTable_twins {s s' : CreateTable} (h : s.Like forget s') :
    Twins forget (createTable s) (createTable s') (CreateTable.Like forget) := by
  apply catalog_twins.bind
  intro c c' hc
  dsimp only
  rw [hc.findTables h.name.name, h.ifNotExists, h.name.span]
  split
  · split
    · exact refuse_twins (error_twins _ _ _) h
    · exact .pure h
  · apply (addTable_twins h.name.name .created).bind
    rintro table _ rfl
    apply (defineColumns_twins table h.columns []).bind
    intro columns columns' hcolumns
    apply (Twins.forM h.constraints fun _ _ hc => markPrimaryKey_twins table hc.rule).bind
    intro _ _ _
    apply (Twins.bindTable h.name.name table).bind
    intro _ _ _
    apply (Twins.mapM hcolumns fun _ _ => columnRules_twins).bind
    intro columns columns' hcolumns
    have hrule : ∀ c c' : TableConstraint, c.Like forget c' →
        Twins forget (do return { c with rule := ← tableRule table c.rule })
          (do return { c' with rule := ← tableRule table c'.rule })
          (TableConstraint.Like forget) := fun c c' hc =>
      (tableRule_twins table hc.rule).bind fun _ _ hrule => .pure { hc with rule := hrule }
    apply (Twins.mapM h.constraints hrule).bind
    intro constraints constraints' hconstraints
    exact .pure ⟨rfl, h.name, hcolumns, hconstraints, rfl⟩

theorem alterAction_twins (table : TableId) {action action' : AlterAction}
    (h : action.Like forget action') :
    Twins forget (alterAction table action) (alterAction table action')
      (AlterAction.Like forget) := by
  cases h with
  | addColumn hd =>
    rw [alterAction, alterAction]
    apply catalog_twins.bind
    intro c c' hc
    rw [hc.findColumns table hd.name.name, hd.name.span]
    split
    · exact refuse_twins (error_twins _ _ _) (.addColumn hd)
    · apply (defineColumn_twins table hd).bind
      rintro ⟨d, id⟩ ⟨d', _⟩ ⟨hd, rfl⟩
      apply (Twins.bindColumn hd.name.name id).bind
      intro _ _ _
      exact (columnRules_twins hd).bind fun _ _ hd => .pure (.addColumn hd)
  | dropColumn hident =>
    rw [alterAction, alterAction]
    apply (tableColumn?_twins table hident).bind
    rintro column _ rfl
    split
    · exact refuse_twins (.modifyCatalog fun _ _ hc => hc.removeColumn _) (.dropColumn hident)
    · exact .pure (.dropColumn hident)
  | renameColumn hident hnew =>
    rw [alterAction, alterAction]
    apply (tableColumn?_twins table hident).bind
    rintro column _ rfl
    split
    · apply catalog_twins.bind
      intro c c' hc
      rw [hc.findColumns table hnew.name, hnew.span]
      split
      · exact refuse_twins (error_twins _ _ _) (.renameColumn hident hnew)
      · refine refuse_twins (.modifyCatalog fun _ _ hc => ?_) (.renameColumn hident hnew)
        exact hc.renameColumn _ hnew.name
    · exact .pure (.renameColumn hident hnew)
  | renameTo hnew =>
    rw [alterAction, alterAction]
    apply catalog_twins.bind
    intro c c' hc
    rw [hc.findTables hnew.name, hnew.span]
    split
    · exact refuse_twins (error_twins _ _ _) (.renameTo hnew)
    · refine refuse_twins (.modifyCatalog fun _ _ hc => ?_) (.renameTo hnew)
      exact hc.renameTable table hnew.name

theorem alterTable_twins {s s' : AlterTable} (h : s.Like forget s') :
    Twins forget (alterTable s) (alterTable s') (AlterTable.Like forget) := by
  apply (target?_twins h.table).bind
  rintro table? _ rfl
  split
  · exact .pure h
  · apply (alterAction_twins _ h.action).bind
    exact fun _ _ haction => .pure ⟨h.table, rfl, haction⟩

theorem dropTable_twins {s s' : DropTable} (h : s.Like s') :
    Twins forget (dropTable s) (dropTable s') DropTable.Like := by
  apply catalog_twins.bind
  intro c c' hc
  rw [h.ifExists, hc.findTables h.table.name]
  split
  · exact .pure h
  · apply (catalogTable?_twins h.table).bind
    rintro table? _ rfl
    split
    · exact .pure h
    · refine refuse_twins (.modifyCatalog fun _ _ hc => hc.dropTable _) ?_
      exact ⟨rfl, h.table, rfl⟩

/-! ### Batches -/

theorem statementBody_twins {body body' : StatementBody} (h : body.Like forget body') :
    Twins forget (statementBody body) (statementBody body') (StatementBody.Like forget) := by
  cases h with
  | select h => exact (query_twins rfl _ h).bind fun _ _ hs => .pure (.select hs.left)
  | insert h => exact (insert_twins h).bind fun _ _ hs => .pure (.insert hs)
  | update h => exact (update_twins h).bind fun _ _ hs => .pure (.update hs)
  | delete h => exact (delete_twins h).bind fun _ _ hs => .pure (.delete hs)
  | createTable h => exact (createTable_twins h).bind fun _ _ hs => .pure (.createTable hs)
  | alterTable h => exact (alterTable_twins h).bind fun _ _ hs => .pure (.alterTable hs)
  | dropTable h => exact (dropTable_twins h).bind fun _ _ hs => .pure (.dropTable hs)

/-- A statement opens a scope of its own, so none need be open. -/
theorem statement_twinRuns {statement statement' : Statement}
    (h : statement.Like forget statement') {s s' : ResolverState} (hs : s.Like forget s') :
    TwinRuns forget (Statement.Like forget) ((Resolver.statement statement).run s)
      ((Resolver.statement statement').run s') := by
  unfold Resolver.statement
  rw [← h.span]
  refine Twins.within_twinRuns ?_ statement.span hs
  apply (statementBody_twins h.body).bind
  exact fun _ _ hbody => .pure { h with body := hbody, span := rfl }

theorem statements_twinRuns {statements statements' : List Statement}
    (h : List.Forall₂ (Statement.Like forget) statements statements') :
    ∀ {s s' : ResolverState}, s.frames = [] → s.Like forget s' →
      TwinRuns forget (List.Forall₂ (Statement.Like forget))
        ((statements.mapM Resolver.statement).run s)
        ((statements'.mapM Resolver.statement).run s') := by
  induction h with
  | nil => exact fun _ hs => .inr ⟨.nil, hs⟩
  | @cons statement statement' rest rest' hfirst _ ih =>
    intro s s' hframes hs
    obtain ⟨hsettled, -⟩ := statement_settles statement hframes
    rw [run_statements_cons, run_statements_cons]
    rcases statement_twinRuns hfirst hs with ⟨hforget, hfailed⟩ | ⟨hresult, hafter⟩
    · exact .inl ⟨hforget, statements_failed rest hsettled.frames hfailed⟩
    · rcases ih hsettled.frames hafter with ⟨hforget, hfailed⟩ | ⟨hresults, hend⟩
      · exact .inl ⟨hforget, hfailed⟩
      · exact .inr ⟨.cons hresult hresults, hend⟩

end SqlAnalysis.Resolver

namespace SqlAnalysis

open Resolver

variable {forget : Prop} {catalog catalog' : Catalog}

theorem ResolverState.Like.start (h : catalog.Like forget catalog') (index : LineIndex) :
    (start index catalog).Like forget (start index catalog') :=
  ⟨rfl, h, .nil, rfl, rfl⟩

namespace Resolution

/-- The resolutions are alike, and the same is complained about in both. -/
structure Like (forget : Prop) (r r' : Resolution) : Prop where
  statements : List.Forall₂ (Statement.Like forget) r.statements r'.statements
  raised : List.Forall₂ Diagnostic.Like r.raised r'.raised
  scopes : r.scopes = r'.scopes
  catalog : r.catalog.Like forget r'.catalog

/-- Alike statements are resolved alike. Where types may be forgotten, this is said of
batches only about which no error is raised. -/
theorem ofStatements_like (hcatalog : catalog.Like forget catalog') (index : LineIndex)
    {statements statements' : List Statement}
    (h : List.Forall₂ (Statement.Like forget) statements statements') :
    (forget ∧ ∃ d ∈ (ofStatements index catalog statements).raised, d.isError = true) ∨
      (ofStatements index catalog statements).Like forget
        (ofStatements index catalog' statements') := by
  rcases statements_twinRuns h rfl (.start hcatalog index) with hfailed | ⟨hstatements, hend⟩
  · exact .inl hfailed
  · exact .inr ⟨hstatements, hend.diagnostics, congrArg Frame.toTree hend.root, hend.catalog⟩

end Resolution
end SqlAnalysis
