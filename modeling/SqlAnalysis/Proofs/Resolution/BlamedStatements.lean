import SqlAnalysis.Proofs.Resolution.Blame

/-!
# What is complained about in statements

All that is complained about while statements are resolved stands under the spans of these
statements: the names they look up, the values and rows they store, the columns and rules they
declare.
-/
namespace SqlAnalysis

namespace Resolver

variable {P : Span → Prop}

/-! ### Statements that change rows -/

theorem requireStorable_blames {value : Expr} (h : P value.span) (column : ColumnId) :
    BlamesOnly P (requireStorable value column) := by
  refine .andThen .catalog fun c => ?_
  dsimp only
  split
  · exact .pure ()
  · split
    · split
      · exact .errorWithFix h _ _
      · exact .pure ()
    · split
      · split
        · exact .errorWithFix h _ _
        · exact .pure ()
      · exact .pure ()

theorem target?_blames {name : Ident} (h : P name.span) : BlamesOnly P (target? name) := by
  refine (catalogTable?_blames h).andThen fun table? => ?_
  split
  · exact .andThen (.bindTable _ _) fun _ => .pure _
  · exact .pure _

theorem listedColumns_blames (table : TableId) {idents : List Ident}
    (h : ∀ ident ∈ idents, P ident.span) :
    ∀ seen, BlamesOnly P (listedColumns table seen idents) := by
  induction idents with
  | nil => exact fun _ => .pure _
  | cons ident idents ih =>
    intro seen
    obtain ⟨hident, hidents⟩ := List.forall_mem_cons.mp h
    have hunlisted : BlamesOnly P (requireUnlisted seen ident) := by
      unfold requireUnlisted
      split
      · exact .error hident _
      · exact .pure ()
    exact hunlisted.andThen fun _ => (tableColumn?_blames table hident).andThen fun column =>
      (ih hidents _).andThen fun rest => .pure _

theorem storedTerms_blames {es : List Expr} (h : AllHave P (exprOutlines es)) :
    ∀ columns, BlamesOnly P (storedTerms columns es) := by
  induction es with
  | nil =>
    intro columns
    unfold storedTerms
    exact .pure _
  | cons e es ih =>
    obtain ⟨he, hes⟩ := List.forall_mem_cons.mp h
    rintro (_ | ⟨column, columns⟩)
    · exact (term_blames e he).andThen fun _ => (ih hes []).andThen fun _ => .pure _
    · exact (term_blames e he).bind (term_yields e) fun _ he' =>
        (requireStorable_blames (span_of_cleared he he') column).andThen fun _ =>
          (ih hes columns).andThen fun _ => .pure _

theorem valueRow_blames (targets : List ColumnId) (complete : Bool) {row : ValueRow}
    (h : row.outline.Has P) : BlamesOnly P (valueRow targets complete row) := by
  obtain ⟨hspan, hvalues⟩ := Outline.has_node.mp h
  have hrow : ∀ columns,
      BlamesOnly P (do return { row with values := ← storedTerms columns row.values }) :=
    fun columns => (storedTerms_blames hvalues columns).andThen fun _ => .pure _
  unfold valueRow
  split
  · have hlength : BlamesOnly P (requireLength targets row) := by
      unfold requireLength
      split
      · exact .error hspan _
      · exact .pure ()
    exact hlength.andThen fun _ => hrow targets
  · exact hrow []

theorem insertTargets_blames (table : TableId) {columns : List Ident}
    (h : ∀ ident ∈ columns, P ident.span) : BlamesOnly P (insertTargets table columns) := by
  unfold insertTargets
  split
  · exact .andThen .catalog fun _ => .pure _
  · exact listedColumns_blames table h []

theorem insertRows_blames (targets : List ColumnId) (complete : Bool) {rows : List ValueRow}
    (h : ∀ row ∈ rows, row.outline.Has P) : BlamesOnly P (insertRows targets complete rows) := by
  cases rows with
  | nil => exact .pure _
  | cons first rest =>
    exact .within (.mapM _ fun row hrow => valueRow_blames targets complete (h row hrow)) _

theorem allHave_idents {idents : List Ident} (h : AllHave P (idents.map Ident.outline)) :
    ∀ ident ∈ idents, P ident.span :=
  fun _ hident => (List.forall_mem_map.mp h _ hident).span

theorem insert_blames {s : Insert} (h : AllHave P (StatementBody.insert s).outlines) :
    BlamesOnly P (insert s) := by
  rw [AllHave, StatementBody.outlines, List.forall_mem_cons, List.forall_mem_append] at h
  obtain ⟨htable, hcolumns, hrows⟩ := h
  refine (target?_blames htable.span).andThen fun table? => ?_
  split
  · exact .pure _
  · exact (insertTargets_blames _ (allHave_idents hcolumns)).andThen fun targets =>
      (insertRows_blames _ _ (List.forall_mem_map.mp hrows)).andThen fun rows => .pure _

theorem assignment_blames (table : TableId) {a : Assignment} (h : AllHave P a.outlines) :
    BlamesOnly P (assignment table a) := by
  obtain ⟨hcolumn, hvalue⟩ := List.forall_mem_cons.mp h
  have hvalue : a.value.outline.Has P := List.forall_mem_singleton.mp hvalue
  refine (tableColumn?_blames table hcolumn.span).andThen fun column => ?_
  refine (term_blames a.value hvalue).bind (term_yields a.value) fun value hvalue' => ?_
  split
  · exact (requireStorable_blames (span_of_cleared hvalue hvalue') _).andThen fun _ => .pure _
  · exact .pure _

theorem update_blames {s : Update} (h : AllHave P (StatementBody.update s).outlines) :
    BlamesOnly P (update s) := by
  rw [AllHave, StatementBody.outlines, List.forall_mem_cons, List.forall_mem_append] at h
  obtain ⟨htable, hassignments, hcondition⟩ := h
  refine (target?_blames htable.span).andThen fun table? => ?_
  split
  · exact .pure _
  · refine (BlamesOnly.mapM s.assignments fun a ha => ?_).andThen fun assignments =>
      (rowCondition_blames s.condition hcondition).andThen fun condition => .pure _
    exact assignment_blames _ fun o ho => hassignments o (List.mem_flatMap.mpr ⟨a, ha, ho⟩)

theorem delete_blames {s : Delete} (h : AllHave P (StatementBody.delete s).outlines) :
    BlamesOnly P (delete s) := by
  rw [AllHave, StatementBody.outlines, List.forall_mem_cons] at h
  refine (target?_blames h.1.span).andThen fun table? => ?_
  split
  · exact .pure _
  · exact (rowCondition_blames s.condition h.2).andThen fun _ => .pure _

/-! ### Tables -/

theorem defineColumn_blames (table : TableId) {d : ColumnDef} (h : d.outline.Has P) :
    BlamesOnly P (defineColumn table d) := by
  obtain ⟨-, hparts⟩ := Outline.has_node.mp h
  obtain ⟨-, hparts⟩ := List.forall_mem_cons.mp hparts
  obtain ⟨htype, -⟩ := List.forall_mem_append.mp hparts
  have hdeclared : BlamesOnly P (declaredType? d.typeName) := by
    cases htypeName : d.typeName with
    | none => exact .pure _
    | some written =>
      rw [htypeName] at htype
      have hwritten : P written.span := (List.forall_mem_singleton.mp htype).span
      unfold declaredType?
      dsimp only
      split
      · exact .pure _
      · exact .refuse hwritten _ none _
  exact hdeclared.andThen fun type => (addColumn_blames table _).andThen fun id => .pure _

theorem keyTargets?_blames (table : TableId) {clause : ForeignKeyClause}
    (h : AllHave P clause.outlines) : BlamesOnly P (keyTargets? table clause) := by
  obtain ⟨htable, hcolumns⟩ := List.forall_mem_cons.mp h
  unfold keyTargets?
  split
  · refine .andThen .catalog fun c => ?_
    split
    · exact .pure _
    · exact .refuse htable.span _ none _
  · refine (BlamesOnly.mapM clause.columns fun ident hident => ?_).andThen fun _ => .pure _
    exact (tableColumn?_blames table (allHave_idents hcolumns ident hident)).andThen fun _ =>
      .pure _

/-- What a foreign key refers to is named in its clause. -/
theorem keyTargets?_yields (table : TableId) {clause : ForeignKeyClause}
    (h : AllHave P clause.outlines) : Yields (keyTargets? table clause) fun targets? =>
      ∀ targets ∈ targets?, ∀ target ∈ targets, P target.2 := by
  obtain ⟨htable, hcolumns⟩ := List.forall_mem_cons.mp h
  have htable : P clause.table.span := htable.span
  unfold keyTargets?
  split
  · refine .after fun c => ?_
    split
    · refine .pure fun targets htargets target htarget => ?_
      rw [← Option.some.inj htargets] at htarget
      rwa [List.mem_singleton.mp htarget]
    · exact .after fun _ => .pure nofun
  · have hplace : ∀ ident : Ident, Yields
        (do return (← tableColumn? table ident, ident.span) : Resolver (Option ColumnId × Span))
        fun target => target.2 = ident.span := fun ident => .after fun _ => .pure rfl
    refine (Yields.mapM hplace clause.columns).bind fun found hfound => .pure ?_
    rintro targets ⟨⟩ target htarget
    have hspan := List.mem_map_of_mem htarget (f := Prod.snd)
    rw [hfound] at hspan
    obtain ⟨ident, hident, hspan⟩ := List.mem_map.mp hspan
    exact hspan ▸ allHave_idents hcolumns ident hident

theorem linkColumn_blames {source : Ident × Option ColumnId} {target : Option ColumnId × Span}
    (hsource : P source.1.span) (htarget : P target.2) :
    BlamesOnly P (linkColumn source target) := by
  unfold linkColumn
  split
  · refine .andThen .catalog fun c => ?_
    have hkey : ∀ referenced, BlamesOnly P (requireKey referenced target.2) := by
      intro referenced
      unfold requireKey
      split
      · exact .warning htarget _
      · exact .pure ()
    have hreferable : ∀ column referenced,
        BlamesOnly P (requireReferable source.1 column referenced) := by
      intro column referenced
      unfold requireReferable
      split
      · split
        · exact .error hsource _
        · exact .pure ()
      · exact .pure ()
    exact (hkey _).andThen fun _ => (hreferable _ _).andThen fun _ => .modifyCatalog _
  · exact .pure ()

theorem foreignKey_blames {sources : List (Ident × Option ColumnId)} {clause : ForeignKeyClause}
    (hsources : ∀ source ∈ sources, P source.1.span) (h : AllHave P clause.outlines) :
    BlamesOnly P (foreignKey sources clause) := by
  have htable : P clause.table.span := (List.forall_mem_cons.mp h).1.span
  refine (catalogTable?_blames htable).andThen fun table? => ?_
  split
  · refine (keyTargets?_blames _ h).bind (keyTargets?_yields _ h) fun targets? htargets => ?_
    split
    · next targets =>
      split
      · exact .error htable _
      · refine .forM _ fun link hlink => ?_
        obtain ⟨hsource, htarget⟩ := List.of_mem_zip hlink
        exact linkColumn_blames (hsources _ hsource) (htargets targets rfl _ htarget)
    · exact .pure ()
  · exact .pure ()

theorem columnRule_blames {name : Ident} (hname : P name.span) (column : ColumnId)
    {rule : ColumnRule} (h : AllHave P rule.outlines) :
    BlamesOnly P (columnRule name column rule) := by
  cases rule with
  | default value =>
    have hvalue : value.outline.Has P := List.forall_mem_singleton.mp h
    exact (term_blames value hvalue).bind (term_yields value) fun value' hvalue' =>
      (requireStorable_blames (span_of_cleared hvalue hvalue') column).andThen fun _ => .pure _
  | check e =>
    have he : e.outline.Has P := List.forall_mem_singleton.mp h
    exact (condition_blames "CHECK" he (term_blames e he)).andThen fun _ => .pure _
  | references clause =>
    exact (foreignKey_blames (List.forall_mem_singleton.mpr hname) h).andThen fun _ => .pure _
  | _ => exact .pure _

theorem columnRules_blames {d : ColumnDef} (h : d.outline.Has P) :
    BlamesOnly P (columnRules d) := by
  obtain ⟨-, hparts⟩ := Outline.has_node.mp h
  obtain ⟨hname, hparts⟩ := List.forall_mem_cons.mp hparts
  obtain ⟨-, hconstraints⟩ := List.forall_mem_append.mp hparts
  unfold columnRules
  split
  · exact .pure _
  · refine (BlamesOnly.mapM d.constraints fun c hc => ?_).andThen fun _ => .pure _
    obtain ⟨-, hc⟩ := Outline.has_node.mp (List.forall_mem_map.mp hconstraints c hc)
    obtain ⟨-, hrule⟩ := List.forall_mem_append.mp hc
    exact (columnRule_blames hname.span _ hrule).andThen fun _ => .pure _

theorem defineColumns_blames (table : TableId) {ds : List ColumnDef}
    (h : ∀ d ∈ ds, d.outline.Has P) : ∀ seen, BlamesOnly P (defineColumns table seen ds) := by
  induction ds with
  | nil => exact fun _ => .pure _
  | cons d ds ih =>
    intro seen
    obtain ⟨hd, hds⟩ := List.forall_mem_cons.mp h
    obtain ⟨-, hparts⟩ := Outline.has_node.mp hd
    have hname : P d.name.span := (List.forall_mem_cons.mp hparts).1.span
    unfold defineColumns
    dsimp only
    split
    · exact (BlamesOnly.error hname _).andThen fun _ => (ih hds _).andThen fun _ => .pure _
    · exact (defineColumn_blames table hd).andThen fun _ => (ih hds _).andThen fun _ => .pure _

theorem markPrimaryKey_blames (table : TableId) {rule : TableRule} (h : AllHave P rule.outlines) :
    BlamesOnly P (markPrimaryKey table rule) := by
  unfold markPrimaryKey
  split
  · next columns =>
    refine .forM columns fun ident hident => ?_
    refine (tableColumn?_blames table (allHave_idents h ident hident)).andThen fun column? => ?_
    split
    · exact .modifyCatalog _
    · exact .pure ()
  · exact .pure ()

theorem tableRule_blames (table : TableId) {rule : TableRule} (h : AllHave P rule.outlines) :
    BlamesOnly P (tableRule table rule) := by
  cases rule with
  | primaryKey columns => exact .pure _
  | unique columns =>
    refine .andThen (.forM columns fun ident hident => ?_) fun _ => .pure _
    exact (tableColumn?_blames table (allHave_idents h ident hident)).andThen fun _ => .pure ()
  | check e =>
    have he : e.outline.Has P := List.forall_mem_singleton.mp h
    exact (condition_blames "CHECK" he (term_blames e he)).andThen fun _ => .pure _
  | foreignKey columns clause =>
    obtain ⟨hcolumns, hclause⟩ := List.forall_mem_append.mp h
    have hcolumns := allHave_idents hcolumns
    have hsource : ∀ ident : Ident, Yields
        (do return (ident, ← tableColumn? table ident) : Resolver (Ident × Option ColumnId))
        fun source => source.1 = ident := fun ident => .after fun _ => .pure rfl
    refine (BlamesOnly.mapM columns fun ident hident => ?_).bind
      (Yields.mapM hsource columns) fun sources hsources => ?_
    · exact (tableColumn?_blames table (hcolumns ident hident)).andThen fun _ => .pure _
    · refine (foreignKey_blames (fun source hmem => ?_) hclause).andThen fun _ => .pure _
      have hident := List.mem_map_of_mem hmem (f := Prod.fst)
      rw [hsources, List.map_id'] at hident
      exact hcolumns _ hident

theorem has_of_annotated {ds ds' : List ColumnDef} (h : List.Forall₂ Annotated ds ds')
    (hds : ∀ d ∈ ds, d.outline.Has P) : ∀ d ∈ ds', d.outline.Has P := by
  induction h with
  | nil => exact hds
  | cons hd _ ih =>
    obtain ⟨hfirst, hrest⟩ := List.forall_mem_cons.mp hds
    refine List.forall_mem_cons.mpr ⟨?_, ih hrest⟩
    rwa [← ColumnDef.outline_cleared, hd.cleared, ColumnDef.outline_cleared]

theorem createTable_blames {s : CreateTable}
    (h : AllHave P (StatementBody.createTable s).outlines) : BlamesOnly P (createTable s) := by
  rw [AllHave, StatementBody.outlines, List.forall_mem_cons, List.forall_mem_append] at h
  obtain ⟨hname, hcolumns, hconstraints⟩ := h
  have hcolumns : ∀ d ∈ s.columns, d.outline.Has P := List.forall_mem_map.mp hcolumns
  have hrules : ∀ c ∈ s.constraints, AllHave P c.rule.outlines := by
    intro c hc
    obtain ⟨-, hparts⟩ := Outline.has_node.mp (List.forall_mem_map.mp hconstraints c hc)
    exact (List.forall_mem_append.mp hparts).2
  refine .andThen .catalog fun c => ?_
  split
  · split
    · exact .refuse hname.span _ none _
    · exact .pure _
  · refine (addTable_blames _ _).andThen fun table => ?_
    refine (defineColumns_blames table hcolumns []).bind (defineColumns_yields table [] s.columns)
      fun ds hds => ?_
    refine .andThen (.forM s.constraints fun c hc => markPrimaryKey_blames table (hrules c hc))
      fun _ => .andThen (.bindTable _ _) fun _ => ?_
    refine (BlamesOnly.mapM ds fun d hd =>
      columnRules_blames (has_of_annotated hds hcolumns d hd)).andThen fun columns => ?_
    refine (BlamesOnly.mapM s.constraints fun c hc => ?_).andThen fun constraints => .pure _
    exact (tableRule_blames table (hrules c hc)).andThen fun _ => .pure _

theorem alterAction_blames (table : TableId) {action : AlterAction}
    (h : AllHave P action.outlines) : BlamesOnly P (alterAction table action) := by
  cases action with
  | addColumn d =>
    have hd : d.outline.Has P := List.forall_mem_singleton.mp h
    obtain ⟨-, hparts⟩ := Outline.has_node.mp hd
    have hname : P d.name.span := (List.forall_mem_cons.mp hparts).1.span
    unfold alterAction
    refine .andThen .catalog fun c => ?_
    split
    · exact .refuse hname _ none _
    · refine (defineColumn_blames table hd).bind (defineColumn_yields table d)
        fun result hresult => ?_
      have hdefined : result.1.outline.Has P := by
        rwa [← ColumnDef.outline_cleared, hresult.1, ColumnDef.outline_cleared]
      exact .andThen (.modifyFrame _) fun _ =>
        (columnRules_blames hdefined).andThen fun _ => .pure _
  | dropColumn column =>
    have hcolumn : P column.span := (List.forall_mem_singleton.mp h).span
    refine (tableColumn?_blames table hcolumn).andThen fun column? => ?_
    split
    · exact .andThen (.modifyCatalog _) fun _ => .pure _
    · exact .pure _
  | renameColumn column newName =>
    obtain ⟨hcolumn, hnew⟩ := List.forall_mem_cons.mp h
    have hnew : P newName.span := (List.forall_mem_singleton.mp hnew).span
    refine (tableColumn?_blames table hcolumn.span).andThen fun column? => ?_
    split
    · refine .andThen .catalog fun c => ?_
      split
      · exact .refuse hnew _ none _
      · exact .andThen (.modifyCatalog _) fun _ => .pure _
    · exact .pure _
  | renameTo newName =>
    have hnew : P newName.span := (List.forall_mem_singleton.mp h).span
    refine .andThen .catalog fun c => ?_
    split
    · exact .refuse hnew _ none _
    · exact .andThen (.modifyCatalog _) fun _ => .pure _

theorem alterTable_blames {s : AlterTable}
    (h : AllHave P (StatementBody.alterTable s).outlines) : BlamesOnly P (alterTable s) := by
  obtain ⟨htable, haction⟩ := List.forall_mem_cons.mp h
  refine (target?_blames htable.span).andThen fun table? => ?_
  split
  · exact .pure _
  · exact (alterAction_blames _ haction).andThen fun _ => .pure _

theorem dropTable_blames {s : DropTable}
    (h : AllHave P (StatementBody.dropTable s).outlines) : BlamesOnly P (dropTable s) := by
  have htable : P s.table.span := (List.forall_mem_singleton.mp h).span
  refine .andThen .catalog fun c => ?_
  split
  · exact .pure _
  · refine (catalogTable?_blames htable).andThen fun table? => ?_
    split
    · exact .pure _
    · exact .andThen (.modifyCatalog _) fun _ => .pure _

/-! ### Statements -/

theorem statementBody_blames {body : StatementBody} (h : AllHave P body.outlines) :
    BlamesOnly P (statementBody body) := by
  cases body with
  | select s =>
    exact (query_blames "result" s (List.forall_mem_singleton.mp h)).andThen fun _ => .pure _
  | insert s => exact (insert_blames h).andThen fun _ => .pure _
  | update s => exact (update_blames h).andThen fun _ => .pure _
  | delete s => exact (delete_blames h).andThen fun _ => .pure _
  | createTable s => exact (createTable_blames h).andThen fun _ => .pure _
  | alterTable s => exact (alterTable_blames h).andThen fun _ => .pure _
  | dropTable s => exact (dropTable_blames h).andThen fun _ => .pure _

theorem statement_blames {s : Statement} (h : s.outline.Has P) : BlamesOnly P (statement s) :=
  .within ((statementBody_blames (Outline.has_node.mp h).2).andThen fun _ => .pure _) _

end Resolver

/-- Whatever is complained about in statements stands under one of their spans. -/
theorem Resolution.raised_under (index : LineIndex) (catalog : Catalog)
    (statements : List Statement) :
    ∀ d ∈ (Resolution.ofStatements index catalog statements).raised, ∃ s ∈ statements,
      ∃ node ∈ s.outline.all, d.range = index.range node.span := by
  intro d hd
  have hblames := Resolver.BlamesOnly.mapM (P := fun span => ∃ s ∈ statements,
    ∃ node ∈ s.outline.all, span = node.span) statements fun s hs =>
      Resolver.statement_blames fun node hnode => ⟨s, hs, node, hnode, rfl⟩
  rcases (hblames (.start index catalog)).2 d hd with hd | ⟨span, ⟨s, hs, node, hnode, rfl⟩, hrange⟩
  · cases hd
  · exact ⟨s, hs, node, hnode, hrange⟩

end SqlAnalysis
