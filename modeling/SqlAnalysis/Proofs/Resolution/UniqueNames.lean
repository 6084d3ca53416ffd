import SqlAnalysis.Proofs.Catalog.Uniqueness
import SqlAnalysis.Proofs.Resolution.Reports

/-!
# Definitions keep names unique

A schema may give one name to several tables, or to several columns of a table. If it
does not, then neither does any catalog that statements lead to, the statements with
errors included, so a look-up in the catalog is never ambiguous.
-/
namespace SqlAnalysis

namespace Resolver

open Catalog ResolverState

variable {α β : Type} {N : Expr → Prop} {P : Catalog → Prop} {s : ResolverState}

/-! ### Rows -/

theorem target?_reports (name : Ident) : Reports N P (target? name) fun _ _ => True := by
  refine (Reports.remarks (catalogTable?_remarks name)).andThen fun table? => ?_
  split
  · exact (bindTable_reports _ _).andThen fun _ => .done
  · exact .done

theorem storedTerms_reports (es : List Expr) (h : ∀ x ∈ exprNodes es, N x) :
    ∀ columns, Reports N P (storedTerms columns es) fun _ _ => True := by
  induction es with
  | nil =>
    intro columns
    cases columns <;> exact .done
  | cons e es ih =>
    rw [exprNodes, List.forall_mem_append] at h
    intro columns
    cases columns with
    | nil =>
      rw [storedTerms]
      exact (term_reports e h.1).andThen fun e => (ih h.2 []).andThen fun es => .done
    | cons column columns =>
      rw [storedTerms]
      apply (term_reports e h.1).andThen
      intro e
      apply (Reports.remarks (requireStorable_remarks e column)).andThen
      intro _
      exact (ih h.2 columns).andThen fun es => .done

theorem valueRow_reports (targets : List ColumnId) (complete : Bool) (row : ValueRow)
    (h : ∀ x ∈ exprNodes row.values, N x) :
    Reports N P (valueRow targets complete row) fun _ _ => True := by
  unfold valueRow
  split
  · apply (Reports.remarks (requireLength_remarks targets row)).andThen
    intro _
    exact (storedTerms_reports row.values h targets).andThen fun values => .done
  · exact (storedTerms_reports row.values h []).andThen fun values => .done

theorem insert_reports (i : Insert) (h : ∀ row ∈ i.rows, ∀ x ∈ exprNodes row.values, N x) :
    Reports N P (insert i) fun _ _ => True := by
  refine (target?_reports i.table).andThen fun table? => ?_
  split
  · exact .done
  · apply (Reports.remarks (insertTargets_remarks _ i.columns)).andThen
    rintro ⟨targets, complete⟩
    refine Reports.andThen ?_ fun rows => .done
    cases hrows : i.rows with
    | nil => exact .done
    | cons first rest =>
      refine .within (.mapM _ fun row hrow => ?_) _
      exact valueRow_reports targets complete row (h row (hrows ▸ hrow))

theorem update_reports (u : Update) (hassign : ∀ a ∈ u.assignments, ∀ x ∈ a.value.allNodes, N x)
    (htest : ∀ x ∈ optionNodes u.condition, N x) : Reports N P (update u) fun _ _ => True := by
  refine (target?_reports u.table).andThen fun table? => ?_
  split
  · exact .done
  · next table =>
    refine (Reports.mapM u.assignments fun a ha => ?_).andThen fun assignments => ?_
    · apply (Reports.remarks (tableColumn?_remarks table a.column)).andThen
      intro column
      apply (term_reports a.value (hassign a ha)).andThen
      intro value
      split
      · exact .remarks ((requireStorable_remarks _ _).bind fun _ => .pure _)
      · exact .done
    · exact (rowCondition_reports u.condition htest).andThen fun condition => .done

theorem delete_reports (d : Delete) (htest : ∀ x ∈ optionNodes d.condition, N x) :
    Reports N P (delete d) fun _ _ => True := by
  refine (target?_reports d.table).andThen fun table? => ?_
  split
  · exact .done
  · exact (rowCondition_reports d.condition htest).andThen fun condition => .done

/-! ### Rules of columns and tables -/

theorem linkColumn_reports {source : Ident × Option ColumnId} {target : Option ColumnId × Span}
    (htarget : ∀ c, P c → ∀ id ∈ target.1, c.HasColumn id) :
    Reports N P (linkColumn source target) fun _ _ => True := by
  unfold linkColumn
  split
  · next sourceId targetId hpair =>
    apply (Reports.remarks .catalog).andThen
    intro c
    apply (Reports.remarks (requireKey_remarks _ _)).andThen
    intro _
    apply (Reports.remarks (requireReferable_remarks _ _ _)).andThen
    intro _
    refine .silent (.modifyCatalog fun c _ h => .single (.link trivial ?_)) fun s => ⟨rfl, rfl⟩
    exact htarget c h targetId (Prod.mk.inj hpair).2
  · exact .done

theorem foreignKey_reports (sources : List (Ident × Option ColumnId)) (clause : ForeignKeyClause) :
    Reports N P (foreignKey sources clause) fun _ _ => True := by
  refine (Reports.remarks (catalogTable?_remarks clause.table)).andThen fun table? => ?_
  split
  · next table =>
    refine (Reports.of_remarks (keyTargets?_evolves table clause)
      (keyTargets?_remarks table clause)).bind fun targets? => ?_
    split
    · next targets =>
      split
      · refine .remarks (.errorWithFix (BeginsOtherwise.not_isAmbiguity ?_) _ none)
        exact .append (.append (.append (.append (.literal _ rfl) _) _) _) _
      · refine .forM _ fun pair hpair => linkColumn_reports fun c h => ?_
        exact h.2 targets rfl _ (List.of_mem_zip hpair).2
    · exact .done
  · exact .done

theorem columnRule_reports (name : Ident) (column : ColumnId) (rule : ColumnRule)
    (h : ∀ x ∈ rule.allNodes, N x) : Reports N P (columnRule name column rule) fun _ _ => True := by
  cases rule with
  | default value =>
    apply (term_reports value h).andThen
    intro value
    exact .remarks ((requireStorable_remarks value column).bind fun _ => .pure _)
  | check e =>
    exact (condition_reports (term_reports e h) (.literal _ rfl) _).andThen fun e => .done
  | references clause => exact (foreignKey_reports _ clause).andThen fun _ => .done
  | _ => exact .done

theorem columnRules_reports (d : ColumnDef) (h : ∀ k ∈ d.constraints, ∀ x ∈ k.rule.allNodes, N x) :
    Reports N P (columnRules d) fun _ _ => True := by
  unfold columnRules
  split
  · exact .done
  · refine (Reports.mapM d.constraints fun k hk => ?_).andThen fun constraints => .done
    exact (columnRule_reports d.name _ k.rule (h k hk)).andThen fun rule => .done

theorem lookedUp_reports (table : TableId) (ident : Ident) :
    Reports N P (tableColumn? table ident) fun c column => ∀ id ∈ column, IsColumnOf table c id :=
  .of_remarks (tableColumn?_evolves table ident) (tableColumn?_remarks table ident)

theorem markPrimaryKey_reports (table : TableId) (rule : TableRule) :
    Reports N P (markPrimaryKey table rule) fun _ _ => True := by
  unfold markPrimaryKey
  split
  · refine .forM _ fun ident _ => ?_
    apply (lookedUp_reports table ident).bind
    intro column
    split
    · exact .silent (.modifyCatalog fun c _ h => .single (.markKey trivial)) fun s => ⟨rfl, rfl⟩
    · exact .done
  · exact .done

theorem tableRule_reports (table : TableId) (rule : TableRule) (h : ∀ x ∈ rule.allNodes, N x) :
    Reports N P (tableRule table rule) fun _ _ => True := by
  have hcolumn : ∀ (P : Catalog → Prop) ident,
      Reports N P (tableColumn? table ident) fun _ _ => True :=
    fun _ ident => .remarks (tableColumn?_remarks table ident)
  cases rule with
  | primaryKey columns => exact .done
  | unique columns =>
    exact (Reports.forM columns fun ident _ => (hcolumn P ident).andThen fun _ => .done).andThen
      fun _ => .done
  | check e =>
    exact (condition_reports (term_reports e h) (.literal _ rfl) _).andThen fun e => .done
  | foreignKey columns clause =>
    refine (Reports.mapM columns fun ident _ => (hcolumn P ident).andThen fun _ => .done).andThen
      fun sources => ?_
    exact (foreignKey_reports sources clause).andThen fun _ => .done

/-! ### New columns and tables -/

theorem defineColumn_reportsAt {table : TableId} (d : ColumnDef)
    (htable : s.catalog.HasTable table) (hfree : s.catalog.findColumns table d.name.name = []) :
    ReportsAt N s (defineColumn table d) fun _ result => result.1.constraints = d.constraints := by
  have hevolves : EvolvesAt .all s (defineColumn table d) _ :=
    defineColumn_evolvesAt d trivial htable hfree
  have hedits := hevolves.edits
  obtain ⟨type, -, hresult⟩ := defineColumn_run table d s
  obtain ⟨ds, hds, hrun⟩ := declaredType?_remarks (N := N) d.typeName s
  refine ⟨⟨hedits, fun _ _ => by rw [hresult]⟩, ?_, ds, ?_, fun x hx => ?_⟩
  · show ((declaredType? d.typeName).run s).2.index = s.index
    rw [hrun]
  · show ((declaredType? d.typeName).run s).2.diagnostics = s.diagnostics ++ ds
    rw [hrun]
  · exact ⟨s.catalog, .refl, hedits, hds x hx⟩

theorem defineColumns_reportsAt {table : TableId} (ds : List ColumnDef) :
    ∀ (seen : List String) (s : ResolverState), s.catalog.Indexed → s.catalog.HasTable table →
      AllSeen table seen s.catalog →
      ReportsAt N s (defineColumns table seen ds) fun _ result =>
        result.map ColumnDef.constraints = ds.map ColumnDef.constraints := by
  induction ds with
  | nil =>
    exact fun _ s hs _ _ => (Reports.pure (Q := fun _ (result : List ColumnDef) =>
      result.map ColumnDef.constraints = []) fun _ _ => rfl).runsAt hs
  | cons d ds ih =>
    intro seen s hs htable hseen
    rw [defineColumns]
    dsimp only
    split
    · -- A second column of the same name is left as it is.
      have herror : ReportsAt N s (error s!"duplicate column name {d.name.name}" d.name.span)
          fun _ _ => True :=
        (Reports.remarks (.errorWithFix
          (BeginsOtherwise.not_isAmbiguity (.append (.literal _ rfl) _)) _ none)).runsAt hs
      have hrest := ih seen ((error s!"duplicate column name {d.name.name}" d.name.span).run s).2
        hs htable hseen
      refine herror.bind ⟨⟨hrest.evolves.edits, fun c hc => ?_⟩, hrest.index, hrest.raised⟩
      exact congrArg (d.constraints :: ·) (hrest.evolves.good c hc)
    · next hnew =>
      have hfree : s.catalog.findColumns table d.name.name = [] :=
        hseen.findColumns (by simpa using hnew)
      have hcolumn : ReportsAt N s (defineColumn table d) _ := defineColumn_reportsAt d htable hfree
      have hedits := hcolumn.evolves.edits
      have hrest := ih (Text.foldCase d.name.name :: seen) ((defineColumn table d).run s).2
        (hedits.indexed hs) (hedits.preserves.hasTable htable) (hseen.defineColumn hs htable d)
      refine hcolumn.bind ⟨⟨hrest.evolves.edits, fun c hc => ?_⟩, hrest.index, hrest.raised⟩
      exact List.cons_eq_cons.mpr ⟨hcolumn.evolves.good _ .refl, hrest.evolves.good c hc⟩

theorem createTable_reportsAt (t : CreateTable)
    (h : ∀ x ∈ (StatementBody.createTable t).allNodes, N x) (hs : s.catalog.Indexed) :
    ReportsAt N s (createTable t) fun _ _ => True := by
  simp only [StatementBody.allNodes, ColumnDef.allNodes, List.forall_mem_append,
    List.forall_mem_flatMap] at h
  obtain ⟨hcolumnNodes, hruleNodes⟩ := h
  unfold createTable
  apply ReportsAt.view
  split
  · split
    · exact (Reports.remarks (.refuse (.append (.append (.literal _ rfl) _) _) _ none _)).runsAt hs
    · exact Reports.done.runsAt hs
  · next hfree =>
    have hfree : s.catalog.findTables t.name.name = [] := by simpa using hfree
    have hadd : ReportsAt N s (addTable t.name.name .created) fun _ _ => True :=
      .silent ⟨.single (.addTable trivial hfree), fun _ _ => trivial⟩ rfl rfl
    have hadded := hadd.evolves.edits.indexed hs
    have hcolumns : ReportsAt N ((addTable t.name.name .created).run s).2
        (defineColumns ((addTable t.name.name .created).run s).1 [] t.columns) _ :=
      defineColumns_reportsAt t.columns [] _ hadded (hasTable_addTable _ _ _)
        (allSeen_addTable _ _)
    refine hadd.bind (hcolumns.bind (Reports.runsAt ?_ (hcolumns.evolves.edits.indexed hadded)))
    have hsame := hcolumns.evolves.good _ .refl
    generalize ((defineColumns _ [] t.columns).run _).1 = columns at hsame
    apply (Reports.forM _ fun k _ => markPrimaryKey_reports _ k.rule).andThen
    intro _
    apply (bindTable_reports _ _).andThen
    intro _
    refine (Reports.mapM columns fun d hd => columnRules_reports d ?_).andThen fun columns => ?_
    · obtain ⟨d', hd', heq⟩ := List.mem_map.mp (hsame ▸ List.mem_map_of_mem hd)
      exact heq ▸ hcolumnNodes d' hd'
    · refine (Reports.mapM t.constraints fun k hk => ?_).andThen fun constraints => .done
      exact (tableRule_reports _ k.rule (hruleNodes k hk)).andThen fun rule => .done

theorem renameColumn_reportsAt {table : TableId} (ident newName : Ident) (hs : s.catalog.Indexed) :
    ReportsAt N s (alterAction table (.renameColumn ident newName)) fun _ _ => True := by
  have hfind : ReportsAt N s (tableColumn? table ident) _ :=
    (lookedUp_reports table ident).runsAt hs
  refine hfind.bind ?_
  rcases tableColumn?_run table ident s with ⟨id, hfound, hrun⟩ | ⟨hnone, -⟩
  · have hmem : id ∈ s.catalog.findColumns table ident.name := by simp [hfound]
    have howner := (hs.owner_of_mem (List.mem_filter.mp hmem).1).2
    rw [hrun]
    apply ReportsAt.view
    split
    · exact (Reports.remarks (.refuse (.append (.literal _ rfl) _) _ none _)).runsAt hs
    · next hfree =>
      refine .silent ⟨.single (.renameColumn trivial ?_), fun _ _ => trivial⟩ rfl rfl
      rw [howner]
      simpa using hfree
  · rw [hnone]
    exact Reports.done.runsAt (hfind.evolves.edits.indexed hs)

theorem alterAction_reportsAt {table : TableId} (action : AlterAction)
    (h : ∀ x ∈ action.allNodes, N x) (hs : s.catalog.Indexed) (hlive : s.catalog.IsLive table) :
    ReportsAt N s (alterAction table action) fun _ _ => True := by
  cases action with
  | addColumn d =>
    rw [alterAction]
    apply ReportsAt.view
    split
    · exact (Reports.remarks (.refuse (.append (.literal _ rfl) _) _ none _)).runsAt hs
    · next hfree =>
      have hcolumn : ReportsAt N s (defineColumn table d) _ :=
        defineColumn_reportsAt d hlive.hasTable (by simpa using hfree)
      have hsame := hcolumn.evolves.good _ .refl
      refine hcolumn.bind (Reports.runsAt ?_ (hcolumn.evolves.edits.indexed hs))
      apply (Reports.modifyFrame _).andThen
      intro _
      refine (columnRules_reports _ fun k hk => ?_).andThen fun d => .done
      rw [hsame] at hk
      exact fun x hx => h x (List.mem_flatMap.mpr ⟨k, hk, hx⟩)
  | dropColumn ident =>
    refine ((lookedUp_reports table ident).bind fun column => ?_).runsAt hs
    split
    · exact (Reports.silent (.modifyCatalog fun c _ _ => .single (.removeColumn trivial))
        fun s => ⟨rfl, rfl⟩).andThen fun _ => .done
    · exact .done
  | renameColumn ident newName => exact renameColumn_reportsAt ident newName hs
  | renameTo newName =>
    rw [alterAction]
    apply ReportsAt.view
    split
    · exact (Reports.remarks (.refuse (.append (.append (.literal _ rfl) _) _) _ none _)).runsAt hs
    · next hfree =>
      refine .silent ⟨.single (.renameTable trivial trivial hlive ?_), fun _ _ => trivial⟩ rfl rfl
      simpa using hfree

theorem alterTable_reportsAt (t : AlterTable) (h : ∀ x ∈ t.action.allNodes, N x)
    (hs : s.catalog.Indexed) : ReportsAt N s (alterTable t) fun _ _ => True := by
  have htarget : ReportsAt N s (target? t.table) _ := (target?_reports t.table).runsAt hs
  have heditable : s.catalog.Editable .all := ⟨hs, fun _ _ => trivial⟩
  obtain ⟨-, hfound⟩ := target?_evolvesAt t.table heditable
  have hcatalog : ((target? t.table).run s).2.catalog = s.catalog := target?_quiet t.table s
  refine htarget.bind ?_
  generalize ((target? t.table).run s).1 = table? at hfound
  cases table? with
  | none => exact Reports.done.runsAt (hcatalog ▸ hs)
  | some table =>
    have haction : ReportsAt N ((target? t.table).run s).2 (alterAction table t.action) _ :=
      alterAction_reportsAt t.action h (hcatalog ▸ hs)
        (hcatalog ▸ hs.isLive_of_findTables (hfound table rfl))
    exact haction.bind (Reports.done.runsAt (haction.evolves.edits.indexed (hcatalog ▸ hs)))

theorem dropTable_reportsAt (t : DropTable) (hs : s.catalog.Indexed) :
    ReportsAt N s (dropTable t) fun _ _ => True := by
  unfold dropTable
  apply ReportsAt.view
  split
  · exact Reports.done.runsAt hs
  · have hfind : ReportsAt N s (catalogTable? t.table) _ :=
      (Reports.remarks (catalogTable?_remarks t.table)).runsAt hs
    refine hfind.bind ?_
    rcases catalogTable?_run t.table s with ⟨id, hfound, hrun⟩ | ⟨hnone, -⟩
    · have hmem : id ∈ s.catalog.findTables t.table.name := by simp [hfound]
      rw [hrun]
      exact .silent ⟨.single (.dropTable trivial trivial (hs.isLive_of_findTables hmem)),
        fun _ _ => trivial⟩ rfl rfl
    · rw [hnone]
      exact Reports.done.runsAt (hfind.evolves.edits.indexed hs)

/-! ### Statements -/

theorem statementBody_reportsAt (body : StatementBody) (h : ∀ x ∈ body.allNodes, N x)
    (hs : s.catalog.Indexed) : ReportsAt N s (statementBody body) fun _ _ => True := by
  have hthen : ∀ {β : Type} {r : Resolver β} {f : β → StatementBody},
      ReportsAt N s r (fun _ _ => True) → ReportsAt N s (do return f (← r)) fun _ _ => True :=
    fun hr => hr.bind (Reports.done.runsAt (hr.evolves.edits.indexed hs))
  cases body with
  | select b => exact hthen (f := fun b => .select b.1) ((query_reports "result" b h).runsAt hs)
  | insert b =>
    rw [StatementBody.allNodes, List.forall_mem_flatMap] at h
    exact hthen (f := .insert) ((insert_reports b h).runsAt hs)
  | update b =>
    simp only [StatementBody.allNodes, List.forall_mem_append, List.forall_mem_flatMap] at h
    exact hthen (f := .update) ((update_reports b h.1 h.2).runsAt hs)
  | delete b => exact hthen (f := .delete) ((delete_reports b h).runsAt hs)
  | createTable t => exact hthen (f := .createTable) (createTable_reportsAt t h hs)
  | alterTable t => exact hthen (f := .alterTable) (alterTable_reportsAt t h hs)
  | dropTable t => exact hthen (f := .dropTable) (dropTable_reportsAt t hs)

theorem statement_reports (statement : Statement) (h : ∀ x ∈ statement.body.allNodes, N x) :
    Reports N P (Resolver.statement statement) fun _ _ => True := by
  have hbody : Reports N P (statementBody statement.body) fun _ _ => True :=
    fun s hs _ => statementBody_reportsAt statement.body h hs
  exact .within (hbody.andThen fun body => .done) statement.span

end Resolver

/-- Over a catalog whose names are unique only a name in a query can be ambiguous. -/
theorem Complaint.inQuery {N : Expr → Prop} {index : LineIndex} {c : Catalog} {d : Diagnostic}
    (h : Complaint N index c d) (hc : c.Indexed) (hunique : c.NamesUnique)
    (hd : IsAmbiguity d.message) :
    (∃ note nameNote table right, N (.dot note (.name nameNote table) right) ∧
        d = .semantic s!"ambiguous table name {table.name}" (index.range table.span)) ∨
      ∃ id result, c.IsResultNamed id result ∧ ∃ name : Ident,
        1 < (c.findColumns id name.name).length ∧ d = .semantic
          s!"ambiguous column {name.name} in table {result}" (index.range name.span) := by
  cases h with
  | catalogTable name hmany =>
    exact absurd (hunique.length_findTables hc name.name) (Nat.not_le.mpr hmany)
  | tableColumn table name hmany =>
    have hderived : (c.table table).origin = .derived := by
      by_contra hnamed
      exact absurd (hunique.length_findColumns hc hnamed name.name) (Nat.not_le.mpr hmany)
    rcases Catalog.Indexed.table_cases c table with ⟨t, ht, heq⟩ | hnone
    · rw [heq] at hderived ⊢
      exact .inr ⟨table, t.name, ⟨t, ht, hderived, rfl⟩, name, hmany, rfl⟩
    · simp [Catalog.findColumns, hnone] at hmany
  | scopeTable hnode => exact .inl ⟨_, _, _, _, hnode, rfl⟩
  | other hother => exact absurd hd hother

namespace Resolution

open Catalog

/-- No look-up in the catalog was ambiguous. What may be is the name before the point of a
qualified name, which is looked up among the sources of a query, and the name of a column
of a query's result, which at that time had several columns with the name. -/
def AmbiguousOnlyInQueries (index : LineIndex) (catalog : Catalog) (statements : List Statement)
    (r : Resolution) : Prop :=
  ∀ d ∈ r.raised, IsAmbiguity d.message →
    (∃ statement ∈ statements, ∃ note nameNote table right,
      .dot note (.name nameNote table) right ∈ statement.body.allNodes ∧
        d = .semantic s!"ambiguous table name {table.name}" (index.range table.span)) ∨
    ∃ id result, r.catalog.IsResultNamed id result ∧ ∃ name : Ident,
      (∃ c, Edits .all catalog c ∧ Edits .all c r.catalog ∧
        1 < (c.findColumns id name.name).length) ∧
      d = .semantic s!"ambiguous column {name.name} in table {result}" (index.range name.span)

/-- Whatever statements do to a catalog whose names are unique, they stay so, and a
look-up in the catalog is never ambiguous. -/
theorem namesUnique_ofStatements (index : LineIndex) {catalog : Catalog} (hc : catalog.Indexed)
    (hunique : catalog.NamesUnique) (statements : List Statement) :
    (ofStatements index catalog statements).catalog.NamesUnique ∧
      (ofStatements index catalog statements).AmbiguousOnlyInQueries index catalog statements := by
  have hreports : Resolver.Reports
      (fun x => ∃ statement ∈ statements, x ∈ statement.body.allNodes) (fun _ => True)
      (statements.mapM Resolver.statement) fun _ _ => True :=
    Resolver.Reports.mapM statements fun statement hmem =>
      Resolver.statement_reports statement fun x hx => ⟨statement, hmem, hx⟩
  obtain ⟨⟨hedits, -⟩, -, ds, hraised, hds⟩ :=
    hreports.runsAt (s := ResolverState.start index catalog) hc
  refine ⟨hedits.namesUnique hc hunique, fun d hd hambiguous => ?_⟩
  have hd : d ∈ ds := by
    have hmem : d ∈ ([] : List Diagnostic) ++ ds := hraised ▸ hd
    simpa using hmem
  -- The names of the catalog at that time are unique, too.
  obtain ⟨c, hbefore, hafter, hcomplaint⟩ := hds d hd
  rcases hcomplaint.inQuery (hbefore.indexed hc) (hbefore.namesUnique hc hunique) hambiguous with
    ⟨_, _, _, _, ⟨statement, hmem, hnode⟩, rfl⟩ | ⟨id, result, hresult, name, hmany, rfl⟩
  · exact .inl ⟨statement, hmem, _, _, _, _, hnode, rfl⟩
  · have hlast := hafter.isResultNamed hresult
    exact .inr ⟨id, result, hlast, name, ⟨c, hbefore, hafter, hmany⟩, rfl⟩

/-- `CREATE TABLE T (a)`, `CREATE TABLE u (a, A)` and
`SELECT s.a FROM (SELECT 1 AS a, 1 AS a) AS s` over a schema with a table `t`: the
definitions take no name twice, and only the column of the result is ambiguous. -/
theorem namesUnique_ofStatements_result :
    let catalog := Catalog.ofDescriptors
      [⟨"t", none, [⟨"a", "integer", false, none, false⟩], [], none⟩]
    let column (name : String) : ColumnDef :=
      ⟨⟨name, false, ⟨16, 17⟩⟩, none, [], ⟨16, 17⟩, none, none⟩
    let one : Expr := .constant ⟨⟨24, 25⟩, none, none⟩ (.integer 1)
    let a : Ident := ⟨"a", false, ⟨29, 30⟩⟩
    let s : Ident := ⟨"s", false, ⟨42, 43⟩⟩
    let inner : Select := ⟨false, [.expr one (some a), .expr one (some a)], none, none, none, none,
      none, ⟨17, 37⟩, none⟩
    let outer : Select := ⟨false, [.expr (.dot ⟨⟨7, 10⟩, none, none⟩
      (.name ⟨⟨7, 8⟩, none, none⟩ s) a) none], some ⟨.subquery inner (some s) ⟨16, 38⟩, []⟩,
      none, none, none, none, ⟨0, 43⟩, none⟩
    let statements : List Statement :=
      [⟨.createTable ⟨false, ⟨"T", false, ⟨13, 14⟩⟩, [column "a"], [], none⟩, ⟨0, 18⟩, none⟩,
        ⟨.createTable ⟨false, ⟨"u", false, ⟨13, 14⟩⟩, [column "a", column "A"], [], none⟩,
          ⟨0, 21⟩, none⟩,
        ⟨.select outer, ⟨0, 43⟩, none⟩]
    let r := ofStatements ⟨[], 43⟩ catalog statements
    (catalog.Indexed ∧ catalog.NamesUnique) ∧
      r.raised.map Diagnostic.message =
        ["table T already exists", "duplicate column name A", "ambiguous column a in table s"] ∧
      r.catalog.NamesUnique ∧ r.AmbiguousOnlyInQueries ⟨[], 43⟩ catalog statements := by
  intro catalog column one a s inner outer statements r
  have hc : catalog.Indexed := .ofDescriptors _
  have hunique : catalog.NamesUnique := .of_nodup hc (by decide) (by decide)
  exact ⟨⟨hc, hunique⟩, by decide +kernel, namesUnique_ofStatements ⟨[], 43⟩ hc hunique statements⟩

end Resolution
end SqlAnalysis
