import SqlAnalysis.Proofs.Resolution.Batches
import SqlAnalysis.Proofs.Resolution.Openings

/-!
# The scopes of statements

Each statement of a batch adds one tree of scopes, grown from its own region, to the scope
of the whole text. Nothing is cut off it, as that scope goes from the beginning of the text
to its end.
-/
namespace SqlAnalysis

namespace Resolver

open ResolverState

variable {xs : List Outline}

/-! ### Rows -/

theorem target?_opens (name : Ident) : Opens (target? name) xs := by
  refine (Opens.remarks (catalogTable?_remarks name)).andThen fun table? => ?_
  split
  · exact (bindTable_opens _ _).andThen fun _ => .done
  · exact .done

theorem storedTerms_opens (es : List Expr) :
    ∀ columns, Opens (storedTerms columns es) (exprRegions es) := by
  induction es with
  | nil =>
    intro columns
    cases columns <;> exact .done
  | cons e es ih =>
    intro columns
    rw [exprRegions]
    cases columns with
    | nil =>
      rw [storedTerms]
      exact (term_opens e).bind fun e => (ih []).finish fun es => .done
    | cons column columns =>
      rw [storedTerms]
      apply (term_opens e).bind
      intro e
      apply (Opens.remarks (requireStorable_remarks e column)).andThen
      intro _
      exact (ih columns).finish fun es => .done

theorem valueRow_opens (targets : List ColumnId) (complete : Bool) (row : ValueRow) :
    Opens (valueRow targets complete row) (exprRegions row.values) := by
  unfold valueRow
  split
  · apply (Opens.remarks (requireLength_remarks targets row)).andThen
    intro _
    exact (storedTerms_opens row.values targets).finish fun values => .done
  · exact (storedTerms_opens row.values []).finish fun values => .done

theorem insertRows_opens (targets : List ColumnId) (complete : Bool) (rows : List ValueRow) :
    Opens (insertRows targets complete rows) (rowsRegions rows) := by
  cases rows with
  | nil => exact .done
  | cons first rest => exact .within (.mapM _ fun row _ => valueRow_opens targets complete row)

theorem insert_opens (i : Insert) : Opens (insert i) (rowsRegions i.rows) := by
  refine (target?_opens i.table).andThen fun table? => ?_
  split
  · exact .done
  · apply (Opens.remarks (insertTargets_remarks _ i.columns)).andThen
    rintro ⟨targets, complete⟩
    exact (insertRows_opens targets complete i.rows).finish fun rows => .done

theorem assignment_opens (table : TableId) (a : Assignment) :
    Opens (assignment table a) a.value.regions := by
  apply (Opens.remarks (tableColumn?_remarks table a.column)).andThen
  intro column
  apply (term_opens a.value).finish
  intro value
  split
  · exact .remarks ((requireStorable_remarks _ _).bind fun _ => .pure _)
  · exact .done

theorem update_opens (u : Update) : Opens (update u)
    ((u.assignments.flatMap fun a => a.value.regions) ++ conditionRegions u.condition) := by
  refine (target?_opens u.table).andThen fun table? => ?_
  split
  · exact .done
  · next table =>
    apply (Opens.mapM u.assignments fun a _ => assignment_opens table a).bind
    intro assignments
    exact (rowCondition_opens u.condition).finish fun condition => .done

theorem delete_opens (d : Delete) : Opens (delete d) (conditionRegions d.condition) := by
  refine (target?_opens d.table).andThen fun table? => ?_
  split
  · exact .done
  · exact (rowCondition_opens d.condition).finish fun condition => .done

/-! ### Rules of columns and tables -/

theorem linkColumn_opens (source : Ident × Option ColumnId) (target : Option ColumnId × Span) :
    Opens (linkColumn source target) xs := by
  unfold linkColumn
  split
  · apply (Opens.remarks .catalog).andThen
    intro c
    apply (Opens.remarks (requireKey_remarks _ _)).andThen
    intro _
    apply (Opens.remarks (requireReferable_remarks _ _ _)).andThen
    exact fun _ => .still fun _ => ⟨rfl, rfl⟩
  · exact .done

theorem foreignKey_opens (sources : List (Ident × Option ColumnId)) (clause : ForeignKeyClause) :
    Opens (foreignKey sources clause) [] := by
  refine (Opens.remarks (catalogTable?_remarks clause.table)).andThen fun table? => ?_
  split
  · next table =>
    refine (Opens.remarks (keyTargets?_remarks table clause)).andThen fun targets? => ?_
    split
    · split
      · exact .still fun _ => ⟨rfl, rfl⟩
      · exact .forM _ fun pair _ => linkColumn_opens pair.1 pair.2
    · exact .done
  · exact .done

theorem columnRule_opens (name : Ident) (column : ColumnId) (rule : ColumnRule) :
    Opens (columnRule name column rule) rule.regions := by
  cases rule with
  | default value =>
    apply (term_opens value).finish
    intro value
    exact .remarks ((requireStorable_remarks value column).bind fun _ => .pure _)
  | check e =>
    exact (condition_opens (term_opens e) (.literal _ rfl) _).finish fun e => .done
  | references clause => exact (foreignKey_opens _ clause).andThen fun _ => .done
  | _ => exact .done

theorem columnRules_opens (d : ColumnDef) :
    Opens (columnRules d) (constraintRegions d.constraints) := by
  unfold columnRules
  split
  · exact .done
  · refine (Opens.mapM d.constraints fun k _ => ?_).finish fun constraints => .done
    exact (columnRule_opens d.name _ k.rule).finish fun rule => .done

theorem lookedUp_opens (table : TableId) (ident : Ident) : Opens (tableColumn? table ident) xs :=
  .remarks (tableColumn?_remarks table ident)

theorem markPrimaryKey_opens (table : TableId) (rule : TableRule) :
    Opens (markPrimaryKey table rule) [] := by
  unfold markPrimaryKey
  split
  · refine .forM _ fun ident _ => ?_
    apply (lookedUp_opens table ident).andThen
    intro column
    split <;> exact .still fun _ => ⟨rfl, rfl⟩
  · exact .done

theorem tableRule_opens (table : TableId) (rule : TableRule) :
    Opens (tableRule table rule) rule.regions := by
  cases rule with
  | primaryKey columns => exact .done
  | unique columns =>
    refine (Opens.forM columns fun ident _ => ?_).andThen fun _ => .done
    exact (lookedUp_opens table ident).andThen fun _ => .done
  | check e =>
    exact (condition_opens (term_opens e) (.literal _ rfl) _).finish fun e => .done
  | foreignKey columns clause =>
    have hsources : Opens (columns.mapM fun ident => return (ident, ← tableColumn? table ident))
        (columns.flatMap fun _ => []) :=
      .mapM columns fun ident _ => (lookedUp_opens table ident).finish fun _ => .done
    rw [List.flatMap_eq_nil_iff.mpr fun _ _ => rfl] at hsources
    exact hsources.andThen fun sources => (foreignKey_opens sources clause).finish fun _ => .done

/-! ### New columns and tables -/

theorem defineColumn_opens (table : TableId) (d : ColumnDef) :
    Opens (defineColumn table d) xs := by
  apply (Opens.remarks (declaredType?_remarks d.typeName)).andThen
  exact fun type => .still fun _ => ⟨rfl, rfl⟩

theorem defineColumn_constraints (table : TableId) (d : ColumnDef) (s : ResolverState) :
    ((defineColumn table d).run s).1.1.constraints = d.constraints := by
  obtain ⟨type, -, hresult⟩ := defineColumn_run table d s
  rw [hresult]

theorem defineColumns_opens (table : TableId) (ds : List ColumnDef) :
    ∀ seen, Opens (defineColumns table seen ds) xs := by
  induction ds with
  | nil => exact fun _ => .done
  | cons d ds ih =>
    intro seen
    rw [defineColumns]
    dsimp only
    split
    · have herror : Opens (error s!"duplicate column name {d.name.name}" d.name.span) [] :=
        .still fun _ => ⟨rfl, rfl⟩
      exact herror.andThen fun _ => (ih _).finish fun ds => .done
    · exact (defineColumn_opens table d).andThen fun _ => (ih _).finish fun ds => .done

/-- Adding columns leaves the rules in their definitions for later. -/
theorem defineColumns_constraints (table : TableId) (ds : List ColumnDef) :
    ∀ seen s, ((defineColumns table seen ds).run s).1.map ColumnDef.constraints =
      ds.map ColumnDef.constraints := by
  induction ds with
  | nil => exact fun _ _ => rfl
  | cons d ds ih =>
    intro seen s
    rw [defineColumns]
    dsimp only
    split
    · exact congrArg (d.constraints :: ·) (ih _ _)
    · exact congrArg₂ List.cons (defineColumn_constraints table d s) (ih _ _)

theorem createTable_opens (t : CreateTable) : Opens (createTable t)
    ((t.columns.flatMap fun d => constraintRegions d.constraints) ++
      t.constraints.flatMap fun c => c.rule.regions) := by
  refine (Opens.remarks .catalog).andThen fun c => ?_
  split
  · split <;> exact .still fun _ => ⟨rfl, rfl⟩
  · apply Opens.andThen (r := addTable t.name.name .created) (.still fun _ => ⟨rfl, rfl⟩)
    intro table
    have hdefine : Opens (defineColumns table [] t.columns) [] := defineColumns_opens table _ []
    apply hdefine.bindOf (Q := fun columns => columns.map ColumnDef.constraints =
      t.columns.map ColumnDef.constraints) (defineColumns_constraints table t.columns [])
    intro columns hsame
    apply (Opens.forM _ fun k _ => markPrimaryKey_opens table k.rule).andThen
    intro _
    apply (bindTable_opens _ _).andThen
    intro _
    have hregions : t.columns.flatMap (fun d => constraintRegions d.constraints) =
        columns.flatMap fun d => constraintRegions d.constraints := by
      simp only [← List.flatMap_map (f := ColumnDef.constraints), hsame]
    rw [hregions]
    apply (Opens.mapM columns fun d _ => columnRules_opens d).bind
    intro columns
    refine (Opens.mapM t.constraints fun k _ => ?_).finish fun constraints => .done
    exact (tableRule_opens table k.rule).finish fun rule => .done

theorem alterAction_opens (table : TableId) (action : AlterAction) :
    Opens (alterAction table action) action.regions := by
  have hcatalog : Opens catalog [] := .remarks .catalog
  cases action with
  | addColumn d =>
    rw [alterAction]
    apply hcatalog.andThen
    intro c
    split
    · exact .still fun _ => ⟨rfl, rfl⟩
    · have hdefine : Opens (defineColumn table d) [] := defineColumn_opens table d
      apply hdefine.bindOf (Q := fun result => result.1.constraints = d.constraints)
        (defineColumn_constraints table d)
      rintro ⟨defined, id⟩ hsame
      apply (bindColumn_opens _ _).andThen
      intro _
      show Opens _ (constraintRegions d.constraints)
      rw [← hsame]
      exact (columnRules_opens defined).finish fun d => .done
  | dropColumn ident =>
    apply (lookedUp_opens table ident).andThen
    intro column
    split <;> exact .still fun _ => ⟨rfl, rfl⟩
  | renameColumn ident newName =>
    apply (lookedUp_opens table ident).andThen
    intro column
    split
    · apply hcatalog.andThen
      intro c
      split <;> exact .still fun _ => ⟨rfl, rfl⟩
    · exact .done
  | renameTo newName =>
    rw [alterAction]
    apply hcatalog.andThen
    intro c
    split <;> exact .still fun _ => ⟨rfl, rfl⟩

theorem alterTable_opens (t : AlterTable) : Opens (alterTable t) t.action.regions := by
  refine (target?_opens t.table).andThen fun table? => ?_
  split
  · exact .done
  · exact (alterAction_opens _ t.action).finish fun action => .done

theorem dropTable_opens (t : DropTable) : Opens (dropTable t) xs := by
  refine (Opens.remarks .catalog).andThen fun c => ?_
  split
  · exact .done
  · refine (Opens.remarks (catalogTable?_remarks t.table)).andThen fun table? => ?_
    split <;> exact .still fun _ => ⟨rfl, rfl⟩

/-! ### Statements -/

theorem statementBody_opens (body : StatementBody) : Opens (statementBody body) body.regions := by
  cases body with
  | select b => exact (query_opens "result" b).finish fun result => .done
  | insert b => exact (insert_opens b).finish fun b => .done
  | update b => exact (update_opens b).finish fun b => .done
  | delete b => exact (delete_opens b).finish fun b => .done
  | createTable b => exact (createTable_opens b).finish fun b => .done
  | alterTable b => exact (alterTable_opens b).finish fun b => .done
  | dropTable b => exact (dropTable_opens b).finish fun b => .done

variable {s : ResolverState}

/-- A statement adds the scopes of its own region to the scope of the whole text. -/
theorem statement_grows (statement : Statement) (hs : s.frames = [])
    (hholds : s.root.scope.range.Holds s.index [statement.region]) :
    ∃ tree, Grown s.index statement.region tree ∧
      ((Resolver.statement statement).run s).2.root.children = s.root.children ++ [tree] := by
  let resolved : Resolver Statement := do
    return { statement with body := ← statementBody statement.body }
  have horderly : Orderly resolved :=
    (statementBody_orderly statement.body).bind fun body => .pure _
  have hopens : Opens resolved statement.body.regions :=
    (statementBody_opens statement.body).finish fun body => .done
  have hroot := (horderly (s.enter statement.span) (List.cons_ne_nil _ _)).keeps.root
  have hholds : (s.frames.headD s.root).scope.range.Holds s.index
      [.node statement.span statement.body.regions] := by
    rw [hs]
    exact hholds
  obtain ⟨inner, hinner, -, hgrown⟩ := hopens.grows hholds
  rw [hs] at hinner
  refine ⟨inner.toTree, hgrown, ?_⟩
  unfold Resolver.statement
  rw [run_within, leave, hinner]
  show (resolved.run (s.enter statement.span)).2.root.children ++ [inner.toTree] = _
  rw [hroot]
  rfl

theorem statements_grow (statements : List Statement) : ∀ {s : ResolverState}, s.frames = [] →
    s.root.scope.range.Holds s.index (statements.map Statement.region) →
      ∃ trees, List.Forall₂ (Grown s.index) (statements.map Statement.region) trees ∧
        ((statements.mapM Resolver.statement).run s).2.root.children =
          s.root.children ++ trees := by
  induction statements with
  | nil => exact fun _ _ => ⟨[], .nil, (List.append_nil _).symm⟩
  | cons statement statements ih =>
    intro s hs hholds
    obtain ⟨hfirst, hrest⟩ := List.forall_mem_cons.mp hholds
    obtain ⟨hsettled, -⟩ := statement_settles statement hs
    obtain ⟨tree, htree, hchildren⟩ :=
      statement_grows statement hs (List.forall_mem_singleton.mpr hfirst)
    obtain ⟨trees, htrees, hchildren'⟩ := ih hsettled.frames (by
      rw [hsettled.index, hsettled.scope]
      exact hrest)
    rw [hsettled.index] at htrees
    refine ⟨tree :: trees, .cons htree htrees, ?_⟩
    rw [run_statements_cons, hchildren', hchildren, List.append_assoc]
    rfl

theorem statements_span (statements : List Statement) : ∀ s : ResolverState,
    ((statements.mapM Resolver.statement).run s).1.map Statement.span =
      statements.map Statement.span := by
  induction statements with
  | nil => exact fun _ => rfl
  | cons statement statements ih =>
    intro s
    rw [run_statements_cons]
    exact congrArg (statement.span :: ·) (ih _)

end Resolver

namespace Resolution

variable (index : LineIndex) (catalog : Catalog) {statements : List Statement}

/-- The scopes of statements whose regions nest are grown from the regions. -/
theorem grown_ofStatements (h : ∀ statement ∈ statements, statement.region.Nests) :
    let tree := (ofStatements index catalog statements).scopes
    List.Forall₂ (Grown index) (statements.map Statement.region) tree.children ∧ tree.Nests := by
  have hholds : (ResolverState.start index catalog).root.scope.range.Holds index
      (statements.map Statement.region) := by
    intro o ho
    obtain ⟨statement, hmem, rfl⟩ := List.mem_map.mp ho
    have hlast := index.position_le_length statement.region.span.stop
    exact ⟨h statement hmem, (Range.encloses_iff _ _).mpr ⟨Position.origin_le _, hlast⟩⟩
  obtain ⟨hsettled, -⟩ :=
    Resolver.statements_settle statements (s := ResolverState.start index catalog) rfl
  obtain ⟨trees, htrees, hchildren⟩ :=
    Resolver.statements_grow statements (s := ResolverState.start index catalog) rfl hholds
  have htree : (ofStatements index catalog statements).scopes =
      .node (ResolverState.start index catalog).root.scope trees :=
    congrArg₂ ScopeTree.node hsettled.scope hchildren
  rw [htree]
  refine ⟨htrees, .of_grown hholds htrees fun o ho t => Grown.nests o ?_⟩
  obtain ⟨statement, hmem, rfl⟩ := List.mem_map.mp ho
  exact h statement hmem

end Resolution
end SqlAnalysis
