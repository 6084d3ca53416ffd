import SqlAnalysis.Proofs.Resolution.Batches
import SqlAnalysis.Proofs.Resolution.QueryEdits

/-!
# Edits of statements

A statement that is about rows adds results of queries only. One that defines a
table edits that table, and it takes a name for a table or column only when nothing
has it. So the catalogs of all batches are coherent.
-/
namespace SqlAnalysis

namespace Resolver

open Catalog ResolverState

variable {α : Type} {own : Rights} {P : Catalog → Prop}

/-! ### What look-ups find -/

theorem catalogTable?_run (name : Ident) (s : ResolverState) :
    (∃ id, s.catalog.findTables name.name = [id] ∧ (catalogTable? name).run s = (some id, s)) ∨
      ((catalogTable? name).run s).1 = none ∧ ((catalogTable? name).run s).2.Failed := by
  unfold catalogTable?
  rw [run_catalog_bind]
  split
  · next id hfound => exact .inl ⟨id, hfound, rfl⟩
  · exact .inr ⟨rfl, _, List.mem_append_right _ List.mem_cons_self, rfl⟩
  · exact .inr ⟨rfl, _, List.mem_append_right _ List.mem_cons_self, rfl⟩

theorem tableColumn?_run (table : TableId) (name : Ident) (s : ResolverState) :
    (∃ id, s.catalog.findColumns table name.name = [id] ∧
        (tableColumn? table name).run s = (some id, s)) ∨
      ((tableColumn? table name).run s).1 = none ∧
        ((tableColumn? table name).run s).2.Failed := by
  unfold tableColumn?
  rw [run_catalog_bind]
  dsimp only
  split
  · next id hfound => exact .inl ⟨id, hfound, rfl⟩
  · exact .inr ⟨rfl, _, List.mem_append_right _ List.mem_cons_self, rfl⟩
  · exact .inr ⟨rfl, _, List.mem_append_right _ List.mem_cons_self, rfl⟩

/-- The column exists and belongs to the table. -/
structure IsColumnOf (table : TableId) (c : Catalog) (id : ColumnId) : Prop where
  hasColumn : c.HasColumn id
  owner : (c.column id).table = table

theorem IsColumnOf.of_edits {table : TableId} {c c' : Catalog} {id : ColumnId}
    (h : IsColumnOf table c id) (hedits : Edits own c c') : IsColumnOf table c' id :=
  ⟨hedits.preserves.hasColumn h.hasColumn,
    (hedits.preserves.owner_eq h.hasColumn).trans h.owner⟩

theorem tableColumn?_evolves (table : TableId) (name : Ident) :
    Evolves own P (tableColumn? table name) fun c column =>
      ∀ id ∈ column, IsColumnOf table c id := by
  refine .quietly (tableColumn?_quiet table name) fun s hs _ c hc id hid => ?_
  rcases tableColumn?_run table name s with ⟨found, hfound, hrun⟩ | ⟨hnone, -⟩
  · rw [hrun] at hid
    obtain rfl := Option.mem_some_iff.mp hid
    have hmem : found ∈ s.catalog.findColumns table name.name := by simp [hfound]
    obtain ⟨hhas, howner⟩ := hs.indexed.owner_of_mem (List.mem_filter.mp hmem).1
    exact IsColumnOf.of_edits ⟨hhas, howner⟩ hc
  · rw [hnone] at hid
    cases hid

/-! ### Rows -/

theorem requireStorable_quiet (value : Expr) (column : ColumnId) :
    Quiet (requireStorable value column) := by
  apply Quiet.catalog.bind
  intro c
  dsimp only
  split
  · exact .pure ()
  · split
    · split
      · exact .complain _ _
      · exact .pure ()
    · split
      · split
        · exact .complain _ _
        · exact .pure ()
      · exact .pure ()

theorem target?_quiet (name : Ident) : Quiet (target? name) := by
  refine (catalogTable?_quiet name).bind fun table? => ?_
  split
  · exact (Quiet.bindTable _ _).bind fun _ => .pure _
  · exact .pure _

theorem requireUnlisted_quiet (seen : List String) (ident : Ident) :
    Quiet (requireUnlisted seen ident) := by
  unfold requireUnlisted
  split
  · exact .complain _ _
  · exact .pure ()

theorem listedColumns_quiet (table : TableId) (idents : List Ident) :
    ∀ seen, Quiet (listedColumns table seen idents) := by
  induction idents with
  | nil => exact fun _ => .pure _
  | cons ident idents ih =>
    intro seen
    rw [listedColumns]
    apply (requireUnlisted_quiet seen ident).bind
    intro _
    apply (tableColumn?_quiet table ident).bind
    intro column
    exact (ih _).bind fun results => .pure _

theorem requireLength_quiet (targets : List ColumnId) (row : ValueRow) :
    Quiet (requireLength targets row) := by
  unfold requireLength
  split
  · exact .complain _ _
  · exact .pure ()

theorem insertTargets_quiet (table : TableId) (columns : List Ident) :
    Quiet (insertTargets table columns) := by
  unfold insertTargets
  split
  · exact Quiet.catalog.bind fun c => .pure _
  · exact listedColumns_quiet table columns []

theorem storedTerms_evolves (es : List Expr) :
    ∀ (P : Catalog → Prop) columns, Evolves own P (storedTerms columns es) fun _ _ => True := by
  induction es with
  | nil =>
    intro P columns
    cases columns <;> exact .quiet (.pure _)
  | cons e es ih =>
    intro P columns
    cases columns with
    | nil =>
      rw [storedTerms]
      apply (term_evolves e).bind
      intro e
      exact (ih _ []).bind fun es => .quiet (.pure _)
    | cons column columns =>
      rw [storedTerms]
      apply (term_evolves e).bind
      intro e
      apply (Evolves.quiet (requireStorable_quiet e column)).bind
      intro _
      exact (ih _ columns).bind fun es => .quiet (.pure _)

theorem valueRow_evolves (targets : List ColumnId) (complete : Bool) (row : ValueRow) :
    Evolves own P (valueRow targets complete row) fun _ _ => True := by
  unfold valueRow
  split
  · apply (Evolves.quiet (requireLength_quiet targets row)).bind
    intro _
    exact (storedTerms_evolves row.values _ targets).bind fun values => .quiet (.pure _)
  · exact (storedTerms_evolves row.values _ []).bind fun values => .quiet (.pure _)

theorem mapM_evolves {β : Type} {f : α → Resolver β}
    (hf : ∀ (P : Catalog → Prop) a, Evolves own P (f a) fun _ _ => True) (as : List α) :
    Evolves own P (as.mapM f) fun _ _ => True :=
  (Evolves.mapM_of (S := fun _ _ => True) (fun P a _ => hf P a) as P
    fun _ _ _ _ => trivial).weaken (fun _ h => h) fun _ _ _ => trivial

theorem insertRows_evolves (targets : List ColumnId) (complete : Bool) (rows : List ValueRow) :
    Evolves own P (insertRows targets complete rows) fun _ _ => True := by
  cases rows with
  | nil => exact .quiet (.pure _)
  | cons first rest => exact .within (mapM_evolves (fun _ => valueRow_evolves targets complete) _) _

theorem insert_evolves (s : Insert) : Evolves own P (insert s) fun _ _ => True := by
  refine (Evolves.quiet (target?_quiet s.table)).bind fun table? => ?_
  split
  · exact .quiet (.pure _)
  · apply (Evolves.quiet (insertTargets_quiet _ s.columns)).bind
    intro targets
    exact (insertRows_evolves _ _ s.rows).bind fun rows => .quiet (.pure _)

theorem assignment_evolves (table : TableId) (a : Assignment) :
    Evolves own P (assignment table a) fun _ _ => True := by
  apply (Evolves.quiet (tableColumn?_quiet table a.column)).bind
  intro column
  apply (term_evolves a.value).bind
  intro value
  split
  · exact .quiet ((requireStorable_quiet _ _).bind fun _ => .pure _)
  · exact .quiet (.pure _)

theorem update_evolves (s : Update) : Evolves own P (update s) fun _ _ => True := by
  refine (Evolves.quiet (target?_quiet s.table)).bind fun table? => ?_
  split
  · exact .quiet (.pure _)
  · apply (mapM_evolves (fun _ => assignment_evolves _) s.assignments).bind
    intro assignments
    exact (rowCondition_evolves s.condition).bind fun condition => .quiet (.pure _)

theorem delete_evolves (s : Delete) : Evolves own P (delete s) fun _ _ => True := by
  refine (Evolves.quiet (target?_quiet s.table)).bind fun table? => ?_
  split
  · exact .quiet (.pure _)
  · exact (rowCondition_evolves s.condition).bind fun condition => .quiet (.pure _)

/-! ### Rules of columns and tables -/

theorem declaredType?_quiet (typeName : Option TypeName) : Quiet (declaredType? typeName) := by
  unfold declaredType?
  split
  · exact .pure _
  · split
    · exact .pure _
    · exact refuse_quiet _ _ _

theorem requireKey_quiet (referenced : Column) (place : Span) :
    Quiet (requireKey referenced place) := by
  unfold requireKey
  split
  · exact .complain _ _
  · exact .pure ()

theorem requireReferable_quiet (name : Ident) (column referenced : Column) :
    Quiet (requireReferable name column referenced) := by
  unfold requireReferable
  split
  · split
    · exact .complain _ _
    · exact .pure ()
  · exact .pure ()

theorem keyTargets?_evolves (table : TableId) (clause : ForeignKeyClause) :
    Evolves own P (keyTargets? table clause) fun c found =>
      ∀ targets ∈ found, ∀ target ∈ targets, ∀ id ∈ target.1, c.HasColumn id := by
  unfold keyTargets?
  split
  · -- The first key column is looked up without a complaint that could be missed.
    intro s hs _
    apply EvolvesAt.view
    split
    · next key hkey =>
      refine ⟨.refl, fun c hc targets htargets target htarget id hid => ?_⟩
      obtain rfl := Option.mem_some_iff.mp htargets
      obtain rfl := List.mem_singleton.mp htarget
      obtain rfl := Option.mem_some_iff.mp hid
      have hmem := List.mem_of_find?_eq_some hkey
      exact hc.preserves.hasColumn (hs.indexed.owner_of_mem hmem).1
    · exact ⟨.refl, fun c _ targets htargets => absurd htargets (Option.not_mem_none targets)⟩
  · refine (Evolves.mapM_of (S := fun _ _ => True)
      (R := fun c target => ∀ id ∈ target.1, c.HasColumn id) (fun P ident _ => ?_) _ P
      fun _ _ _ _ => trivial).bind fun targets => .pure fun c h found hfound => ?_
    · apply (tableColumn?_evolves table ident).bind
      intro column
      exact .pure fun c h id hid => (h.2 id hid).hasColumn
    · obtain rfl := Option.mem_some_iff.mp hfound
      exact h.2

theorem linkColumn_evolves {source : Ident × Option ColumnId} {target : Option ColumnId × Span}
    (hsource : ∀ c, P c → ∀ id ∈ source.2, own (c.column id).table)
    (htarget : ∀ c, P c → ∀ id ∈ target.1, c.HasColumn id) :
    Evolves own P (linkColumn source target) fun _ _ => True := by
  unfold linkColumn
  split
  · next sourceId targetId hpair =>
    obtain ⟨hsourceId, htargetId⟩ := Prod.mk.inj hpair
    apply (Evolves.quiet .catalog).bind
    intro c
    apply (Evolves.quiet (requireKey_quiet _ _)).bind
    intro _
    apply (Evolves.quiet (requireReferable_quiet _ _ _)).bind
    intro _
    refine .modifyCatalog fun c _ h => .single (.link ?_ ?_)
    · exact hsource c h.1.1.1 sourceId hsourceId
    · exact htarget c h.1.1.1 targetId htargetId
  · exact .quiet (.pure _)

theorem foreignKey_evolves {sources : List (Ident × Option ColumnId)}
    (hsources : ∀ c, P c → ∀ source ∈ sources, ∀ id ∈ source.2, own (c.column id).table)
    (clause : ForeignKeyClause) : Evolves own P (foreignKey sources clause) fun _ _ => True := by
  refine (Evolves.quiet (catalogTable?_quiet clause.table)).bind fun table? => ?_
  split
  · refine (keyTargets?_evolves _ clause).bind fun targets? => ?_
    split
    · next targets =>
      split
      · exact .quiet (.complain _ _)
      · refine Evolves.forM_of (S := fun c pair => (∀ id ∈ pair.1.2, own (c.column id).table) ∧
          ∀ id ∈ pair.2.1, c.HasColumn id) ?_ _ _ fun c h pair hpair => ?_
        · rintro P ⟨source, target⟩ hP
          exact linkColumn_evolves (fun c h => (hP c h).1) fun c h => (hP c h).2
        · obtain ⟨hsource, htarget⟩ := List.of_mem_zip hpair
          exact ⟨hsources c h.1.1 _ hsource, h.2 targets rfl _ htarget⟩
    · exact .quiet (.pure _)
  · exact .quiet (.pure _)

theorem columnRule_evolves (name : Ident) {column : ColumnId}
    (hcolumn : ∀ c, P c → own (c.column column).table) (rule : ColumnRule) :
    Evolves own P (columnRule name column rule) fun _ _ => True := by
  cases rule with
  | default value =>
    apply (term_evolves value).bind
    intro value
    exact .quiet ((requireStorable_quiet value column).bind fun _ => .pure _)
  | check e => exact (condition_evolves (term_evolves e) _ _).bind fun e => .quiet (.pure _)
  | references clause =>
    refine (foreignKey_evolves (fun c h source hsource id hid => ?_) clause).bind
      fun _ => .quiet (.pure _)
    obtain rfl := List.mem_singleton.mp hsource
    obtain rfl := Option.mem_some_iff.mp hid
    exact hcolumn c h
  | _ => exact .quiet (.pure _)

theorem columnRules_evolves {d : ColumnDef}
    (hd : ∀ c, P c → ∀ id ∈ d.binding, own (c.column id).table) :
    Evolves own P (columnRules d) fun _ _ => True := by
  unfold columnRules
  split
  · exact .quiet (.pure _)
  · next column hcolumn =>
    refine (Evolves.mapM_of (S := fun c _ => own (c.column column).table)
      (R := fun _ _ => True) (fun P k hP => ?_) d.constraints P fun c h _ _ => ?_).bind
      fun constraints => .quiet (.pure _)
    · exact (columnRule_evolves d.name hP k.rule).bind fun rule => .quiet (.pure _)
    · exact hd c h column hcolumn

theorem markPrimaryKey_evolves {table : TableId} (hown : own table) (rule : TableRule) :
    Evolves own P (markPrimaryKey table rule) fun _ _ => True := by
  unfold markPrimaryKey
  split
  · refine Evolves.forM_of (S := fun _ _ => True) (fun P ident _ => ?_) _ P fun _ _ _ _ => trivial
    apply (tableColumn?_evolves table ident).bind
    intro column
    split
    · next id =>
      refine .modifyCatalog fun c _ h => .single (.markKey ?_)
      rwa [(h.2 id rfl).owner]
    · exact .quiet (.pure _)
  · exact .quiet (.pure _)

theorem tableRule_evolves {table : TableId} (hown : own table) (rule : TableRule) :
    Evolves own P (tableRule table rule) fun _ _ => True := by
  cases rule with
  | primaryKey columns => exact .quiet (.pure _)
  | unique columns =>
    refine (Evolves.forM_of (S := fun _ _ => True) (fun P ident _ => ?_) columns P
      fun _ _ _ _ => trivial).bind fun _ => .quiet (.pure _)
    exact .quiet ((tableColumn?_quiet table ident).bind fun column => .pure _)
  | check e => exact (condition_evolves (term_evolves e) _ _).bind fun e => .quiet (.pure _)
  | foreignKey columns clause =>
    refine (Evolves.mapM_of (S := fun _ _ => True)
      (R := fun c source => ∀ id ∈ source.2, own (c.column id).table) (fun P ident _ => ?_)
      columns P fun _ _ _ _ => trivial).bind fun sources => ?_
    · apply (tableColumn?_evolves table ident).bind
      intro column
      exact .pure fun c h id hid => (h.2 id hid).owner ▸ hown
    · exact (foreignKey_evolves (fun c h => h.2) clause).bind fun _ => .quiet (.pure _)

/-! ### New columns and tables -/

/-- The column that a definition adds to the catalog, once its type is known. -/
def definedColumn (table : TableId) (d : ColumnDef) (type : Option SqlType) : Column :=
  d.constraints.foldl (fun column c => applyRule column c.rule)
    (Column.plain d.name.name type table)

theorem applyRules_spec (constraints : List ColumnConstraint) (column : Column) :
    let ruled := constraints.foldl (fun column c => applyRule column c.rule) column
    ruled.name = column.name ∧ ruled.type = column.type ∧
      ruled.references = column.references := by
  induction constraints generalizing column with
  | nil => exact ⟨rfl, rfl, rfl⟩
  | cons k ks ih =>
    have hrule : (applyRule column k.rule).name = column.name ∧
        (applyRule column k.rule).type = column.type ∧
        (applyRule column k.rule).references = column.references := by
      cases k.rule <;> exact ⟨rfl, rfl, rfl⟩
    obtain ⟨hname, htype, href⟩ := ih (applyRule column k.rule)
    exact ⟨hname.trans hrule.1, htype.trans hrule.2.1, href.trans hrule.2.2⟩

section

variable (table : TableId) (d : ColumnDef) (type : Option SqlType)

theorem definedColumn_name : (definedColumn table d type).name = d.name.name :=
  (applyRules_spec _ _).1

theorem definedColumn_type : (definedColumn table d type).type = type :=
  (applyRules_spec _ _).2.1

theorem definedColumn_references : (definedColumn table d type).references = none :=
  (applyRules_spec _ _).2.2

end

theorem defineColumn_run (table : TableId) (d : ColumnDef) (s : ResolverState) :
    ∃ type, ((defineColumn table d).run s).2.catalog =
        (s.catalog.addColumn table (definedColumn table d type)).2 ∧
      ((defineColumn table d).run s).1 =
        ({ d with type := type,
                  binding := some (s.catalog.addColumn table (definedColumn table d type)).1 },
          (s.catalog.addColumn table (definedColumn table d type)).1) := by
  refine ⟨((declaredType? d.typeName).run s).1, ?_⟩
  have hquiet : ((declaredType? d.typeName).run s).2.catalog = s.catalog :=
    declaredType?_quiet d.typeName s
  rw [← hquiet]
  exact ⟨rfl, rfl⟩

theorem defineColumn_evolvesAt {table : TableId} (d : ColumnDef) {s : ResolverState}
    (hown : own table) (htable : s.catalog.HasTable table)
    (hfree : s.catalog.findColumns table d.name.name = []) :
    EvolvesAt own s (defineColumn table d) fun c result =>
      ∀ id ∈ result.1.binding, IsColumnOf table c id := by
  obtain ⟨type, hcatalog, hresult⟩ := defineColumn_run table d s
  constructor
  · rw [hcatalog]
    rw [← definedColumn_name table d type] at hfree
    exact .single (.addColumn hown htable (definedColumn_references _ _ _) (.inr hfree))
  · intro c hc id hid
    rw [hcatalog] at hc
    rw [hresult] at hid
    obtain rfl := Option.mem_some_iff.mp hid
    refine IsColumnOf.of_edits ⟨hasColumn_addColumn _ _ _, ?_⟩ hc
    rw [column_addColumn_new]

/-- The columns of a table have names that were seen. -/
def AllSeen (table : TableId) (seen : List String) (c : Catalog) : Prop :=
  ∀ id ∈ (c.table table).columns, Text.foldCase (c.column id).name ∈ seen

theorem AllSeen.findColumns {table : TableId} {seen : List String} {c : Catalog}
    (h : AllSeen table seen c) {name : String} (hname : Text.foldCase name ∉ seen) :
    c.findColumns table name = [] := by
  unfold Catalog.findColumns
  rw [List.filter_eq_nil_iff]
  intro id hid hsame
  rw [Text.sameName_iff] at hsame
  exact hname (hsame ▸ h id hid)

theorem AllSeen.addColumn {table : TableId} {seen : List String} {c : Catalog}
    (h : AllSeen table seen c) (hc : c.Indexed) (htable : c.HasTable table) (column : Column) :
    AllSeen table (Text.foldCase column.name :: seen) (c.addColumn table column).2 := by
  intro id hid
  rw [c.columns_addColumn htable] at hid
  rcases List.mem_append.mp hid with hold | hlast
  · rw [c.column_addColumn_of_lt table column (hc.owner_of_mem hold).1]
    exact List.mem_cons_of_mem _ (h id hold)
  · rw [List.mem_singleton.mp hlast, column_addColumn_new]
    exact List.mem_cons_self

/-- The name of a column that is defined is one more that was seen. -/
theorem AllSeen.defineColumn {table : TableId} {seen : List String} {s : ResolverState}
    (h : AllSeen table seen s.catalog) (hs : s.catalog.Indexed) (htable : s.catalog.HasTable table)
    (d : ColumnDef) :
    AllSeen table (Text.foldCase d.name.name :: seen) ((defineColumn table d).run s).2.catalog := by
  obtain ⟨type, hcatalog, -⟩ := defineColumn_run table d s
  have hadded := h.addColumn hs htable (definedColumn table d type)
  rw [definedColumn_name] at hadded
  rw [hcatalog]
  exact hadded

/-- A table that was just added has no columns. -/
theorem allSeen_addTable (c : Catalog) (name : String) :
    AllSeen (c.addTable name .created).1 [] (c.addTable name .created).2 := by
  have hnew := c.table?_addTable name .created (c.addTable name .created).1
  rw [if_pos rfl] at hnew
  intro id hid
  rw [table_eq_of_table? hnew] at hid
  exact absurd hid List.not_mem_nil

/-- No column of a new table takes a name that another one has. -/
theorem defineColumns_evolvesAt {table : TableId} (hown : own table) (ds : List ColumnDef) :
    ∀ (seen : List String) (s : ResolverState), s.catalog.Editable own →
      s.catalog.HasTable table → AllSeen table seen s.catalog →
      (∀ d ∈ ds, ∀ id ∈ d.binding, ∀ c : Catalog, own (c.column id).table) →
      EvolvesAt own s (defineColumns table seen ds) fun c ds =>
        ∀ d ∈ ds, ∀ id ∈ d.binding, own (c.column id).table := by
  induction ds with
  | nil => exact fun _ _ _ _ _ _ => ⟨.refl, fun _ _ _ hd => absurd hd List.not_mem_nil⟩
  | cons d ds ih =>
    intro seen s hs htable hseen hbound
    obtain ⟨hd, hds⟩ := List.forall_mem_cons.mp hbound
    rw [defineColumns]
    dsimp only
    split
    · -- A second column of the same name is left as it is.
      have hrest := ih seen ((error s!"duplicate column name {d.name.name}" d.name.span).run s).2
        hs htable hseen hds
      exact ⟨hrest.edits, fun c hc => List.forall_mem_cons.mpr
        ⟨fun id hid => hd id hid c, hrest.good c hc⟩⟩
    · next hnew =>
      have hfree : s.catalog.findColumns table d.name.name = [] :=
        hseen.findColumns (by simpa using hnew)
      have hcolumn := defineColumn_evolvesAt d hown htable hfree
      have hrest := ih (Text.foldCase d.name.name :: seen) ((defineColumn table d).run s).2
        (hs.of_edits hcolumn.edits) (hcolumn.edits.preserves.hasTable htable)
        (hseen.defineColumn hs.indexed htable d) hds
      refine ⟨hcolumn.edits.trans hrest.edits, fun c hc => List.forall_mem_cons.mpr ⟨?_, ?_⟩⟩
      · intro id hid
        exact (hcolumn.good c (hrest.edits.trans hc) id hid).owner ▸ hown
      · exact hrest.good c hc

/-- A new table is created where no other table has the name, and its rules concern
no other table. -/
theorem createTable_evolvesAt (t : CreateTable) {s : ResolverState} (hs : s.catalog.Editable own)
    (hnames : own.names)
    (hbound : ∀ d ∈ t.columns, ∀ id ∈ d.binding, ∀ c : Catalog, own (c.column id).table) :
    EvolvesAt own s (createTable t) fun _ _ => True := by
  unfold createTable
  apply EvolvesAt.view
  split
  · split <;> exact ⟨.refl, fun _ _ => trivial⟩
  · next hfree =>
    have hfree : s.catalog.findTables t.name.name = [] := by simpa using hfree
    generalize htable : (s.catalog.addTable t.name.name .created).1 = table
    have hown : own table := hs.fresh table (by rw [← htable]; exact Nat.lt_irrefl _)
    have hadd : EvolvesAt own s (addTable t.name.name .created) fun _ _ => True :=
      ⟨.single (.addTable hnames hfree), fun _ _ => trivial⟩
    have hhas : (s.catalog.addTable t.name.name .created).2.HasTable table :=
      htable ▸ hasTable_addTable _ _ _
    have hid : ((addTable t.name.name .created).run s).1 = table := htable
    refine hadd.bind ?_
    rw [hid]
    have hstart := hs.of_edits hadd.edits
    have hnone : AllSeen table [] (s.catalog.addTable t.name.name .created).2 :=
      htable ▸ allSeen_addTable _ _
    have hcolumns := defineColumns_evolvesAt hown t.columns [] _ hstart hhas hnone hbound
    refine hcolumns.bind ?_
    generalize hdefined : ((defineColumns table [] t.columns).run
      ((addTable t.name.name .created).run s).2).1 = columns at hcolumns
    refine Evolves.bind (P := fun c => ∀ d ∈ columns, ∀ id ∈ d.binding, own (c.column id).table)
      (Evolves.forM_of (S := fun _ _ => True) (fun P k _ => markPrimaryKey_evolves hown k.rule)
        t.constraints _ fun _ _ _ _ => trivial) (fun _ => ?_) _ (hstart.of_edits hcolumns.edits)
      fun c hc => hdefined ▸ hcolumns.good c hc
    apply (Evolves.quiet (.bindTable _ _)).bind
    intro _
    refine (Evolves.mapM_of (S := fun c d => ∀ id ∈ d.binding, own (c.column id).table)
      (R := fun _ _ => True) (fun P d hd => columnRules_evolves hd) columns _
      fun c h => h.1.1).bind fun columns => ?_
    refine (mapM_evolves (fun P k => ?_) t.constraints).bind fun constraints => .quiet (.pure _)
    exact (tableRule_evolves hown k.rule).bind fun rule => .quiet (.pure _)

/-! ### Changed tables -/

theorem alterAction_evolvesAt {table : TableId} (action : AlterAction) {s : ResolverState}
    (hs : s.catalog.Editable own) (hnames : own.names) (hown : own table)
    (hlive : s.catalog.IsLive table) :
    EvolvesAt own s (alterAction table action) fun _ _ => True := by
  cases action with
  | addColumn d =>
    rw [alterAction]
    apply EvolvesAt.view
    split
    · exact ⟨.refl, fun _ _ => trivial⟩
    · next hfree =>
      have hcolumn := defineColumn_evolvesAt d hown hlive.hasTable (by simpa using hfree)
      refine hcolumn.bind (Evolves.bind (P := fun c =>
        ∀ id ∈ ((defineColumn table d).run s).1.1.binding, IsColumnOf table c id)
        (.quiet (.modifyFrame _)) (fun _ => ?_) _ (hs.of_edits hcolumn.edits) hcolumn.good)
      refine (columnRules_evolves fun c h id hid => ?_).bind fun d => .quiet (.pure _)
      exact (h.1 id hid).owner ▸ hown
  | dropColumn ident =>
    refine (tableColumn?_evolves (P := fun _ => True) table ident).bind (fun column => ?_) s hs
      fun _ _ => trivial
    split
    · next id =>
      refine (Evolves.modifyCatalog fun c _ h => .single (.removeColumn ?_)).bind
        fun _ => .quiet (.pure _)
      rwa [(h.2 id rfl).owner]
    · exact .quiet (.pure _)
  | renameColumn ident newName =>
    rcases tableColumn?_run table ident s with ⟨id, hfound, hrun⟩ | ⟨hnone, -⟩
    · have hmem : id ∈ s.catalog.findColumns table ident.name := by simp [hfound]
      have howner := (hs.indexed.owner_of_mem (List.mem_filter.mp hmem).1).2
      have hfind : EvolvesAt own s (tableColumn? table ident) fun _ _ => True :=
        ⟨by rw [hrun], fun _ _ => trivial⟩
      refine hfind.bind ?_
      rw [hrun]
      apply EvolvesAt.view
      split
      · exact ⟨.refl, fun _ _ => trivial⟩
      · next hfree =>
        refine ⟨.single (.renameColumn (howner ▸ hown) ?_), fun _ _ => trivial⟩
        rw [howner]
        simpa using hfree
    · have hfind : EvolvesAt own s (tableColumn? table ident) fun _ _ => True :=
        Evolves.quiet (P := fun _ => True) (tableColumn?_quiet table ident) s hs fun _ _ => trivial
      refine hfind.bind ?_
      rw [hnone]
      exact ⟨.refl, fun _ _ => trivial⟩
  | renameTo newName =>
    rw [alterAction]
    apply EvolvesAt.view
    split
    · exact ⟨.refl, fun _ _ => trivial⟩
    · next hfree =>
      exact ⟨.single (.renameTable hnames hown hlive (by simpa using hfree)), fun _ _ => trivial⟩

/-- The table that a statement is about can be found by its name. -/
theorem target?_evolvesAt (name : Ident) {s : ResolverState} (hs : s.catalog.Editable own) :
    EvolvesAt own s (target? name) (fun _ _ => True) ∧
      ∀ id ∈ ((target? name).run s).1, id ∈ s.catalog.findTables name.name := by
  refine ⟨Evolves.quiet (P := fun _ => True) (target?_quiet name) s hs fun _ _ => trivial, ?_⟩
  intro id hid
  rcases catalogTable?_run name s with ⟨found, hfound, hrun⟩ | ⟨hnone, -⟩
  · have htarget : ((target? name).run s).1 = some found := by
      unfold target?
      rw [run_bind, hrun]
      rfl
    rw [htarget] at hid
    rw [hfound, Option.mem_some_iff.mp hid]
    exact List.mem_singleton_self _
  · have htarget : ((target? name).run s).1 = none := by
      unfold target?
      rw [run_bind, hnone]
      rfl
    rw [htarget] at hid
    cases hid

theorem alterTable_evolvesAt (t : AlterTable) {s : ResolverState} (hs : s.catalog.Editable own)
    (hnames : own.names) (hown : ∀ id ∈ s.catalog.findTables t.table.name, own id) :
    EvolvesAt own s (alterTable t) fun _ _ => True := by
  obtain ⟨htarget, hfound⟩ := target?_evolvesAt t.table hs
  have hcatalog : ((target? t.table).run s).2.catalog = s.catalog := target?_quiet t.table s
  refine htarget.bind ?_
  generalize ((target? t.table).run s).1 = table? at hfound
  cases table? with
  | none => exact ⟨.refl, fun _ _ => trivial⟩
  | some table =>
    have hmem := hfound table rfl
    have haction := alterAction_evolvesAt t.action (hcatalog ▸ hs) hnames (hown table hmem)
      (hcatalog ▸ hs.indexed.isLive_of_findTables hmem)
    exact ⟨haction.edits, fun _ _ => trivial⟩

theorem dropTable_evolvesAt (t : DropTable) {s : ResolverState} (hs : s.catalog.Editable own)
    (hnames : own.names) (hown : ∀ id ∈ s.catalog.findTables t.table.name, own id) :
    EvolvesAt own s (dropTable t) fun _ _ => True := by
  unfold dropTable
  apply EvolvesAt.view
  split
  · exact ⟨.refl, fun _ _ => trivial⟩
  · rcases catalogTable?_run t.table s with ⟨id, hfound, hrun⟩ | ⟨hnone, -⟩
    · have hmem : id ∈ s.catalog.findTables t.table.name := by simp [hfound]
      have hfind : EvolvesAt own s (catalogTable? t.table) fun _ _ => True :=
        ⟨by rw [hrun], fun _ _ => trivial⟩
      refine hfind.bind ?_
      rw [hrun]
      exact ⟨.single (.dropTable hnames (hown id hmem) (hs.indexed.isLive_of_findTables hmem)),
        fun _ _ => trivial⟩
    · have hfind : EvolvesAt own s (catalogTable? t.table) fun _ _ => True :=
        Evolves.quiet (P := fun _ => True) (catalogTable?_quiet t.table) s hs fun _ _ => trivial
      refine hfind.bind ?_
      rw [hnone]
      exact ⟨.refl, fun _ _ => trivial⟩

/-! ### Statements -/

/-- A statement may edit the table it is about. No column that it defines is bound yet
to a column of another table. -/
def MayEdit (own : Rights) (c : Catalog) : StatementBody → Prop
  | .createTable t =>
    own.names ∧ ∀ d ∈ t.columns, ∀ id ∈ d.binding, ∀ c : Catalog, own (c.column id).table
  | .alterTable t => own.names ∧ ∀ id ∈ c.findTables t.table.name, own id
  | .dropTable t => own.names ∧ ∀ id ∈ c.findTables t.table.name, own id
  | _ => True

theorem statementBody_evolvesAt (body : StatementBody) {s : ResolverState}
    (hs : s.catalog.Editable own) (hown : MayEdit own s.catalog body) :
    EvolvesAt own s (statementBody body) fun _ _ => True := by
  have hrows : ∀ {β : Type} {r : Resolver β} {f : β → StatementBody} {Q : Catalog → β → Prop},
      Evolves own (fun _ => True) r Q → EvolvesAt own s (do return f (← r)) fun _ _ => True :=
    fun hr => (hr.bind fun _ => .quiet (.pure _)) _ hs fun _ _ => trivial
  cases body with
  | select b => exact hrows (f := fun result => .select result.1) (query_evolves "result" b)
  | insert b => exact hrows (f := .insert) (insert_evolves b)
  | update b => exact hrows (f := .update) (update_evolves b)
  | delete b => exact hrows (f := .delete) (delete_evolves b)
  | createTable t => exact ⟨(createTable_evolvesAt t hs hown.1 hown.2).edits, fun _ _ => trivial⟩
  | alterTable t => exact ⟨(alterTable_evolvesAt t hs hown.1 hown.2).edits, fun _ _ => trivial⟩
  | dropTable t => exact ⟨(dropTable_evolvesAt t hs hown.1 hown.2).edits, fun _ _ => trivial⟩

theorem statement_edits (statement : Statement) {s : ResolverState} (hs : s.catalog.Editable own)
    (hown : MayEdit own s.catalog statement.body) :
    Edits own s.catalog ((Resolver.statement statement).run s).2.catalog := by
  unfold Resolver.statement
  rw [run_within, leave_catalog]
  exact (statementBody_evolvesAt statement.body (s := s.enter statement.span) hs hown).edits

/-- Where all tables may be changed, every statement may do what it does. -/
theorem mayEdit_all (c : Catalog) (body : StatementBody) : MayEdit .all c body := by
  cases body <;> simp [MayEdit, Rights.all]

theorem statements_edits (statements : List Statement) :
    ∀ {s : ResolverState}, s.catalog.Indexed →
      Edits .all s.catalog ((statements.mapM Resolver.statement).run s).2.catalog := by
  induction statements with
  | nil => exact fun _ => .refl
  | cons statement statements ih =>
    intro s hs
    have hfirst := statement_edits statement (s := s) ⟨hs, fun _ _ => trivial⟩
      (mayEdit_all s.catalog statement.body)
    rw [List.mapM_cons]
    exact hfirst.trans (ih (hfirst.indexed hs))

end Resolver

namespace Resolution

theorem edits_ofStatements (index : LineIndex) {catalog : Catalog} (h : catalog.Indexed)
    (statements : List Statement) :
    Catalog.Edits .all catalog (ofStatements index catalog statements).catalog :=
  Resolver.statements_edits statements (s := .start index catalog) h

/-- Whatever statements are resolved, from nothing or from any schema, a name finds the
tables that have it, and tables and columns refer to what exists. -/
theorem coherent_ofStatements (index : LineIndex) (statements : List Statement) :
    (ofStatements index .empty statements).catalog.Coherent ∧
      ∀ descriptors, (ofStatements index (.ofDescriptors descriptors) statements).catalog.Coherent := by
  constructor
  · exact ((edits_ofStatements index .empty statements).indexed .empty).coherent
  · intro descriptors
    have hschema := Catalog.Indexed.ofDescriptors descriptors
    exact ((edits_ofStatements index hschema statements).indexed hschema).coherent

end Resolution
end SqlAnalysis
