import SqlAnalysis.Proofs.Resolution.Steadiness
import SqlAnalysis.Proofs.Syntax.Clearing

/-!
# The columns of a new table

Where the columns of a new table have different names, each of them is found in the table
under its name and with the type it is declared with. Once the table is bound, the name
stands for the column in the innermost scope, and so it stays while the rules are resolved.
-/
namespace SqlAnalysis

open Catalog

namespace Catalog

variable {c : Catalog} {table : TableId} {name : String} {type : SqlType} {column : Column}

/-- A column that is added comes after the others under its name. -/
theorem findColumns_addColumn (hc : c.Indexed) (htable : c.HasTable table) (column : Column)
    (name : String) : (c.addColumn table column).2.findColumns table name =
      c.findColumns table name ++
        [(c.addColumn table column).1].filter fun _ => Text.sameName column.name name := by
  have hold : ∀ id ∈ (c.table table).columns,
      (c.addColumn table column).2.column id = c.column id :=
    fun id hid => c.column_addColumn_of_lt table column (hc.owner_of_mem hid).1
  unfold findColumns
  rw [c.columns_addColumn htable, List.filter_append]
  refine congrArg₂ List.append ?_ ?_
  · exact List.filter_congr fun id hid => by rw [hold id hid]
  · rw [List.filter_singleton, List.filter_singleton, column_addColumn_new]

/-- A table has one column under a name, and the column has a type. -/
def Offers (c : Catalog) (table : TableId) (name : String) (type : SqlType) : Prop :=
  ∃ id, c.findColumns table name = [id] ∧ (c.column id).type = some type

namespace Offers

theorem mem_columns {id : ColumnId} (h : c.findColumns table name = [id]) :
    id ∈ (c.table table).columns := by
  have hid : id ∈ c.findColumns table name := h ▸ List.mem_singleton_self id
  exact (List.mem_filter.mp hid).1

theorem of_addColumn (hc : c.Indexed) (htable : c.HasTable table)
    (hfree : c.findColumns table column.name = []) (htype : column.type = some type) :
    (c.addColumn table column).2.Offers table column.name type := by
  refine ⟨(c.addColumn table column).1, ?_, ?_⟩
  · rw [findColumns_addColumn hc htable, hfree]
    simp [Text.sameName]
  · rw [column_addColumn_new]
    exact htype

theorem addColumn (h : c.Offers table name type) (hc : c.Indexed) (htable : c.HasTable table)
    (hname : Text.foldCase column.name ≠ Text.foldCase name) :
    (c.addColumn table column).2.Offers table name type := by
  obtain ⟨id, hid, htype⟩ := h
  have hother : Text.sameName column.name name = false := by
    rwa [← Bool.not_eq_true, Text.sameName_iff]
  refine ⟨id, ?_, ?_⟩
  · rw [findColumns_addColumn hc htable, hid, hother]
    rfl
  · rwa [c.column_addColumn_of_lt table column (hc.owner_of_mem (mem_columns hid)).1]

theorem modifyColumn (h : c.Offers table name type) (id : ColumnId) {f : Column → Column}
    (hname : ∀ entry, (f entry).name = entry.name) (htype : ∀ entry, (f entry).type = entry.type) :
    (c.modifyColumn id f).Offers table name type := by
  have hcolumn : ∀ other, ((c.modifyColumn id f).column other).name = (c.column other).name ∧
      ((c.modifyColumn id f).column other).type = (c.column other).type := by
    intro other
    rw [column, column, column?_modifyColumn]
    cases c.column? other with
    | none => exact ⟨rfl, rfl⟩
    | some entry => by_cases hid : id = other <;> simp [hid, hname, htype]
  obtain ⟨found, hfound, hfoundType⟩ := h
  refine ⟨found, ?_, (hcolumn found).2.trans hfoundType⟩
  rw [← hfound]
  exact List.filter_congr fun other _ => by rw [(hcolumn other).1]

end Offers
end Catalog

namespace Resolver

open ResolverState

variable {table : TableId} {seen : List String} {name : String} {type : SqlType}
  {s : ResolverState}

/-! ### Columns and keys -/

theorem declaredType?_run {d : ColumnDef} (h : d.writtenType? = some type) (s : ResolverState) :
    (declaredType? d.typeName).run s = (some type, s) := by
  obtain ⟨written, hwritten, hparts⟩ := Option.bind_eq_some_iff.mp h
  rw [hwritten, declaredType?]
  cases hresult : SqlType.ofParts written.name written.params with
  | error e =>
    rw [hresult] at hparts
    cases hparts
  | ok t =>
    rw [hresult] at hparts
    cases hparts
    rfl

/-- A table that exists, of whose columns the names were seen. -/
structure Unfinished (table : TableId) (seen : List String) (c : Catalog) : Prop where
  indexed : c.Indexed
  hasTable : c.HasTable table
  allSeen : AllSeen table seen c

theorem Unfinished.defineColumn (h : Unfinished table seen s.catalog) (d : ColumnDef) :
    Unfinished table (Text.foldCase d.name.name :: seen)
      ((defineColumn table d).run s).2.catalog := by
  obtain ⟨written, hcatalog, -⟩ := defineColumn_run table d s
  refine ⟨?_, ?_, h.allSeen.defineColumn h.indexed h.hasTable d⟩ <;> rw [hcatalog]
  · exact h.indexed.addColumn table (definedColumn_references table d written)
  · exact (Preserves.addColumn _ _ _).hasTable h.hasTable

/-- The other columns that are defined leave a column alone. -/
theorem defineColumns_keepsOffers (ds : List ColumnDef) :
    ∀ {seen s}, Unfinished table seen s.catalog →
      (∀ d ∈ ds, Text.foldCase d.name.name ≠ Text.foldCase name) →
      s.catalog.Offers table name type →
      ((defineColumns table seen ds).run s).2.catalog.Offers table name type := by
  induction ds with
  | nil => exact fun _ _ h => h
  | cons d ds ih =>
    intro seen s hs hnames hoffers
    obtain ⟨hd, hds⟩ := List.forall_mem_cons.mp hnames
    rw [defineColumns]
    dsimp only
    split
    · exact @ih seen ((error s!"duplicate column name {d.name.name}" d.name.span).run s).2
        hs hds hoffers
    · have hkept : ((defineColumn table d).run s).2.catalog.Offers table name type := by
        obtain ⟨written, hcatalog, -⟩ := defineColumn_run table d s
        rw [hcatalog]
        refine hoffers.addColumn hs.indexed hs.hasTable ?_
        rwa [definedColumn_name]
      exact ih (hs.defineColumn d) hds hkept

theorem defineColumn_offers (hs : Unfinished table seen s.catalog) {d : ColumnDef}
    (hnew : Text.foldCase d.name.name ∉ seen) (htype : d.writtenType? = some type) :
    ((defineColumn table d).run s).2.catalog.Offers table d.name.name type := by
  have hcatalog : ((defineColumn table d).run s).2.catalog =
      (s.catalog.addColumn table (definedColumn table d (some type))).2 := by
    unfold defineColumn
    rw [run_bind, declaredType?_run htype]
    rfl
  rw [hcatalog, ← definedColumn_name table d (some type)]
  refine .of_addColumn hs.indexed hs.hasTable ?_ (definedColumn_type table d _)
  rw [definedColumn_name]
  exact hs.allSeen.findColumns hnew

/-- Each column is found under its name, if no other one has it. -/
theorem defineColumns_offers (ds : List ColumnDef) :
    ∀ {seen s}, Unfinished table seen s.catalog →
      (ds.map fun d => Text.foldCase d.name.name).Nodup →
      (∀ d ∈ ds, Text.foldCase d.name.name ∉ seen) →
      ∀ d ∈ ds, d.writtenType? = some type →
        ((defineColumns table seen ds).run s).2.catalog.Offers table d.name.name type := by
  induction ds with
  | nil => exact fun _ _ _ d hd => absurd hd List.not_mem_nil
  | cons first ds ih =>
    intro seen s hs hnodup hseen d hd htype
    obtain ⟨hfirst, hnodup⟩ := List.nodup_cons.mp hnodup
    obtain ⟨hnew, hseen⟩ := List.forall_mem_cons.mp hseen
    have hother : ∀ other ∈ ds, Text.foldCase other.name.name ≠ Text.foldCase first.name.name :=
      fun other hmem heq => hfirst (List.mem_map.mpr ⟨other, hmem, heq⟩)
    rw [defineColumns]
    dsimp only
    rw [if_neg (by simpa using hnew)]
    rcases List.mem_cons.mp hd with rfl | hd
    · have hoffers := defineColumn_offers hs hnew htype
      exact defineColumns_keepsOffers ds (hs.defineColumn d) hother hoffers
    · have hseen : ∀ other ∈ ds, Text.foldCase other.name.name ∉
          Text.foldCase first.name.name :: seen :=
        fun other hmem => List.not_mem_cons_of_ne_of_not_mem (hother other hmem) (hseen other hmem)
      exact ih (hs.defineColumn first) hnodup hseen d hd htype

/-- Keys that are given for the whole table change nothing else about its columns. -/
theorem markPrimaryKey_keepsOffers (rule : TableRule) (h : s.catalog.Offers table name type) :
    ((markPrimaryKey table rule).run s).2.catalog.Offers table name type := by
  unfold markPrimaryKey
  split
  · next columns =>
    refine forM_keeps (K := fun s => s.catalog.Offers table name type) (fun ident s h => ?_)
      columns h
    rw [run_bind]
    rcases tableColumn?_run table ident s with ⟨id, -, hrun⟩ | ⟨hnone, -⟩
    · rw [hrun]
      exact h.modifyColumn id (fun _ => rfl) fun _ => rfl
    · have hcatalog := tableColumn?_quiet table ident s
      rw [hnone]
      rw [← hcatalog] at h
      exact h
  · exact h

end Resolver

/-! ### Bound columns -/

namespace Scope

variable {name : String} {scope : Scope} {id : ColumnId} {f : ColumnId → String}

/-- A column that is bound comes after the others that its name stands for. -/
theorem columnsNamed_bindColumn (hnew : id ∉ scope.columnsNamed name) :
    (scope.bindColumn (f id) id).columnsNamed name =
      scope.columnsNamed name ++ [id].filter fun id => Text.sameName (f id) name := by
  unfold columnsNamed symbol? at hnew ⊢
  unfold bindColumn
  rw [lookup_update]
  by_cases hname : Text.foldCase name = Text.foldCase (f id)
  · have hsame : Text.sameName (f id) name = true := (Text.sameName_iff _ _).mpr hname.symm
    rw [if_pos hname, ← hname, Symbol.addColumn, if_neg (by simpa using hnew)]
    simp [hsame]
  · have hother : Text.sameName (f id) name = false := by
      rw [← Bool.not_eq_true, Text.sameName_iff]
      exact Ne.symm hname
    rw [if_neg hname]
    simp [hother]

theorem columnsNamed_bindAll {ids : List ColumnId} (hnodup : ids.Nodup)
    (hnew : ∀ id ∈ ids, id ∉ scope.columnsNamed name) :
    (ids.foldl (fun scope id => scope.bindColumn (f id) id) scope).columnsNamed name =
      scope.columnsNamed name ++ ids.filter fun id => Text.sameName (f id) name := by
  induction ids generalizing scope with
  | nil => simp
  | cons id ids ih =>
    obtain ⟨hid, hnodup⟩ := List.nodup_cons.mp hnodup
    obtain ⟨hfirst, hrest⟩ := List.forall_mem_cons.mp hnew
    have hbound := columnsNamed_bindColumn (f := f) hfirst
    have hrest : ∀ other ∈ ids, other ∉ (scope.bindColumn (f id) id).columnsNamed name := by
      intro other hmem hbad
      rw [hbound, List.mem_append] at hbad
      rcases hbad with hold | hlast
      · exact hrest other hmem hold
      · exact hid (List.mem_singleton.mp (List.mem_filter.mp hlast).1 ▸ hmem)
    rw [List.foldl_cons, ih hnodup hrest, hbound, List.append_assoc, ← List.filter_append]
    rfl

end Scope

namespace ResolverState

variable {s : ResolverState} {table : TableId} {name : String} {type : SqlType}

/-- In the innermost scope the name stands for one column, and the column has the type. -/
structure Means (s : ResolverState) (name : String) (type : SqlType) : Prop where
  indexed : s.catalog.Indexed
  column : ∃ id, s.innermost.columnsNamed name = [id] ∧ s.catalog.HasColumn id ∧
    (s.catalog.column id).type = some type

/-- The names of the columns of a table that is bound stand for what is found there. -/
theorem Means.of_bindTable (hs : s.catalog.Indexed) (visible : String)
    (hnone : s.innermost.columnsNamed name = []) (h : s.catalog.Offers table name type) :
    (s.bindTable visible table).Means name type := by
  obtain ⟨id, hid, htype⟩ := h
  have hcatalog := bindTable_catalog s visible table
  refine ⟨hcatalog ▸ hs, id, ?_, ?_⟩
  · have hnew : (s.innermost.bindTable visible table).columnsNamed name = [] := by
      rw [Scope.columnsNamed_bindTable, hnone]
    have hall := Scope.columnsNamed_bindAll (f := fun id => (s.catalog.column id).name)
      (hs.table_columns_nodup table) fun id _ => hnew ▸ List.not_mem_nil
    rw [hnew, List.nil_append] at hall
    have hscope : (s.bindTable visible table).innermost =
        (s.catalog.table table).columns.foldl
          (fun scope id => scope.bindColumn (s.catalog.column id).name id)
          (s.innermost.bindTable visible table) := by
      unfold ResolverState.bindTable bindColumns
      rw [innermost_modifyFrame, modifyFrame_catalog]
      exact congrArg (List.foldl _ · _) (innermost_modifyFrame s _)
    rw [hscope, hall]
    exact hid
  · rw [hcatalog]
    exact ⟨(hs.owner_of_mem (Offers.mem_columns hid)).1, htype⟩

theorem Means.congr {name' : String} (h : s.Means name type)
    (hname : Text.foldCase name' = Text.foldCase name) : s.Means name' type := by
  obtain ⟨id, hid, hrest⟩ := h.column
  exact ⟨h.indexed, id, by rw [Scope.columnsNamed_eq hname, hid], hrest⟩

/-- What leaves the innermost scope alone, and the columns that exist, keeps the meaning. -/
theorem Means.of_run {α : Type} {r : Resolver α} {Q : Catalog → α → Prop} (h : s.Means name type)
    (hsteady : Resolver.Steady r) (hevolves : Resolver.Evolves .all (fun _ => True) r Q) :
    (r.run s).2.Means name type := by
  have hedits := (hevolves s ⟨h.indexed, fun _ _ => trivial⟩ fun _ _ => trivial).edits
  obtain ⟨id, hid, hhas, htype⟩ := h.column
  refine ⟨hedits.indexed h.indexed, id, by rw [hsteady s, hid], hedits.preserves.hasColumn hhas, ?_⟩
  rw [hedits.preserves.type_eq hhas, htype]

end ResolverState

namespace Resolver

open ResolverState

variable {s : ResolverState}

/-! ### New tables -/

/-- The state in which the rules of a new table are looked at, with the number of the table
and its columns. -/
def startTable (t : CreateTable) : Resolver (TableId × List ColumnDef) := do
  let table ← addTable t.name.name .created
  let columns ← defineColumns table [] t.columns
  t.constraints.forM fun c => markPrimaryKey table c.rule
  modify fun state => state.bindTable t.name.name table
  return (table, columns)

/-- The rules of a new table, those of its columns before its own. -/
def finishTable (t : CreateTable) (started : TableId × List ColumnDef) : Resolver CreateTable := do
  let columns ← started.2.mapM columnRules
  let constraints ← t.constraints.mapM fun c => do
    return { c with rule := ← tableRule started.1 c.rule }
  return { t with columns := columns, constraints := constraints, binding := some started.1 }

theorem createTable_startTable (t : CreateTable)
    (hfree : s.catalog.findTables t.name.name = []) :
    (createTable t).run s = (startTable t >>= finishTable t).run s := by
  unfold createTable
  rw [run_catalog_bind, hfree]
  rfl

/-- While the rules are looked at, the name of each column stands for it. -/
theorem startTable_means {t : CreateTable} (hs : s.catalog.Indexed)
    (hscope : ∀ name, s.innermost.columnsNamed name = [])
    (hnodup : (t.columns.map fun d => Text.foldCase d.name.name).Nodup) {d : ColumnDef}
    (hd : d ∈ t.columns) {type : SqlType} (htype : d.writtenType? = some type) :
    ((startTable t).run s).2.Means d.name.name type := by
  generalize hadded : (addTable t.name.name .created).run s = added
  have hstart : Unfinished added.1 [] added.2.catalog :=
    hadded ▸ ⟨hs.addTable _ _, hasTable_addTable _ _ _, allSeen_addTable _ _⟩
  have hdefined : EvolvesAt .all added.2 (defineColumns added.1 [] t.columns) fun _ _ => True :=
    ⟨(defineColumns_evolvesAt trivial t.columns [] added.2 ⟨hstart.indexed, fun _ _ => trivial⟩
      hstart.hasTable hstart.allSeen fun _ _ _ _ _ => trivial).edits, fun _ _ => trivial⟩
  have hoffers := defineColumns_offers t.columns hstart hnodup (fun _ _ => List.not_mem_nil) d hd
    htype
  generalize hcolumns : (defineColumns added.1 [] t.columns).run added.2 = defined at hoffers
  have hindexed : defined.2.catalog.Indexed :=
    hcolumns ▸ hdefined.edits.indexed hstart.indexed
  generalize hkeys : ((t.constraints.forM fun c => markPrimaryKey added.1 c.rule).run
    defined.2).2 = marked
  have hstep : ∀ (c : TableConstraint) (s : ResolverState),
      s.catalog.Indexed ∧ s.catalog.Offers added.1 d.name.name type →
      ((markPrimaryKey added.1 c.rule).run s).2.catalog.Indexed ∧
        ((markPrimaryKey added.1 c.rule).run s).2.catalog.Offers added.1 d.name.name type := by
    intro c s h
    have hevolves : Evolves .all (fun _ => True) (markPrimaryKey added.1 c.rule) fun _ _ => True :=
      markPrimaryKey_evolves trivial c.rule
    have hedits := (hevolves s ⟨h.1, fun _ _ => trivial⟩ fun _ _ => trivial).edits
    exact ⟨hedits.indexed h.1, markPrimaryKey_keepsOffers c.rule h.2⟩
  have hmarked : marked.catalog.Indexed ∧ marked.catalog.Offers added.1 d.name.name type :=
    hkeys ▸ forM_keeps hstep t.constraints ⟨hindexed, hoffers⟩
  have hinnermost : marked.innermost = s.innermost := by
    have hsteady := Steady.forM t.constraints fun c => markPrimaryKey_steady added.1 c.rule
    rw [← hkeys, hsteady defined.2, ← hcolumns, defineColumns_steady, ← hadded]
    rfl
  have hrun : ((startTable t).run s).2 = marked.bindTable t.name.name added.1 := by
    rw [← hkeys, ← hcolumns, ← hadded]
    rfl
  rw [hrun]
  exact .of_bindTable hmarked.1 _ (hinnermost ▸ hscope _) hmarked.2

end Resolver
end SqlAnalysis
