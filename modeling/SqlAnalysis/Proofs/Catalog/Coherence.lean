import Mathlib.Data.List.Nodup
import SqlAnalysis.Proofs.Catalog.Growth

/-!
# Coherent catalogs

The names of a catalog are kept beside its tables, and the columns of a table
beside the columns. Each operation keeps the two in step, so that look-ups by name
find exactly the tables that have the name, and a table lists its own columns.
-/
namespace SqlAnalysis

/-- A table with this record can be found by its name. -/
structure Table.IsLive (t : Table) : Prop where
  present : t.dropped = false
  named : t.origin ≠ .derived

namespace Catalog

/-- The table exists and can be found by its name. -/
def IsLive (c : Catalog) (id : TableId) : Prop :=
  ∃ t, c.table? id = some t ∧ t.IsLive

theorem IsLive.hasTable {c : Catalog} {id : TableId} (h : c.IsLive id) : c.HasTable id := by
  obtain ⟨t, ht, -⟩ := h
  exact lt_of_table? ht

/-- The index of names, the tables and the columns of a catalog agree. -/
structure Indexed (c : Catalog) : Prop where
  named : ∀ entry, entry ∈ c.named ↔
    ∃ t, c.table? entry.2 = some t ∧ t.IsLive ∧ entry.1 = Text.foldCase t.name
  nodup : c.named.Nodup
  columnsNodup : ∀ id t, c.table? id = some t → t.columns.Nodup
  owner : ∀ id t, c.table? id = some t → ∀ column ∈ t.columns,
    ∃ entry, c.column? column = some entry ∧ entry.table = id
  references : ∀ id entry, c.column? id = some entry →
    ∀ target ∈ entry.references, c.HasColumn target

/-- What look-ups say about a catalog whose names, tables and columns agree. -/
structure Coherent (c : Catalog) : Prop where
  findTablesNodup : ∀ name, (c.findTables name).Nodup
  /-- A name finds the tables that have it, up to case, and no others. -/
  findTables : ∀ name id, id ∈ c.findTables name ↔
    c.IsLive id ∧ Text.sameName (c.table id).name name = true
  /-- All names of such tables are listed, each as often as there are tables. -/
  tableNames : ∃ ids : List TableId, ids.Nodup ∧ (∀ id, id ∈ ids ↔ c.IsLive id) ∧
    c.tableNames.Perm (ids.map fun id => (c.table id).name)
  columnsNodup : ∀ id, (c.table id).columns.Nodup
  owner : ∀ id, ∀ column ∈ (c.table id).columns,
    c.HasColumn column ∧ (c.column column).table = id
  references : ∀ id, c.HasColumn id → ∀ target ∈ (c.column id).references, c.HasColumn target

variable {c : Catalog}

/-! ### What agreement means for look-ups -/

theorem mem_findTables {name : String} {id : TableId} :
    id ∈ c.findTables name ↔ (Text.foldCase name, id) ∈ c.named := by
  constructor
  · intro h
    obtain ⟨⟨key, _⟩, hentry, rfl⟩ := List.mem_map.mp h
    obtain ⟨hmem, hkey⟩ := List.mem_filter.mp hentry
    have hfold : key = Text.foldCase name := by simpa using hkey
    exact hfold ▸ hmem
  · intro h
    exact List.mem_map.mpr ⟨_, List.mem_filter.mpr ⟨h, by simp⟩, rfl⟩

theorem mem_of_singleColumn? {table : TableId} {name : String} {id : ColumnId}
    (h : c.singleColumn? table name = some id) : id ∈ (c.table table).columns := by
  unfold singleColumn? at h
  split at h
  · next only honly =>
    obtain rfl := Option.some.inj h
    have hfound : only ∈ c.findColumns table name := by simp [honly]
    exact (List.mem_filter.mp hfound).1
  · cases h

theorem mem_of_keyTarget? {key : ForeignKeyDescriptor} {id : ColumnId}
    (h : c.keyTarget? key = some id) : ∃ table, id ∈ (c.table table).columns := by
  unfold keyTarget? at h
  obtain ⟨table, -, htarget⟩ := Option.bind_eq_some_iff.mp h
  split at htarget
  · exact ⟨table, mem_of_singleColumn? htarget⟩
  · exact ⟨table, List.mem_of_find?_eq_some htarget⟩

namespace Indexed

theorem mem_findTables_iff (h : c.Indexed) {name : String} {id : TableId} :
    id ∈ c.findTables name ↔ c.IsLive id ∧ Text.sameName (c.table id).name name = true := by
  rw [mem_findTables, h.named]
  constructor
  · rintro ⟨t, ht, hlive, hname⟩
    rw [table_eq_of_table? ht]
    exact ⟨⟨t, ht, hlive⟩, (Text.sameName_iff _ _).mpr hname.symm⟩
  · rintro ⟨⟨t, ht, hlive⟩, hname⟩
    rw [table_eq_of_table? ht] at hname
    exact ⟨t, ht, hlive, ((Text.sameName_iff _ _).mp hname).symm⟩

theorem isLive_of_findTables (h : c.Indexed) {name : String} {id : TableId}
    (hid : id ∈ c.findTables name) : c.IsLive id :=
  (h.mem_findTables_iff.mp hid).1

theorem findTables_nodup (h : c.Indexed) (name : String) : (c.findTables name).Nodup := by
  refine (h.nodup.filter _).map_on ?_
  rintro ⟨key, id⟩ hx ⟨key', id'⟩ hy rfl
  have hkey : key = Text.foldCase name := by simpa using (List.mem_filter.mp hx).2
  have hkey' : key' = Text.foldCase name := by simpa using (List.mem_filter.mp hy).2
  rw [hkey, hkey']

/-- A table has columns only if it exists. -/
theorem table_cases (c : Catalog) (id : TableId) :
    (∃ t, c.table? id = some t ∧ c.table id = t) ∨ (c.table id).columns = [] := by
  cases ht : c.table? id with
  | none => exact .inr (by simp [table, ht]; rfl)
  | some t => exact .inl ⟨t, rfl, table_eq_of_table? ht⟩

theorem table_columns_nodup (h : c.Indexed) (id : TableId) : (c.table id).columns.Nodup := by
  rcases table_cases c id with ⟨t, ht, heq⟩ | hnil
  · rw [heq]
    exact h.columnsNodup id t ht
  · simp [hnil]

theorem owner_of_mem (h : c.Indexed) {id : TableId} {column : ColumnId}
    (hcolumn : column ∈ (c.table id).columns) :
    c.HasColumn column ∧ (c.column column).table = id := by
  rcases table_cases c id with ⟨t, ht, heq⟩ | hnil
  · rw [heq] at hcolumn
    obtain ⟨entry, hentry, howner⟩ := h.owner id t ht column hcolumn
    exact ⟨lt_of_column? hentry, by rw [column_eq_of_column? hentry, howner]⟩
  · simp [hnil] at hcolumn

theorem coherent (h : c.Indexed) : c.Coherent where
  findTablesNodup := h.findTables_nodup
  findTables _ _ := h.mem_findTables_iff
  tableNames := by
    refine ⟨((List.range c.tables.length).map TableId.mk).filter fun id =>
      !(c.table id).dropped && (c.table id).origin ≠ .derived, ?_, fun id => ?_, ?_⟩
    · refine List.Nodup.filter _ (List.nodup_range.map ?_)
      intro i j hij
      exact TableId.mk.inj hij
    · obtain ⟨i⟩ := id
      have hexists : (⟨i⟩ : TableId) ∈ (List.range c.tables.length).map TableId.mk ↔
          i < c.tables.length := by simp
      rw [List.mem_filter, hexists]
      constructor
      · rintro ⟨hlt, hlive⟩
        refine ⟨_, @table?_of_lt _ ⟨i⟩ hlt, ?_⟩
        constructor <;> simp_all
      · rintro ⟨t, ht, hlive⟩
        rw [table_eq_of_table? ht]
        exact ⟨lt_of_table? ht, by simp [hlive.present, hlive.named]⟩
    · have htables : c.tables = (List.range c.tables.length).map fun i => c.table ⟨i⟩ := by
        refine List.ext_getElem (by simp) fun i hi _ => ?_
        simp [table, table?, hi]
      have hlive : (c.tables.filter fun t => !t.dropped && t.origin ≠ .derived).map Table.name =
          (((List.range c.tables.length).map TableId.mk).filter fun id =>
            !(c.table id).dropped && (c.table id).origin ≠ .derived).map
              fun id => (c.table id).name := by
        conv_lhs => rw [htables]
        simp [List.filter_map, List.map_map, Function.comp_def]
      rw [← hlive]
      exact List.mergeSort_perm _ _
  columnsNodup := h.table_columns_nodup
  owner _ _ hcolumn := h.owner_of_mem hcolumn
  references id hid target htarget :=
    h.references id _ (column?_of_lt hid) target htarget

/-! ### What operations keep -/

theorem empty : Catalog.empty.Indexed := by
  constructor <;> simp [Catalog.empty, table?, column?]

theorem addTable (h : c.Indexed) (name : String) (origin : TableOrigin) :
    (c.addTable name origin).2.Indexed := by
  have hnew : c.table? (c.addTable name origin).1 = none := by simp [Catalog.addTable, table?]
  have hfresh : ∀ key, (key, (c.addTable name origin).1) ∉ c.named := by
    intro key hmem
    obtain ⟨t, ht, -⟩ := (h.named _).mp hmem
    cases hnew.symm.trans ht
  constructor
  · rintro ⟨key, id⟩
    have hnamed : (key, id) ∈ (c.addTable name origin).2.named ↔ (key, id) ∈ c.named ∨
        origin ≠ .derived ∧ key = Text.foldCase name ∧ id = (c.addTable name origin).1 := by
      by_cases horigin : origin = .derived <;> simp [Catalog.addTable, horigin]
    rw [hnamed, h.named, table?_addTable]
    by_cases hid : id = (c.addTable name origin).1
    · rw [if_pos hid, hid, hnew]
      constructor
      · rintro (⟨t, ht, -⟩ | ⟨horigin, hkey, -⟩)
        · cases ht
        · exact ⟨_, rfl, ⟨rfl, horigin⟩, hkey⟩
      · rintro ⟨t, ht, hlive, hkey⟩
        obtain rfl := Option.some.inj ht
        exact .inr ⟨hlive.named, hkey, rfl⟩
    · simp [hid]
  · by_cases horigin : origin = .derived
    · simpa [Catalog.addTable, horigin] using h.nodup
    · simpa [Catalog.addTable, horigin, List.nodup_append, h.nodup] using
        fun key id hmem hkey hid => hfresh key (by simpa [Catalog.addTable, ← hid] using hmem)
  · intro id t ht
    rw [table?_addTable] at ht
    split at ht
    · obtain rfl := Option.some.inj ht
      exact List.nodup_nil
    · exact h.columnsNodup id t ht
  · intro id t ht column hcolumn
    rw [table?_addTable] at ht
    split at ht
    · obtain rfl := Option.some.inj ht
      exact absurd hcolumn List.not_mem_nil
    · exact h.owner id t ht column hcolumn
  · exact h.references

/-- A change of tables that leaves their names and those of their columns that it
keeps. -/
theorem modifyTable (h : c.Indexed) (id : TableId) {f : Table → Table}
    (hname : ∀ t, (f t).name = t.name) (hlive : ∀ t, (f t).IsLive ↔ t.IsLive)
    (hcolumns : ∀ t, (f t).columns.Sublist t.columns) : (c.modifyTable id f).Indexed := by
  constructor
  · intro entry
    rw [named_modifyTable, h.named, table?_modifyTable]
    cases c.table? entry.2 with
    | none => simp
    | some t => by_cases hid : id = entry.2 <;> simp [hid, hname, hlive]
  · exact h.nodup
  · intro other t ht
    rw [table?_modifyTable] at ht
    obtain ⟨old, hold, rfl⟩ := Option.map_eq_some_iff.mp ht
    split
    · exact (h.columnsNodup other old hold).sublist (hcolumns old)
    · exact h.columnsNodup other old hold
  · intro other t ht column hcolumn
    rw [table?_modifyTable] at ht
    obtain ⟨old, hold, rfl⟩ := Option.map_eq_some_iff.mp ht
    split at hcolumn
    · exact h.owner other old hold column ((hcolumns old).subset hcolumn)
    · exact h.owner other old hold column hcolumn
  · exact h.references

theorem modifyColumn (h : c.Indexed) (id : ColumnId) {f : Column → Column}
    (hf : ∀ entry, (f entry).table = entry.table)
    (href : ∀ entry, ∀ target ∈ (f entry).references,
      target ∈ entry.references ∨ c.HasColumn target) : (c.modifyColumn id f).Indexed := by
  have hhas : ∀ target, c.HasColumn target → (c.modifyColumn id f).HasColumn target := by
    intro target htarget
    simpa [HasColumn, Catalog.modifyColumn] using htarget
  constructor
  · exact h.named
  · exact h.nodup
  · exact h.columnsNodup
  · intro other t ht column hcolumn
    obtain ⟨entry, hentry, howner⟩ := h.owner other t ht column hcolumn
    rw [column?_modifyColumn, hentry]
    refine ⟨_, rfl, ?_⟩
    split
    · rw [hf, howner]
    · exact howner
  · intro other entry hentry target htarget
    rw [column?_modifyColumn] at hentry
    obtain ⟨old, hold, rfl⟩ := Option.map_eq_some_iff.mp hentry
    split at htarget
    · rcases href old target htarget with hkept | hnew
      · exact hhas target (h.references other old hold target hkept)
      · exact hhas target hnew
    · exact hhas target (h.references other old hold target htarget)

theorem addColumn (h : c.Indexed) (table : TableId) {column : Column}
    (href : column.references = none) : (c.addColumn table column).2.Indexed := by
  have hnew : c.column? (c.addColumn table column).1 = none := by
    simp [Catalog.addColumn, column?]
  have hold : ∀ id entry, c.column? id = some entry →
      (c.addColumn table column).2.column? id = some entry := by
    intro id entry hentry
    rw [column?_addColumn, if_neg, hentry]
    rintro rfl
    cases hnew.symm.trans hentry
  constructor
  · intro entry
    rw [named_addColumn, h.named, table?_addColumn]
    cases c.table? entry.2 with
    | none => simp
    | some t =>
      have hlive : ∀ columns, ({ t with columns := columns } : Table).IsLive ↔ t.IsLive :=
        fun _ => ⟨fun h => ⟨h.present, h.named⟩, fun h => ⟨h.present, h.named⟩⟩
      by_cases hid : table = entry.2 <;> simp [hid, hlive]
  · exact h.nodup
  · intro id t ht
    rw [table?_addColumn] at ht
    obtain ⟨old, hold, rfl⟩ := Option.map_eq_some_iff.mp ht
    split
    · refine List.Nodup.append (h.columnsNodup id old hold) (List.nodup_singleton _) ?_
      rw [List.disjoint_singleton]
      intro hmem
      obtain ⟨entry, hentry, -⟩ := h.owner id old hold _ hmem
      cases hnew.symm.trans hentry
    · exact h.columnsNodup id old hold
  · intro id t ht other hother
    rw [table?_addColumn] at ht
    obtain ⟨before, hbefore, rfl⟩ := Option.map_eq_some_iff.mp ht
    have hkept : other ∈ before.columns → ∃ entry,
        (c.addColumn table column).2.column? other = some entry ∧ entry.table = id := by
      intro hmem
      obtain ⟨entry, hentry, howner⟩ := h.owner id before hbefore other hmem
      exact ⟨entry, hold other entry hentry, howner⟩
    split at hother
    · next hid =>
      rcases List.mem_append.mp hother with hmem | hlast
      · exact hkept hmem
      · rw [List.mem_singleton.mp hlast, column?_addColumn, if_pos rfl]
        exact ⟨_, rfl, hid⟩
    · exact hkept hother
  · intro id entry hentry target htarget
    rw [column?_addColumn] at hentry
    split at hentry
    · obtain rfl := Option.some.inj hentry
      simp [href] at htarget
    · have hhas := h.references id entry hentry target htarget
      exact hhas.mono ⟨by simp [Catalog.addColumn, Catalog.modifyTable],
        by simp [Catalog.addColumn, Catalog.modifyTable]⟩

theorem removeColumn (h : c.Indexed) (id : ColumnId) : (c.removeColumn id).Indexed :=
  h.modifyTable _ (fun _ => rfl) (fun _ => ⟨fun h => ⟨h.present, h.named⟩,
    fun h => ⟨h.present, h.named⟩⟩) fun _ => List.filter_sublist

/-- Neither of a table that is dropped nor of one that takes another name an entry
is left behind. -/
theorem mem_named_dropTable (h : c.Indexed) {id : TableId} {entry : String × TableId} :
    entry ∈ (c.dropTable id).named ↔ entry ∈ c.named ∧ entry.2 ≠ id := by
  obtain ⟨key, other⟩ := entry
  simp only [named_dropTable, List.mem_filter, Bool.not_eq_true', Bool.and_eq_false_iff,
    beq_eq_false_iff_ne]
  refine and_congr_right fun hmem => ⟨?_, .inr⟩
  rintro (hkey | hid) rfl
  · obtain ⟨t, ht, -, hname⟩ := (h.named _).mp hmem
    rw [table_eq_of_table? ht] at hkey
    exact hkey hname
  · exact hid rfl

theorem dropTable (h : c.Indexed) (id : TableId) : (c.dropTable id).Indexed := by
  constructor
  · rintro ⟨key, other⟩
    rw [h.mem_named_dropTable, h.named, table?_dropTable]
    by_cases hid : id = other
    · subst hid
      constructor
      · exact fun h => absurd rfl h.2
      · rintro ⟨t, ht, hlive, -⟩
        obtain ⟨old, -, rfl⟩ := Option.map_eq_some_iff.mp ht
        have hpresent := hlive.present
        simp at hpresent
    · simp [hid, Ne.symm hid]
  · exact h.nodup.filter _
  · intro other t ht
    rw [table?_dropTable] at ht
    obtain ⟨old, hold, rfl⟩ := Option.map_eq_some_iff.mp ht
    split <;> exact h.columnsNodup other old hold
  · intro other t ht column hcolumn
    rw [table?_dropTable] at ht
    obtain ⟨old, hold, rfl⟩ := Option.map_eq_some_iff.mp ht
    split at hcolumn <;> exact h.owner other old hold column hcolumn
  · exact h.references

theorem renameTable (h : c.Indexed) {id : TableId} (hid : c.IsLive id) (name : String) :
    (c.renameTable id name).Indexed := by
  have hfresh : ∀ key, (key, id) ∉ (c.dropTable id).named :=
    fun key hmem => (h.mem_named_dropTable.mp hmem).2 rfl
  constructor
  · rintro ⟨key, other⟩
    rw [named_renameTable, List.mem_append, List.mem_singleton, h.mem_named_dropTable, h.named,
      table?_renameTable]
    by_cases hother : id = other
    · subst hother
      obtain ⟨t, ht, hlive⟩ := hid
      simp only [ht]
      constructor
      · rintro (⟨-, hne⟩ | hlast)
        · exact absurd rfl hne
        · simp only [Prod.mk.injEq, and_true] at hlast
          exact ⟨_, rfl, ⟨by simp, by simp [hlive.named]⟩, by simp [hlast]⟩
      · rintro ⟨_, hnew, -, hkey⟩
        obtain rfl := Option.some.inj hnew
        exact .inr (by simpa using hkey)
    · simp [hother, Ne.symm hother]
  · rw [named_renameTable]
    refine List.Nodup.append (h.dropTable id).nodup (List.nodup_singleton _) ?_
    simpa using hfresh _
  · intro other t ht
    rw [table?_renameTable] at ht
    obtain ⟨old, hold, rfl⟩ := Option.map_eq_some_iff.mp ht
    split <;> exact h.columnsNodup other old hold
  · intro other t ht column hcolumn
    rw [table?_renameTable] at ht
    obtain ⟨old, hold, rfl⟩ := Option.map_eq_some_iff.mp ht
    split at hcolumn <;> exact h.owner other old hold column hcolumn
  · exact h.references

/-! ### Catalogs of schemas -/

theorem foldl {α : Type} {f : Catalog → α → Catalog}
    (hf : ∀ c a, c.Indexed → (f c a).Indexed) (as : List α) :
    ∀ c : Catalog, c.Indexed → (as.foldl f c).Indexed := by
  induction as with
  | nil => exact fun _ h => h
  | cons a as ih => exact fun c h => ih _ (hf c a h)

theorem addDescribedTable (h : c.Indexed) (number : Nat) (d : TableDescriptor) :
    (c.addDescribedTable number d).Indexed := by
  have hadded := (h.addTable d.name .schema).modifyTable (c.addTable d.name .schema).1
    (f := fun t => { t with rowCount := d.rowCount }) (fun _ => rfl)
    (fun _ => ⟨fun h => ⟨h.present, h.named⟩, fun h => ⟨h.present, h.named⟩⟩)
    fun _ => List.Sublist.refl _
  exact foldl (fun c entry h => h.addColumn _ rfl) d.columns.zipIdx _ hadded

/-- The ends of a key that is linked exist. -/
theorem linkKey (h : c.Indexed) (table : TableId) (key : ForeignKeyDescriptor) :
    (c.linkKey table key).Indexed := by
  unfold Catalog.linkKey
  split
  · next source target _ htarget =>
    refine h.modifyColumn source (fun _ => rfl) fun _ other hother => .inr ?_
    obtain rfl : target = other := by simpa using hother
    obtain ⟨id, hmem⟩ := mem_of_keyTarget? htarget
    exact (h.owner_of_mem hmem).1
  · exact h

/-- A schema may give a name to several tables, which the index then all lists. -/
theorem ofDescriptors (descriptors : List TableDescriptor) :
    (Catalog.ofDescriptors descriptors).Indexed := by
  apply foldl
  · exact fun c entry h => foldl (fun c key h => h.linkKey _ key) _ c h
  · exact foldl (fun c entry h => h.addDescribedTable _ _) _ _ .empty

end Indexed
end Catalog
end SqlAnalysis
