import Mathlib.Data.List.Induction
import SqlAnalysis.Proofs.Catalog.Frames

/-!
# Tables as they are described

Before its foreign keys are linked, the catalog of a schema has one table for each
descriptor, with the described columns in their order, and every table is listed under its
name in the order of the descriptors.
-/
namespace SqlAnalysis

/-- The column that a descriptor describes, at a place of the schema. -/
def ColumnDescriptor.column (d : ColumnDescriptor) (table : TableId) (place : DescriptorRef) :
    Column :=
  { Column.plain d.name (SqlType.parse d.declaredType).toOption table with
    primaryKey := d.primaryKey
    notNull := d.notNull
    nullable := !d.notNull && !d.primaryKey
    defaultValue := d.defaultValue
    descriptor := some place }

namespace Catalog

variable {c c' c'' : Catalog} {table : TableId} {added added' : List Column}

/-! ### Columns of one table -/

/-- The second catalog has columns more, at the end of one table. -/
structure Appends (table : TableId) (added : List Column) (c c' : Catalog) : Prop where
  indexed : c'.Indexed
  hasTable : c'.HasTable table
  named : c'.named = c.named
  length : c'.tables.length = c.tables.length
  name : (c'.table table).name = (c.table table).name
  entries : c'.entries table = c.entries table ++ added
  keeps : KeepsOutside (· = table) c c'

namespace Appends

theorem refl (hc : c.Indexed) (htable : c.HasTable table) : Appends table [] c c :=
  ⟨hc, htable, rfl, rfl, rfl, (List.append_nil _).symm, .refl c⟩

theorem trans (h : Appends table added c c') (h' : Appends table added' c' c'') :
    Appends table (added ++ added') c c'' where
  indexed := h'.indexed
  hasTable := h'.hasTable
  named := h'.named.trans h.named
  length := h'.length.trans h.length
  name := h'.name.trans h.name
  entries := by rw [h'.entries, h.entries, List.append_assoc]
  keeps := h.keeps.trans h'.keeps

theorem addColumn (hc : c.Indexed) (htable : c.HasTable table) {column : Column}
    (howner : column.table = table) (href : column.references = none) :
    Appends table [column] c (c.addColumn table column).2 where
  indexed := hc.addColumn table href
  hasTable := (Preserves.addColumn c table column).hasTable htable
  named := rfl
  length := by simp [Catalog.addColumn, Catalog.modifyTable]
  name := by
    rw [Catalog.table, table?_addColumn, table?_of_lt htable, Option.map_some, if_pos rfl]
    rfl
  entries := by
    rw [entries_addColumn hc htable, ← howner]
  keeps := @KeepsOutside.addColumn (· = table) c table rfl column

end Appends

/-- The columns of a descriptor, one after the other. -/
theorem appends_describedColumns (number : Nat) (columns : List (ColumnDescriptor × Nat)) :
    ∀ c : Catalog, c.Indexed → c.HasTable table →
      Appends table (columns.map fun entry => entry.1.column table ⟨number, entry.2⟩) c
        (columns.foldl
          (fun c entry => c.addDescribedColumn table ⟨number, entry.2⟩ entry.1) c) := by
  induction columns with
  | nil => exact fun c hc htable => .refl hc htable
  | cons first columns ih =>
    intro c hc htable
    have hfirst : Appends table [first.1.column table ⟨number, first.2⟩] c
        (c.addDescribedColumn table ⟨number, first.2⟩ first.1) :=
      .addColumn hc htable rfl rfl
    exact hfirst.trans (ih _ hfirst.indexed hfirst.hasTable)

/-! ### All tables -/

/-- The columns of a table as its descriptor gives them. -/
def describedEntries (d : TableDescriptor) (number : Nat) : List Column :=
  d.columns.zipIdx.map fun entry => entry.1.column ⟨number⟩ ⟨number, entry.2⟩

/-- The catalog has the tables of a schema, with their numbers as identifiers. -/
structure Describes (ds : List TableDescriptor) (c : Catalog) : Prop where
  indexed : c.Indexed
  length : c.tables.length = ds.length
  named : c.named = ds.zipIdx.map fun entry => (Text.foldCase entry.1.name, ⟨entry.2⟩)
  name : ∀ number d, ds[number]? = some d → (c.table ⟨number⟩).name = d.name
  entries : ∀ number d, ds[number]? = some d → c.entries ⟨number⟩ = describedEntries d number

/-- A table that is added with its columns; the others stay as they are. -/
structure AddsTable (d : TableDescriptor) (c c' : Catalog) : Prop where
  indexed : c'.Indexed
  named : c'.named = c.named ++ [(Text.foldCase d.name, ⟨c.tables.length⟩)]
  length : c'.tables.length = c.tables.length + 1
  name : (c'.table ⟨c.tables.length⟩).name = d.name
  entries : c'.entries ⟨c.tables.length⟩ = describedEntries d c.tables.length
  keeps : KeepsOutside (· = ⟨c.tables.length⟩) c c'

theorem addsTable_addDescribedTable (hc : c.Indexed) (d : TableDescriptor) :
    AddsTable d c (c.addDescribedTable c.tables.length d) := by
  let bare := (c.addTable d.name .schema).2.modifyTable ⟨c.tables.length⟩
    fun t => { t with rowCount := d.rowCount }
  have hindexed : bare.Indexed := (hc.addTable d.name .schema).modifyTable _ (fun _ => rfl)
    (fun _ => ⟨fun h => ⟨h.present, h.named⟩, fun h => ⟨h.present, h.named⟩⟩)
    fun _ => List.Sublist.refl _
  have hlength : bare.tables.length = c.tables.length + 1 := by
    simp [bare, addTable, modifyTable]
  have hhas : bare.HasTable ⟨c.tables.length⟩ := by
    rw [HasTable, hlength]
    exact Nat.lt_succ_self _
  have hrecord : bare.table? ⟨c.tables.length⟩ =
      some ⟨d.name, [], d.rowCount, .schema, false⟩ := by
    have hid : (c.addTable d.name .schema).1 = ⟨c.tables.length⟩ := rfl
    rw [table?_modifyTable, table?_addTable, hid, if_pos rfl, Option.map_some, if_pos rfl]
  have hkeeps : KeepsOutside (· = ⟨c.tables.length⟩) c bare :=
    (KeepsOutside.addTable c d.name .schema).trans
      (@KeepsOutside.modifyTable (· = ⟨c.tables.length⟩) _ _ _ rfl _
        (table?_modifyTable _ _ _) fun _ => rfl)
  have happends : Appends ⟨c.tables.length⟩ (describedEntries d c.tables.length) bare
      (c.addDescribedTable c.tables.length d) :=
    appends_describedColumns c.tables.length d.columns.zipIdx bare hindexed hhas
  constructor
  · exact happends.indexed
  · rw [happends.named]
    rfl
  · rw [happends.length, hlength]
  · rw [happends.name, table_eq_of_table? hrecord]
  · rw [happends.entries, Catalog.entries, table_eq_of_table? hrecord]
    rfl
  · exact hkeeps.trans happends.keeps

theorem Describes.addTable {ds : List TableDescriptor} (h : Describes ds c) {d : TableDescriptor}
    (hadds : AddsTable d c c') : Describes (ds ++ [d]) c' := by
  have hother : ∀ {number}, number < ds.length → c.HasTable ⟨number⟩ ∧
      ¬(⟨number⟩ : TableId) = ⟨c.tables.length⟩ := by
    intro number hlt
    rw [HasTable, h.length, TableId.mk.injEq]
    exact ⟨hlt, Nat.ne_of_lt hlt⟩
  have hcases : ∀ {number e}, (ds ++ [d])[number]? = some e →
      (number < ds.length ∧ ds[number]? = some e) ∨ (number = c.tables.length ∧ e = d) := by
    intro number e he
    rw [List.getElem?_append] at he
    split at he
    · next hlt => exact .inl ⟨hlt, he⟩
    · obtain ⟨hnumber, hd⟩ := List.getElem?_eq_some_iff.mp he
      rw [List.length_singleton] at hnumber
      rw [h.length]
      exact .inr ⟨by omega, by simpa using hd.symm⟩
  constructor
  · exact hadds.indexed
  · rw [hadds.length, h.length, List.length_append, List.length_singleton]
  · rw [hadds.named, h.named, List.zipIdx_append, List.map_append, h.length, Nat.zero_add]
    rfl
  · intro number e he
    rcases hcases he with ⟨hlt, hold⟩ | ⟨rfl, rfl⟩
    · obtain ⟨hhas, hne⟩ := hother hlt
      rw [table_eq_of_table? (hadds.keeps.table _ _ hne (table?_of_lt hhas)), h.name number e hold]
    · exact hadds.name
  · intro number e he
    rcases hcases he with ⟨hlt, hold⟩ | ⟨rfl, rfl⟩
    · obtain ⟨hhas, hne⟩ := hother hlt
      rw [hadds.keeps.entries_eq h.indexed hhas hne, h.entries number e hold]
    · exact hadds.entries

/-- The tables of a schema, before its keys are linked. -/
def ofTables (ds : List TableDescriptor) : Catalog :=
  ds.zipIdx.foldl (fun c entry => c.addDescribedTable entry.2 entry.1) empty

theorem describes_ofTables (ds : List TableDescriptor) : Describes ds (ofTables ds) := by
  induction ds using List.reverseRecOn with
  | nil =>
    exact ⟨.empty, rfl, rfl, fun _ _ h => by simp at h, fun _ _ h => by simp at h⟩
  | append_singleton ds d ih =>
    have hlast : ofTables (ds ++ [d]) = (ofTables ds).addDescribedTable ds.length d := by
      rw [ofTables, List.zipIdx_append, List.foldl_append, Nat.zero_add]
      rfl
    rw [hlast, ← ih.length]
    exact ih.addTable (addsTable_addDescribedTable ih.indexed d)

end Catalog
end SqlAnalysis
