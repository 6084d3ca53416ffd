import Mathlib.Logic.Relation
import SqlAnalysis.Proofs.Catalog.Coherence

/-!
# Edits of catalogs

Resolving changes a catalog in few ways, each under a condition that is checked
before. Whatever all of these edits keep is kept by every resolver: the index stays
in step, and no table or column that exists is lost, changes its owner or its type.
-/
namespace SqlAnalysis.Catalog

/-- What may be done to a catalog, besides adding the results of queries. -/
structure Rights where
  /-- The tables that may be changed. -/
  owns : TableId → Prop
  /-- Whether names of tables may be given and taken away. -/
  names : Prop

instance : CoeFun Rights fun _ => TableId → Prop := ⟨Rights.owns⟩

/-- Every table may be changed, in every way. -/
def Rights.all : Rights := ⟨fun _ => True, True⟩

/-- One change that resolving makes. -/
inductive Edit (own : Rights) (c : Catalog) : Catalog → Prop
  /-- The result of a query gets a table. -/
  | addResult (name : String) : Edit own c (c.addTable name .derived).2
  | addTable {name : String} (hnames : own.names) (hfree : c.findTables name = []) :
    Edit own c (c.addTable name .created).2
  | addColumn {table : TableId} {column : Column} (hown : own table) (htable : c.HasTable table)
    (href : column.references = none)
    (hfree : (c.table table).origin = .derived ∨ c.findColumns table column.name = []) :
    Edit own c (c.addColumn table column).2
  | markKey {id : ColumnId} (hown : own (c.column id).table) :
    Edit own c (c.modifyColumn id fun entry => { entry with primaryKey := true, nullable := false })
  | link {id target : ColumnId} (hown : own (c.column id).table) (htarget : c.HasColumn target) :
    Edit own c (c.modifyColumn id fun entry => { entry with references := some target })
  | removeColumn {id : ColumnId} (hown : own (c.column id).table) :
    Edit own c (c.removeColumn id)
  | renameColumn {id : ColumnId} {name : String} (hown : own (c.column id).table)
    (hfree : c.findColumns (c.column id).table name = []) : Edit own c (c.renameColumn id name)
  | renameTable {id : TableId} {name : String} (hnames : own.names) (hown : own id)
    (hlive : c.IsLive id) (hfree : c.findTables name = []) : Edit own c (c.renameTable id name)
  | dropTable {id : TableId} (hnames : own.names) (hown : own id) (hlive : c.IsLive id) :
    Edit own c (c.dropTable id)

/-- Any number of edits, one after the other. -/
abbrev Edits (own : Rights) : Catalog → Catalog → Prop :=
  Relation.ReflTransGen (Edit own)

/-- Tables keep their origin, columns their table and their type. -/
structure Preserves (c c' : Catalog) : Prop where
  table : ∀ id t, c.table? id = some t → ∃ t', c'.table? id = some t' ∧ t'.origin = t.origin
  column : ∀ id entry, c.column? id = some entry →
    ∃ entry', c'.column? id = some entry' ∧ entry'.table = entry.table ∧ entry'.type = entry.type

variable {own : Rights} {c c' c'' : Catalog}

namespace Preserves

theorem refl (c : Catalog) : c.Preserves c :=
  ⟨fun _ t ht => ⟨t, ht, rfl⟩, fun _ entry hentry => ⟨entry, hentry, rfl, rfl⟩⟩

theorem trans (h : c.Preserves c') (h' : c'.Preserves c'') : c.Preserves c'' := by
  constructor
  · intro id t ht
    obtain ⟨t', ht', horigin⟩ := h.table id t ht
    obtain ⟨t'', ht'', horigin'⟩ := h'.table id t' ht'
    exact ⟨t'', ht'', horigin'.trans horigin⟩
  · intro id entry hentry
    obtain ⟨entry', hentry', htable, htype⟩ := h.column id entry hentry
    obtain ⟨entry'', hentry'', htable', htype'⟩ := h'.column id entry' hentry'
    exact ⟨entry'', hentry'', htable'.trans htable, htype'.trans htype⟩

theorem hasTable (h : c.Preserves c') {id : TableId} (hid : c.HasTable id) : c'.HasTable id := by
  obtain ⟨t, ht, -⟩ := h.table id _ (table?_of_lt hid)
  exact lt_of_table? ht

theorem hasColumn (h : c.Preserves c') {id : ColumnId} (hid : c.HasColumn id) :
    c'.HasColumn id := by
  obtain ⟨entry, hentry, -⟩ := h.column id _ (column?_of_lt hid)
  exact lt_of_column? hentry

theorem origin_eq (h : c.Preserves c') {id : TableId} (hid : c.HasTable id) :
    (c'.table id).origin = (c.table id).origin := by
  obtain ⟨t, ht, horigin⟩ := h.table id _ (table?_of_lt hid)
  rw [table_eq_of_table? ht, horigin]

theorem owner_eq (h : c.Preserves c') {id : ColumnId} (hid : c.HasColumn id) :
    (c'.column id).table = (c.column id).table := by
  obtain ⟨entry, hentry, htable, -⟩ := h.column id _ (column?_of_lt hid)
  rw [column_eq_of_column? hentry, htable]

theorem type_eq (h : c.Preserves c') {id : ColumnId} (hid : c.HasColumn id) :
    (c'.column id).type = (c.column id).type := by
  obtain ⟨entry, hentry, -, htype⟩ := h.column id _ (column?_of_lt hid)
  rw [column_eq_of_column? hentry, htype]

/-! ### Operations -/

theorem addTable (c : Catalog) (name : String) (origin : TableOrigin) :
    c.Preserves (c.addTable name origin).2 := by
  refine ⟨fun id t ht => ⟨t, ?_, rfl⟩, (refl c).column⟩
  rw [table?_addTable, if_neg, ht]
  rintro rfl
  simp [Catalog.addTable, table?] at ht

theorem modifyTable (c : Catalog) (id : TableId) {f : Table → Table}
    (hf : ∀ t, (f t).origin = t.origin) : c.Preserves (c.modifyTable id f) := by
  refine ⟨fun other t ht => ?_, (refl c).column⟩
  rw [table?_modifyTable, ht]
  refine ⟨_, rfl, ?_⟩
  split
  · exact hf t
  · rfl

theorem modifyColumn (c : Catalog) (id : ColumnId) {f : Column → Column}
    (htable : ∀ entry, (f entry).table = entry.table)
    (htype : ∀ entry, (f entry).type = entry.type) : c.Preserves (c.modifyColumn id f) := by
  refine ⟨(refl c).table, fun other entry hentry => ?_⟩
  rw [column?_modifyColumn, hentry]
  refine ⟨_, rfl, ?_⟩
  split
  · exact ⟨htable entry, htype entry⟩
  · exact ⟨rfl, rfl⟩

theorem addColumn (c : Catalog) (table : TableId) (column : Column) :
    c.Preserves (c.addColumn table column).2 := by
  constructor
  · intro id t ht
    rw [table?_addColumn, ht]
    refine ⟨_, rfl, ?_⟩
    split <;> rfl
  · intro id entry hentry
    refine ⟨entry, ?_, rfl, rfl⟩
    rw [column?_addColumn, if_neg, hentry]
    rintro rfl
    simp [Catalog.addColumn, column?] at hentry

theorem dropTable (c : Catalog) (id : TableId) : c.Preserves (c.dropTable id) := by
  refine ⟨fun other t ht => ?_, (refl c).column⟩
  rw [table?_dropTable, ht]
  refine ⟨_, rfl, ?_⟩
  split <;> rfl

theorem renameTable (c : Catalog) (id : TableId) (name : String) :
    c.Preserves (c.renameTable id name) := by
  refine ⟨fun other t ht => ?_, (refl c).column⟩
  rw [table?_renameTable, ht]
  refine ⟨_, rfl, ?_⟩
  split <;> rfl

end Preserves

/-! ### What edits keep -/

theorem Edit.indexed (h : Edit own c c') (hc : c.Indexed) : c'.Indexed := by
  cases h with
  | addResult name => exact hc.addTable name .derived
  | addTable hnames hfree => exact hc.addTable _ .created
  | addColumn hown htable href hfree => exact hc.addColumn _ href
  | markKey hown => exact hc.modifyColumn _ (fun _ => rfl) fun _ _ htarget => .inl htarget
  | link hown htarget =>
    refine hc.modifyColumn _ (fun _ => rfl) fun _ other hother => .inr ?_
    exact Option.mem_some_iff.mp hother ▸ htarget
  | removeColumn hown => exact hc.removeColumn _
  | renameColumn hown hfree =>
    exact hc.modifyColumn _ (fun _ => rfl) fun _ _ htarget => .inl htarget
  | renameTable hnames hown hlive hfree => exact hc.renameTable hlive _
  | dropTable hnames hown hlive => exact hc.dropTable _

theorem Edit.preserves (h : Edit own c c') : c.Preserves c' := by
  cases h with
  | addResult name => exact .addTable c name .derived
  | addTable hnames hfree => exact .addTable c _ .created
  | addColumn hown htable href hfree => exact .addColumn c _ _
  | markKey hown => exact .modifyColumn c _ (fun _ => rfl) fun _ => rfl
  | link hown htarget => exact .modifyColumn c _ (fun _ => rfl) fun _ => rfl
  | removeColumn hown => exact .modifyTable c _ fun _ => rfl
  | renameColumn hown hfree => exact .modifyColumn c _ (fun _ => rfl) fun _ => rfl
  | renameTable hnames hown hlive hfree => exact .renameTable c _ _
  | dropTable hnames hown hlive => exact .dropTable c _

theorem Edits.indexed (h : Edits own c c') (hc : c.Indexed) : c'.Indexed := by
  induction h with
  | refl => exact hc
  | tail _ hedit ih => exact hedit.indexed ih

theorem Edits.preserves (h : Edits own c c') : c.Preserves c' := by
  induction h with
  | refl => exact .refl c
  | tail _ hedit ih => exact ih.trans hedit.preserves

/-- A catalog that edits may start from: its parts agree, and tables that do not exist
yet may be changed. -/
structure Editable (own : Rights) (c : Catalog) : Prop where
  indexed : c.Indexed
  fresh : ∀ id, ¬c.HasTable id → own id

theorem Editable.of_edits (h : c.Editable own) (hedits : Edits own c c') : c'.Editable own :=
  ⟨hedits.indexed h.indexed, fun id hid => h.fresh id (mt hedits.preserves.hasTable hid)⟩

/-- The columns of a table are copied one by one to the result of a query. -/
theorem edits_copyColumns {source target : TableId} (htarget : c.HasTable target)
    (hown : own target) (hderived : (c.table target).origin = .derived) :
    Edits own c (c.copyColumns source target) := by
  have hfold : ∀ (ids : List ColumnId) (copied : Catalog), Edits own c copied →
      Edits own c (ids.foldl (fun copied id =>
        (copied.addColumn target
          { Column.plain (c.column id).name (c.column id).type target with
            primaryKey := (c.column id).primaryKey }).2) copied) := by
    intro ids
    induction ids with
    | nil => exact fun _ hcopied => hcopied
    | cons id ids ih =>
      intro copied hcopied
      have hhas := hcopied.preserves.hasTable htarget
      refine ih _ (hcopied.tail (.addColumn hown hhas rfl (.inl ?_)))
      rw [hcopied.preserves.origin_eq htarget, hderived]
  exact hfold _ c .refl

end SqlAnalysis.Catalog
