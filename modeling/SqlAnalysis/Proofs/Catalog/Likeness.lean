import SqlAnalysis.Catalog.Basic
import SqlAnalysis.Proofs.Syntax.Likeness

/-!
# Catalogs up to case

Alike catalogs number the same tables and columns, whose names differ in case only.
Where types may be forgotten, the second catalog may lack types of the first one. No
look-up tells alike catalogs apart, and every operation keeps them alike.
-/
namespace SqlAnalysis

open Text

/-! ### Alike tables and columns -/

structure Table.Like (a b : Table) : Prop where
  name : foldCase a.name = foldCase b.name
  columns : a.columns = b.columns
  rowCount : a.rowCount = b.rowCount
  origin : a.origin = b.origin
  dropped : a.dropped = b.dropped

/-- What is written as the default of a column is not looked at. -/
structure Column.Like (forget : Prop) (a b : Column) : Prop where
  name : foldCase a.name = foldCase b.name
  type : TypeLike forget a.type b.type
  table : a.table = b.table
  primaryKey : a.primaryKey = b.primaryKey
  nullable : a.nullable = b.nullable
  notNull : a.notNull = b.notNull
  references : a.references = b.references
  descriptor : a.descriptor = b.descriptor

structure Catalog.Like (forget : Prop) (c c' : Catalog) : Prop where
  tables : List.Forall₂ Table.Like c.tables c'.tables
  columns : List.Forall₂ (Column.Like forget) c.columns c'.columns
  named : c.named = c'.named

variable {forget : Prop}

instance Table.Like.refl : Std.Refl Table.Like :=
  ⟨fun _ => ⟨rfl, rfl, rfl, rfl, rfl⟩⟩

instance Column.Like.refl : Std.Refl (Column.Like forget) :=
  ⟨fun _ => ⟨rfl, .inl rfl, rfl, rfl, rfl, rfl, rfl, rfl⟩⟩

instance Catalog.Like.refl : Std.Refl (Catalog.Like forget) :=
  ⟨fun _ => ⟨Std.Refl.refl _, Std.Refl.refl _, rfl⟩⟩

theorem Column.Like.plain {name name' : String} {type type' : Option SqlType}
    (hname : foldCase name = foldCase name') (htype : TypeLike forget type type')
    (table : TableId) : (Column.plain name type table).Like forget (.plain name' type' table) :=
  ⟨hname, htype, rfl, rfl, rfl, rfl, rfl, rfl⟩

namespace Catalog.Like

variable {c c' : Catalog} {name name' : String}

/-! ### Looking up -/

theorem table (h : c.Like forget c') (id : TableId) : (c.table id).Like (c'.table id) := by
  have hfound := forall₂_getElem? h.tables id.index
  unfold Catalog.table Catalog.table?
  generalize c.tables[id.index]? = found at hfound
  generalize c'.tables[id.index]? = found' at hfound
  cases hfound with
  | none => exact Std.Refl.refl _
  | some ht => exact ht

theorem column (h : c.Like forget c') (id : ColumnId) :
    (c.column id).Like forget (c'.column id) := by
  have hfound := forall₂_getElem? h.columns id.index
  unfold Catalog.column Catalog.column?
  generalize c.columns[id.index]? = found at hfound
  generalize c'.columns[id.index]? = found' at hfound
  cases hfound with
  | none => exact Std.Refl.refl _
  | some hcolumn => exact hcolumn

theorem findTables (h : c.Like forget c') (hname : foldCase name = foldCase name') :
    c.findTables name = c'.findTables name' := by
  unfold Catalog.findTables
  rw [h.named, hname]

theorem findColumns (h : c.Like forget c') (table : TableId)
    (hname : foldCase name = foldCase name') :
    c.findColumns table name = c'.findColumns table name' := by
  have hsame : ∀ id, sameName (c.column id).name name = sameName (c'.column id).name name' := by
    intro id
    rw [sameName, sameName, (h.column id).name, hname]
  unfold Catalog.findColumns
  simp only [(h.table table).columns, hsame]

theorem singleColumn? (h : c.Like forget c') (table : TableId) (name : String) :
    c.singleColumn? table name = c'.singleColumn? table name := by
  unfold Catalog.singleColumn?
  rw [h.findColumns table rfl]

theorem primaryKey? (h : c.Like forget c') (table : TableId) :
    c.primaryKey? table = c'.primaryKey? table := by
  unfold Catalog.primaryKey?
  simp only [(h.table table).columns, (h.column _).primaryKey]

/-! ### Changing -/

theorem modifyTable (h : c.Like forget c') (id : TableId) {f g : Table → Table}
    (hfg : ∀ a b, a.Like b → (f a).Like (g b)) :
    (c.modifyTable id f).Like forget (c'.modifyTable id g) :=
  ⟨forall₂_modify hfg h.tables id.index, h.columns, h.named⟩

theorem modifyColumn (h : c.Like forget c') (id : ColumnId) {f g : Column → Column}
    (hfg : ∀ a b, a.Like forget b → (f a).Like forget (g b)) :
    (c.modifyColumn id f).Like forget (c'.modifyColumn id g) :=
  ⟨h.tables, forall₂_modify hfg h.columns id.index, h.named⟩

theorem addTable (h : c.Like forget c') (hname : foldCase name = foldCase name')
    (origin : TableOrigin) :
    (c.addTable name origin).1 = (c'.addTable name' origin).1 ∧
      (c.addTable name origin).2.Like forget (c'.addTable name' origin).2 := by
  have hid : (c.addTable name origin).1 = (c'.addTable name' origin).1 :=
    congrArg TableId.mk h.tables.length_eq
  refine ⟨hid, List.rel_append h.tables ?_, h.columns, ?_⟩
  · exact .cons ⟨hname, rfl, rfl, rfl, rfl⟩ .nil
  · have hlength := h.tables.length_eq
    simp only [Catalog.addTable, h.named, hname, hlength]

theorem addColumn (h : c.Like forget c') (table : TableId) {column column' : Column}
    (hcolumn : column.Like forget column') :
    (c.addColumn table column).1 = (c'.addColumn table column').1 ∧
      (c.addColumn table column).2.Like forget (c'.addColumn table column').2 := by
  have hid : (c.addColumn table column).1 = (c'.addColumn table column').1 :=
    congrArg ColumnId.mk h.columns.length_eq
  have hadded : Catalog.Like forget
      { c with columns := c.columns ++ [{ column with table := table }] }
      { c' with columns := c'.columns ++ [{ column' with table := table }] } :=
    ⟨h.tables, List.rel_append h.columns (.cons { hcolumn with table := rfl } .nil), h.named⟩
  refine ⟨hid, hadded.modifyTable table fun a b hab => ?_⟩
  exact { hab with columns := congrArg₂ (fun ids id => ids ++ [id]) hab.columns hid }

theorem copyColumns (h : c.Like forget c') (source target : TableId) :
    (c.copyColumns source target).Like forget (c'.copyColumns source target) := by
  unfold Catalog.copyColumns
  rw [← (h.table source).columns]
  generalize (c.table source).columns = ids
  suffices hfold : ∀ d d' : Catalog, d.Like forget d' →
      (ids.foldl (fun copied id => (copied.addColumn target
          { Column.plain (c.column id).name (c.column id).type target with
            primaryKey := (c.column id).primaryKey }).2) d).Like forget
        (ids.foldl (fun copied id => (copied.addColumn target
          { Column.plain (c'.column id).name (c'.column id).type target with
            primaryKey := (c'.column id).primaryKey }).2) d') from hfold c c' h
  induction ids with
  | nil => exact fun _ _ hd => hd
  | cons id ids ih =>
    intro d d' hd
    have hcolumn := h.column id
    apply ih
    refine (hd.addColumn target ?_).2
    exact ⟨hcolumn.name, hcolumn.type, rfl, hcolumn.primaryKey, rfl, rfl, rfl, rfl⟩

theorem dropTable (h : c.Like forget c') (id : TableId) :
    (c.dropTable id).Like forget (c'.dropTable id) := by
  have hnamed : (c.dropTable id).named = (c'.dropTable id).named := by
    simp only [Catalog.dropTable, Catalog.modifyTable, (h.table id).name, h.named]
  exact ⟨forall₂_modify (fun _ _ hab => { hab with dropped := rfl }) h.tables id.index, h.columns,
    hnamed⟩

theorem renameTable (h : c.Like forget c') (id : TableId)
    (hname : foldCase name = foldCase name') :
    (c.renameTable id name).Like forget (c'.renameTable id name') := by
  have hrenamed := (h.dropTable id).modifyTable id
    (f := fun t => { t with name := name, dropped := false })
    (g := fun t => { t with name := name', dropped := false })
    fun _ _ hab => { hab with name := hname, dropped := rfl }
  refine ⟨hrenamed.tables, hrenamed.columns, ?_⟩
  exact congrArg₂ (fun named key => named ++ [(key, id)]) hrenamed.named hname

theorem removeColumn (h : c.Like forget c') (id : ColumnId) :
    (c.removeColumn id).Like forget (c'.removeColumn id) := by
  unfold Catalog.removeColumn
  rw [(h.column id).table]
  exact h.modifyTable _ fun _ _ hab => { hab with
    columns := congrArg (List.filter fun other => other ≠ id) hab.columns }

theorem renameColumn (h : c.Like forget c') (id : ColumnId)
    (hname : foldCase name = foldCase name') :
    (c.renameColumn id name).Like forget (c'.renameColumn id name') :=
  h.modifyColumn id fun _ _ hab => { hab with name := hname }

theorem keyTarget? (h : c.Like forget c') (key : ForeignKeyDescriptor) :
    c.keyTarget? key = c'.keyTarget? key := by
  unfold Catalog.keyTarget?
  simp only [h.findTables rfl, h.singleColumn?, h.primaryKey?]

theorem linkKey (h : c.Like forget c') (table : TableId) (key : ForeignKeyDescriptor) :
    (c.linkKey table key).Like forget (c'.linkKey table key) := by
  unfold Catalog.linkKey
  rw [h.singleColumn?, h.keyTarget?]
  split
  · exact h.modifyColumn _ fun _ _ hab => { hab with references := rfl }
  · exact h

end Catalog.Like

/-! ### Schemas with forgotten types -/

/-- The second column is the first one, or it is declared with a text that is no type. -/
def ColumnDescriptor.Forgets (d d' : ColumnDescriptor) : Prop :=
  d' = d ∨ ∃ text e, SqlType.parse text = .error e ∧ d' = { d with declaredType := text }

/-- The tables are described alike, up to declared types that were forgotten. -/
def TableDescriptor.Forgets (d d' : TableDescriptor) : Prop :=
  ∃ columns, List.Forall₂ ColumnDescriptor.Forgets d.columns columns ∧
    d' = { d with columns := columns }

theorem ColumnDescriptor.Forgets.type {d d' : ColumnDescriptor} (h : d.Forgets d') :
    TypeLike True (SqlType.parse d.declaredType).toOption
      (SqlType.parse d'.declaredType).toOption := by
  obtain rfl | ⟨text, e, herror, rfl⟩ := h
  · exact .inl rfl
  · exact .inr ⟨trivial, by rw [herror]; rfl⟩

namespace Catalog.Like

variable {c c' : Catalog}

theorem addDescribedColumn (h : c.Like True c') (table : TableId) (place : DescriptorRef)
    {d d' : ColumnDescriptor} (hd : d.Forgets d') :
    (c.addDescribedColumn table place d).Like True (c'.addDescribedColumn table place d') := by
  have htype := hd.type
  obtain ⟨hname, hnotNull, hprimaryKey⟩ :
      d.name = d'.name ∧ d.notNull = d'.notNull ∧ d.primaryKey = d'.primaryKey := by
    obtain rfl | ⟨text, e, -, rfl⟩ := hd
    · exact ⟨rfl, rfl, rfl⟩
    · exact ⟨rfl, rfl, rfl⟩
  unfold Catalog.addDescribedColumn
  generalize (SqlType.parse d.declaredType).toOption = type at htype
  generalize (SqlType.parse d'.declaredType).toOption = type' at htype
  rw [hname, hnotNull, hprimaryKey]
  refine (h.addColumn table ?_).2
  exact ⟨rfl, htype, rfl, rfl, rfl, rfl, rfl, rfl⟩

theorem addDescribedTable (h : c.Like True c') (number : Nat) {d d' : TableDescriptor}
    (hd : d.Forgets d') :
    (c.addDescribedTable number d).Like True (c'.addDescribedTable number d') := by
  obtain ⟨columns, hcolumns, rfl⟩ := hd
  have hfold : ∀ {columns columns' : List ColumnDescriptor},
      List.Forall₂ ColumnDescriptor.Forgets columns columns' →
      ∀ (id : TableId) (n : Nat) (c c' : Catalog), c.Like True c' →
        ((columns.zipIdx n).foldl
            (fun c entry => c.addDescribedColumn id ⟨number, entry.2⟩ entry.1) c).Like True
          ((columns'.zipIdx n).foldl
            (fun c entry => c.addDescribedColumn id ⟨number, entry.2⟩ entry.1) c') := by
    intro columns columns' hcolumns id
    induction hcolumns with
    | nil => exact fun _ _ _ hc => hc
    | cons hcolumn _ ih => exact fun n c c' hc => ih _ _ _ (hc.addDescribedColumn id _ hcolumn)
  have hname : foldCase d.name = foldCase d.name := rfl
  obtain ⟨hid, hadded⟩ := h.addTable hname .schema
  unfold Catalog.addDescribedTable
  dsimp only
  rw [hid]
  apply hfold hcolumns
  exact hadded.modifyTable _ fun _ _ hab => { hab with rowCount := rfl }

theorem linkKeys (h : c.Like forget c') (table : TableId) (keys : List ForeignKeyDescriptor) :
    (keys.foldl (fun c key => c.linkKey table key) c).Like forget
      (keys.foldl (fun c key => c.linkKey table key) c') := by
  induction keys generalizing c c' with
  | nil => exact h
  | cons key keys ih => exact ih (h.linkKey table key)

/-- Types forgotten in a schema are forgotten in its catalog, and nothing else is. -/
theorem ofDescriptors {ds ds' : List TableDescriptor}
    (h : List.Forall₂ TableDescriptor.Forgets ds ds') :
    (Catalog.ofDescriptors ds).Like True (Catalog.ofDescriptors ds') := by
  have htables : ∀ (n : Nat) (c c' : Catalog), c.Like True c' →
      ((ds.zipIdx n).foldl (fun c entry => c.addDescribedTable entry.2 entry.1) c).Like True
        ((ds'.zipIdx n).foldl (fun c entry => c.addDescribedTable entry.2 entry.1) c') := by
    induction h with
    | nil => exact fun _ _ _ hc => hc
    | cons hd _ ih => exact fun n c c' hc => ih _ _ _ (hc.addDescribedTable n hd)
  have hkeys : ∀ (n : Nat) (c c' : Catalog), c.Like True c' →
      ((ds.zipIdx n).foldl (fun c entry =>
          entry.1.foreignKeys.foldl (fun c key => c.linkKey ⟨entry.2⟩ key) c) c).Like True
        ((ds'.zipIdx n).foldl (fun c entry =>
          entry.1.foreignKeys.foldl (fun c key => c.linkKey ⟨entry.2⟩ key) c) c') := by
    clear htables
    induction h with
    | nil => exact fun _ _ _ hc => hc
    | cons hd _ ih =>
      obtain ⟨columns, -, rfl⟩ := hd
      exact fun n c c' hc => ih _ _ _ (hc.linkKeys ⟨n⟩ _)
  exact hkeys 0 _ _ (htables 0 _ _ (Std.Refl.refl Catalog.empty))

end Catalog.Like
end SqlAnalysis
