import SqlAnalysis.Catalog.Basic

/-!
# Catalogs only grow

Tables and columns are added to a catalog and never taken out, and it refers to
none that it does not have. Whatever names a table or column of a catalog does so
in every catalog that grows out of it.
-/
namespace SqlAnalysis.Catalog

/-! ### The records of a changed catalog

What each operation on a catalog does to the table or column with a given number. Only the
operation's own table or column differs, and one that is added takes the number after the
last. -/

section

variable (c : Catalog)

theorem table_eq_of_table? {c : Catalog} {id : TableId} {t : Table} (h : c.table? id = some t) :
    c.table id = t := by
  simp [table, h]

theorem column_eq_of_column? {c : Catalog} {id : ColumnId} {entry : Column}
    (h : c.column? id = some entry) : c.column id = entry := by
  simp [column, h]

theorem lt_of_table? {c : Catalog} {id : TableId} {t : Table} (h : c.table? id = some t) :
    id.index < c.tables.length :=
  (List.getElem?_eq_some_iff.mp h).1

theorem lt_of_column? {c : Catalog} {id : ColumnId} {entry : Column}
    (h : c.column? id = some entry) : id.index < c.columns.length :=
  (List.getElem?_eq_some_iff.mp h).1

theorem column?_of_lt {c : Catalog} {id : ColumnId} (h : id.index < c.columns.length) :
    c.column? id = some (c.column id) := by
  simp [column, column?, h]

theorem table?_of_lt {c : Catalog} {id : TableId} (h : id.index < c.tables.length) :
    c.table? id = some (c.table id) := by
  simp [table, table?, h]

/-! ### Changed tables and columns -/

@[simp] theorem named_modifyTable (id : TableId) (f : Table → Table) :
    (c.modifyTable id f).named = c.named := rfl

@[simp] theorem named_modifyColumn (id : ColumnId) (f : Column → Column) :
    (c.modifyColumn id f).named = c.named := rfl

@[simp] theorem column?_modifyTable (id : TableId) (f : Table → Table) (other : ColumnId) :
    (c.modifyTable id f).column? other = c.column? other := rfl

@[simp] theorem table?_modifyColumn (id : ColumnId) (f : Column → Column) (other : TableId) :
    (c.modifyColumn id f).table? other = c.table? other := rfl

theorem table?_modifyTable (id : TableId) (f : Table → Table) (other : TableId) :
    (c.modifyTable id f).table? other =
      (c.table? other).map fun t => if id = other then f t else t := by
  obtain ⟨i⟩ := id
  obtain ⟨j⟩ := other
  simp [table?, modifyTable, List.getElem?_modify]

theorem column?_modifyColumn (id : ColumnId) (f : Column → Column) (other : ColumnId) :
    (c.modifyColumn id f).column? other =
      (c.column? other).map fun entry => if id = other then f entry else entry := by
  obtain ⟨i⟩ := id
  obtain ⟨j⟩ := other
  simp [column?, modifyColumn, List.getElem?_modify]

/-! ### Added tables and columns -/

@[simp] theorem column?_addTable (name : String) (origin : TableOrigin) (id : ColumnId) :
    (c.addTable name origin).2.column? id = c.column? id := rfl

theorem table?_addTable (name : String) (origin : TableOrigin) (id : TableId) :
    (c.addTable name origin).2.table? id =
      if id = (c.addTable name origin).1 then some ⟨name, [], none, origin, false⟩
      else c.table? id := by
  obtain ⟨i⟩ := id
  by_cases h : i = c.tables.length
  · simp [table?, addTable, h]
  · by_cases hlt : i < c.tables.length
    · simp [table?, addTable, h, List.getElem?_append_left hlt]
    · simp [table?, addTable, h, List.getElem?_append, hlt]
      omega

@[simp] theorem named_addColumn (table : TableId) (column : Column) :
    (c.addColumn table column).2.named = c.named := rfl

theorem table?_addColumn (table : TableId) (column : Column) (id : TableId) :
    (c.addColumn table column).2.table? id = (c.table? id).map fun t =>
      if table = id then { t with columns := t.columns ++ [(c.addColumn table column).1] }
      else t :=
  table?_modifyTable _ table _ id

theorem column?_addColumn (table : TableId) (column : Column) (id : ColumnId) :
    (c.addColumn table column).2.column? id =
      if id = (c.addColumn table column).1 then some { column with table := table }
      else c.column? id := by
  obtain ⟨i⟩ := id
  by_cases h : i = c.columns.length
  · simp [column?, addColumn, modifyTable, h]
  · by_cases hlt : i < c.columns.length
    · simp [column?, addColumn, modifyTable, h, List.getElem?_append_left hlt]
    · simp [column?, addColumn, modifyTable, h, List.getElem?_append, hlt]
      omega

/-- A column that exists is not changed by one that is added. -/
theorem column_addColumn_of_lt (table : TableId) (column : Column) {id : ColumnId}
    (h : id.index < c.columns.length) : (c.addColumn table column).2.column id = c.column id := by
  rw [Catalog.column, column?_addColumn, if_neg, ← Catalog.column]
  rintro rfl
  exact Nat.lt_irrefl _ h

theorem column_addColumn_new (table : TableId) (column : Column) :
    (c.addColumn table column).2.column (c.addColumn table column).1 =
      { column with table := table } := by
  rw [Catalog.column, column?_addColumn, if_pos rfl]
  rfl

theorem columns_addColumn {table : TableId} (h : table.index < c.tables.length) (column : Column) :
    ((c.addColumn table column).2.table table).columns =
      (c.table table).columns ++ [(c.addColumn table column).1] := by
  rw [Catalog.table, table?_addColumn, table?_of_lt h, Option.map_some, if_pos rfl]
  rfl

/-! ### Names taken away and given -/

@[simp] theorem column?_dropTable (id : TableId) (other : ColumnId) :
    (c.dropTable id).column? other = c.column? other := rfl

@[simp] theorem column?_renameTable (id : TableId) (name : String) (other : ColumnId) :
    (c.renameTable id name).column? other = c.column? other := rfl

@[simp] theorem column?_removeColumn (id other : ColumnId) :
    (c.removeColumn id).column? other = c.column? other := rfl

theorem table?_dropTable (id other : TableId) :
    (c.dropTable id).table? other =
      (c.table? other).map fun t => if id = other then { t with dropped := true } else t :=
  table?_modifyTable _ id _ other

theorem table?_renameTable (id : TableId) (name : String) (other : TableId) :
    (c.renameTable id name).table? other = (c.table? other).map fun t =>
      if id = other then { t with name := name, dropped := false } else t := by
  have hmodify : (c.renameTable id name).table? other =
      ((c.dropTable id).modifyTable id fun t =>
        { t with name := name, dropped := false }).table? other := rfl
  rw [hmodify, table?_modifyTable, table?_dropTable, Option.map_map]
  congr 1
  funext t
  by_cases h : id = other <;> simp [h]

theorem table?_removeColumn (id : ColumnId) (other : TableId) :
    (c.removeColumn id).table? other = (c.table? other).map fun t =>
      if (c.column id).table = other then
        { t with columns := t.columns.filter fun column => column ≠ id }
      else t :=
  table?_modifyTable _ _ _ other

theorem named_dropTable (id : TableId) :
    (c.dropTable id).named = c.named.filter fun entry =>
      !(entry.1 == Text.foldCase (c.table id).name && entry.2 == id) := rfl

theorem named_renameTable (id : TableId) (name : String) :
    (c.renameTable id name).named = (c.dropTable id).named ++ [(Text.foldCase name, id)] := rfl

end

/-! ### Growth -/

def HasTable (c : Catalog) (id : TableId) : Prop :=
  id.index < c.tables.length

def HasColumn (c : Catalog) (id : ColumnId) : Prop :=
  id.index < c.columns.length

/-- Whatever the first catalog has, the second has too. -/
structure Grows (c c' : Catalog) : Prop where
  tables : c.tables.length ≤ c'.tables.length
  columns : c.columns.length ≤ c'.columns.length

/-- The catalog has what its names and its tables refer to. -/
structure Closed (c : Catalog) : Prop where
  named : ∀ entry ∈ c.named, c.HasTable entry.2
  columns : ∀ t ∈ c.tables, ∀ id ∈ t.columns, c.HasColumn id

variable {c c' c'' : Catalog}

theorem Grows.refl (c : Catalog) : c.Grows c :=
  ⟨Nat.le_refl _, Nat.le_refl _⟩

theorem Grows.trans (h : c.Grows c') (h' : c'.Grows c'') : c.Grows c'' :=
  ⟨Nat.le_trans h.tables h'.tables, Nat.le_trans h.columns h'.columns⟩

theorem HasTable.mono {id : TableId} (h : c.HasTable id) (hgrow : c.Grows c') : c'.HasTable id :=
  Nat.lt_of_lt_of_le h hgrow.tables

theorem HasColumn.mono {id : ColumnId} (h : c.HasColumn id) (hgrow : c.Grows c') :
    c'.HasColumn id :=
  Nat.lt_of_lt_of_le h hgrow.columns

/-! ### What look-ups give -/

theorem Closed.hasTable_of_findTables (h : c.Closed) {name : String} {id : TableId}
    (hid : id ∈ c.findTables name) : c.HasTable id := by
  obtain ⟨entry, hentry, rfl⟩ := List.mem_map.mp hid
  exact h.named entry (List.mem_filter.mp hentry |>.1)

theorem Closed.hasColumn_of_table (h : c.Closed) {table : TableId} {id : ColumnId}
    (hid : id ∈ (c.table table).columns) : c.HasColumn id := by
  unfold Catalog.table Catalog.table? at hid
  cases htable : c.tables[table.index]? with
  | none =>
    rw [htable] at hid
    exact absurd hid List.not_mem_nil
  | some t =>
    rw [htable] at hid
    exact h.columns t (List.mem_of_getElem? htable) id hid

theorem Closed.hasColumn_of_findColumns (h : c.Closed) {table : TableId} {name : String}
    {id : ColumnId} (hid : id ∈ c.findColumns table name) : c.HasColumn id :=
  h.hasColumn_of_table (List.mem_filter.mp hid).1

/-! ### What changes keep -/

/-- A change that goes on from a closed catalog to a closed one. -/
def Extends (c c' : Catalog) : Prop :=
  c.Closed → c'.Closed ∧ c.Grows c'

theorem Extends.refl (c : Catalog) : c.Extends c :=
  fun h => ⟨h, .refl c⟩

theorem Extends.trans (h : c.Extends c') (h' : c'.Extends c'') : c.Extends c'' := by
  intro hc
  obtain ⟨hc', hgrow⟩ := h hc
  obtain ⟨hc'', hgrow'⟩ := h' hc'
  exact ⟨hc'', hgrow.trans hgrow'⟩

theorem Extends.foldl {α : Type} {f : Catalog → α → Catalog} (hf : ∀ c a, Extends c (f c a))
    (as : List α) : ∀ c, Extends c (as.foldl f c) := by
  induction as with
  | nil => exact Extends.refl
  | cons a as ih => exact fun c => (hf c a).trans (ih (f c a))

theorem extends_modifyColumn (c : Catalog) (id : ColumnId) (f : Column → Column) :
    c.Extends (c.modifyColumn id f) := by
  intro h
  have hlength : (c.modifyColumn id f).columns.length = c.columns.length := by
    simp [modifyColumn]
  refine ⟨⟨h.named, ?_⟩, Nat.le_refl _, Nat.le_of_eq hlength.symm⟩
  intro t ht other hother
  exact Nat.lt_of_lt_of_eq (h.columns t ht other hother) hlength.symm

/-- A table may get any columns that exist. -/
theorem extends_modifyTable (c : Catalog) (id : TableId) {f : Table → Table}
    (hf : ∀ t, ∀ column ∈ (f t).columns, column ∈ t.columns ∨ c.HasColumn column) :
    c.Extends (c.modifyTable id f) := by
  intro h
  have hlength : (c.modifyTable id f).tables.length = c.tables.length := by
    simp [modifyTable]
  refine ⟨⟨?_, ?_⟩, Nat.le_of_eq hlength.symm, Nat.le_refl _⟩
  · intro entry hentry
    exact Nat.lt_of_lt_of_eq (h.named entry hentry) hlength.symm
  · intro t ht column hcolumn
    obtain ⟨i, hi⟩ := List.mem_iff_getElem?.mp ht
    simp only [modifyTable, List.getElem?_modify] at hi
    obtain ⟨old, hold, rfl⟩ := Option.map_eq_some_iff.mp hi
    have hmem : old ∈ c.tables := List.mem_of_getElem? hold
    split at hcolumn
    · rcases hf old column hcolumn with hcolumn | hcolumn
      · exact h.columns old hmem column hcolumn
      · exact hcolumn
    · exact h.columns old hmem column hcolumn

/-- Names may be taken away, and given to any tables that exist. -/
theorem extends_named (c : Catalog) {named : List (String × TableId)}
    (hnamed : ∀ entry ∈ named, entry ∈ c.named ∨ c.HasTable entry.2) :
    c.Extends { c with named := named } := by
  intro h
  refine ⟨⟨?_, h.columns⟩, Nat.le_refl _, Nat.le_refl _⟩
  intro entry hentry
  rcases hnamed entry hentry with hold | hnew
  · exact h.named entry hold
  · exact hnew

theorem grows_addTable (c : Catalog) (name : String) (origin : TableOrigin) :
    c.Grows (c.addTable name origin).2 := by
  constructor <;> simp [addTable]

theorem hasTable_addTable (c : Catalog) (name : String) (origin : TableOrigin) :
    (c.addTable name origin).2.HasTable (c.addTable name origin).1 := by
  simp [addTable, HasTable]

theorem extends_addTable (c : Catalog) (name : String) (origin : TableOrigin) :
    c.Extends (c.addTable name origin).2 := by
  intro h
  have hgrow := grows_addTable c name origin
  refine ⟨⟨?_, ?_⟩, hgrow⟩
  · intro entry hentry
    have hcases : entry ∈ c.named ∨ entry.2 = (c.addTable name origin).1 := by
      simp only [addTable] at hentry ⊢
      split at hentry
      · exact .inl hentry
      · rcases List.mem_append.mp hentry with hold | hnew
        · exact .inl hold
        · exact .inr (congrArg Prod.snd (List.mem_singleton.mp hnew))
    rcases hcases with hold | hnew
    · exact (h.named entry hold).mono hgrow
    · exact hnew ▸ hasTable_addTable c name origin
  · intro t ht column hcolumn
    have hcases : t ∈ c.tables ∨ t.columns = [] := by
      rcases List.mem_append.mp ht with hold | hnew
      · exact .inl hold
      · exact .inr (congrArg Table.columns (List.mem_singleton.mp hnew))
    rcases hcases with hold | hnew
    · exact (h.columns t hold column hcolumn).mono hgrow
    · rw [hnew] at hcolumn
      exact absurd hcolumn List.not_mem_nil

theorem hasColumn_addColumn (c : Catalog) (table : TableId) (column : Column) :
    (c.addColumn table column).2.HasColumn (c.addColumn table column).1 := by
  simp [addColumn, HasColumn, modifyTable]

theorem extends_addColumn (c : Catalog) (table : TableId) (column : Column) :
    c.Extends (c.addColumn table column).2 := by
  -- First the column alone, then its place in the table.
  have hadded : c.Extends { c with columns := c.columns ++ [{ column with table := table }] } := by
    intro h
    have hgrow : c.Grows { c with columns := c.columns ++ [{ column with table := table }] } := by
      constructor <;> simp
    exact ⟨⟨h.named, fun t ht other hother => (h.columns t ht other hother).mono hgrow⟩, hgrow⟩
  refine hadded.trans (extends_modifyTable _ table ?_)
  intro t other hother
  rcases List.mem_append.mp hother with hold | hnew
  · exact .inl hold
  · rw [List.mem_singleton.mp hnew]
    exact .inr (by simp [HasColumn])

theorem extends_copyColumns (c : Catalog) (source target : TableId) :
    c.Extends (c.copyColumns source target) := by
  apply Extends.foldl
  intro copied id
  exact extends_addColumn copied target _

theorem extends_dropTable (c : Catalog) (id : TableId) : c.Extends (c.dropTable id) := by
  have hnamed : c.Extends { c with
      named := c.named.filter fun entry =>
        !(entry.1 == Text.foldCase (c.table id).name && entry.2 == id) } :=
    extends_named c fun entry hentry => .inl (List.mem_filter.mp hentry).1
  exact hnamed.trans (extends_modifyTable _ id fun _ _ hcolumn => .inl hcolumn)

theorem extends_renameTable {c : Catalog} {id : TableId} (hid : c.HasTable id) (name : String) :
    c.Extends (c.renameTable id name) := by
  have hrenamed : c.Extends ((c.dropTable id).modifyTable id fun t =>
      { t with name := name, dropped := false }) :=
    (extends_dropTable c id).trans (extends_modifyTable _ id fun _ _ hcolumn => .inl hcolumn)
  intro h
  obtain ⟨-, hgrow⟩ := hrenamed h
  refine (hrenamed.trans (extends_named _ ?_)) h
  intro entry hentry
  rcases List.mem_append.mp hentry with hold | hnew
  · exact .inl hold
  · rw [List.mem_singleton.mp hnew]
    exact .inr (hid.mono hgrow)

theorem extends_removeColumn (c : Catalog) (id : ColumnId) : c.Extends (c.removeColumn id) :=
  extends_modifyTable c _ fun _ _ hcolumn => .inl (List.mem_filter.mp hcolumn).1

/-! ### Catalogs of schemas -/

theorem closed_empty : empty.Closed :=
  ⟨fun _ hentry => absurd hentry List.not_mem_nil, fun _ ht => absurd ht List.not_mem_nil⟩

theorem extends_addDescribedTable (c : Catalog) (number : Nat) (d : TableDescriptor) :
    c.Extends (c.addDescribedTable number d) := by
  have hadded : c.Extends ((c.addTable d.name .schema).2.modifyTable (c.addTable d.name .schema).1
      fun t => { t with rowCount := d.rowCount }) :=
    (extends_addTable c d.name .schema).trans
      (extends_modifyTable _ _ fun _ _ hcolumn => .inl hcolumn)
  refine hadded.trans (Extends.foldl ?_ d.columns.zipIdx _)
  rintro c ⟨column, i⟩
  exact extends_addColumn c _ _

theorem extends_linkKey (c : Catalog) (table : TableId) (key : ForeignKeyDescriptor) :
    c.Extends (c.linkKey table key) := by
  unfold linkKey
  split
  · exact extends_modifyColumn c _ _
  · exact .refl c

/-- A schema, however inconsistent, gives a closed catalog. -/
theorem closed_ofDescriptors (descriptors : List TableDescriptor) :
    (ofDescriptors descriptors).Closed := by
  have htables := Extends.foldl
    (fun c (entry : TableDescriptor × Nat) => extends_addDescribedTable c entry.2 entry.1)
    descriptors.zipIdx empty
  have hkeys := Extends.foldl (fun c (entry : TableDescriptor × Nat) =>
      Extends.foldl (fun c key => extends_linkKey c ⟨entry.2⟩ key) entry.1.foreignKeys c)
    descriptors.zipIdx
  exact ((htables.trans (hkeys _)) closed_empty).1

end SqlAnalysis.Catalog
