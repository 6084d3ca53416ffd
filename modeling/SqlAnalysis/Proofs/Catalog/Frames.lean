import SqlAnalysis.Proofs.Catalog.Edits

/-!
# What edits leave alone

An edit changes no record but those of tables that may be changed and of their columns.
A column belongs to a table that exists, so a table that is new does not take any
column over. Without the right to names only results of queries are added.
-/
namespace SqlAnalysis.Catalog

/-- The records of all other tables and of their columns stay as they are. -/
structure KeepsOutside (changed : TableId → Prop) (c c' : Catalog) : Prop where
  table : ∀ id t, ¬changed id → c.table? id = some t → c'.table? id = some t
  column : ∀ id entry, ¬changed entry.table → c.column? id = some entry →
    c'.column? id = some entry

/-- Every column belongs to a table that exists. -/
def Owned (c : Catalog) : Prop :=
  ∀ id entry, c.column? id = some entry → c.HasTable entry.table

/-- The second catalog has the names of the first, and results of queries besides. -/
structure OnlyAddsResults (c c' : Catalog) : Prop where
  named : c'.named = c.named
  derived : ∀ id t, c'.table? id = some t → c.HasTable id ∨ t.origin = .derived

variable {own : Rights} {changed changed' : TableId → Prop} {c c' c'' : Catalog}

/-! ### Records -/

namespace KeepsOutside

theorem refl (c : Catalog) : KeepsOutside changed c c :=
  ⟨fun _ _ _ ht => ht, fun _ _ _ hentry => hentry⟩

theorem trans (h : KeepsOutside changed c c') (h' : KeepsOutside changed c' c'') :
    KeepsOutside changed c c'' where
  table id t hid ht := h'.table id t hid (h.table id t hid ht)
  column id entry hid hentry := h'.column id entry hid (h.column id entry hid hentry)

theorem addTable (c : Catalog) (name : String) (origin : TableOrigin) :
    KeepsOutside changed c (c.addTable name origin).2 := by
  refine ⟨fun id t _ ht => ?_, fun _ _ _ hentry => hentry⟩
  rw [table?_addTable, if_neg, ht]
  rintro rfl
  exact absurd (lt_of_table? ht) (Nat.lt_irrefl _)

theorem addColumn {table : TableId} (h : changed table) (column : Column) :
    KeepsOutside changed c (c.addColumn table column).2 := by
  constructor
  · intro id t hid ht
    have hne : table ≠ id := by
      rintro rfl
      exact hid h
    rw [table?_addColumn, ht, Option.map_some, if_neg hne]
  · intro id entry _ hentry
    rw [column?_addColumn, if_neg, hentry]
    rintro rfl
    exact absurd (lt_of_column? hentry) (Nat.lt_irrefl _)

/-- The table of the change may be changed, and columns stay as they are. -/
theorem modifyTable {id : TableId} (h : changed id) {f : Table → Table}
    (htable : ∀ other, c'.table? other =
      (c.table? other).map fun t => if id = other then f t else t)
    (hcolumn : ∀ other, c'.column? other = c.column? other) : KeepsOutside changed c c' := by
  refine ⟨fun other t hother ht => ?_, fun other entry _ hentry => (hcolumn other).trans hentry⟩
  have hne : id ≠ other := by
    rintro rfl
    exact hother h
  rw [htable, ht, Option.map_some, if_neg hne]

theorem modifyColumn {id : ColumnId} (h : changed (c.column id).table) (f : Column → Column) :
    KeepsOutside changed c (c.modifyColumn id f) := by
  refine ⟨fun _ _ _ ht => ht, fun other entry hother hentry => ?_⟩
  have hne : id ≠ other := by
    rintro rfl
    rw [column_eq_of_column? hentry] at h
    exact hother h
  rw [column?_modifyColumn, hentry, Option.map_some, if_neg hne]

end KeepsOutside

theorem Edit.keepsOutside (h : Edit own c c') : KeepsOutside own c c' := by
  cases h with
  | addResult name => exact .addTable c name .derived
  | addTable hnames hfree => exact .addTable c _ .created
  | addColumn hown htable href hfree => exact .addColumn hown _
  | markKey hown => exact .modifyColumn hown _
  | link hown htarget => exact .modifyColumn hown _
  | removeColumn hown => exact .modifyTable hown (table?_removeColumn c _) fun _ => rfl
  | renameColumn hown hfree => exact .modifyColumn hown _
  | renameTable hnames hown hlive hfree =>
    exact .modifyTable hown (table?_renameTable c _ _) fun _ => rfl
  | dropTable hnames hown hlive => exact .modifyTable hown (table?_dropTable c _) fun _ => rfl

theorem Edits.keepsOutside (h : Edits own c c') : KeepsOutside own c c' := by
  induction h with
  | refl => exact .refl c
  | tail _ hedit ih => exact ih.trans hedit.keepsOutside

/-- A new table has none of the columns that exist, so what may be done to new tables
changes no record. -/
theorem KeepsOutside.of_new (h : KeepsOutside (fun id => changed id ∨ ¬c.HasTable id) c c')
    (hc : c.Owned) : KeepsOutside changed c c' where
  table id t hid ht := by
    refine h.table id t (fun hchanged => ?_) ht
    exact hchanged.elim hid fun hnew => hnew (lt_of_table? ht)
  column id entry hid hentry := by
    refine h.column id entry (fun hchanged => ?_) hentry
    exact hchanged.elim hid fun hnew => hnew (hc id entry hentry)

/-! ### Owners -/

namespace Owned

theorem addTable (h : c.Owned) (name : String) (origin : TableOrigin) :
    (c.addTable name origin).2.Owned :=
  fun id entry hentry => (Preserves.addTable c name origin).hasTable (h id entry hentry)

theorem addColumn (h : c.Owned) {table : TableId} (htable : c.HasTable table) (column : Column) :
    (c.addColumn table column).2.Owned := by
  intro id entry hentry
  refine (Preserves.addColumn c table column).hasTable ?_
  rw [column?_addColumn] at hentry
  split at hentry
  · obtain rfl := Option.some.inj hentry
    exact htable
  · exact h id entry hentry

theorem modifyTable (h : c.Owned) (hcolumn : ∀ id, c'.column? id = c.column? id)
    (hpreserves : c.Preserves c') : c'.Owned :=
  fun id entry hentry => hpreserves.hasTable (h id entry ((hcolumn id).symm.trans hentry))

theorem modifyColumn (h : c.Owned) (id : ColumnId) {f : Column → Column}
    (hf : ∀ entry, (f entry).table = entry.table) : (c.modifyColumn id f).Owned := by
  intro other entry hentry
  rw [column?_modifyColumn] at hentry
  obtain ⟨old, hold, rfl⟩ := Option.map_eq_some_iff.mp hentry
  have htable : (if id = other then f old else old).table = old.table := by
    split
    · exact hf old
    · rfl
  rw [htable]
  exact h other old hold

theorem addDescribedTable (h : c.Owned) (number : Nat) (d : TableDescriptor) :
    (c.addDescribedTable number d).Owned := by
  have hadded : (c.addTable d.name .schema).2.HasTable (c.addTable d.name .schema).1 :=
    hasTable_addTable _ _ _
  have hrows := Preserves.modifyTable (c.addTable d.name .schema).2 (c.addTable d.name .schema).1
    (f := fun t => { t with rowCount := d.rowCount }) fun _ => rfl
  refine (List.foldlRecOn (motive := fun c' : Catalog =>
    c'.HasTable (c.addTable d.name .schema).1 ∧ c'.Owned) _ _ ⟨hrows.hasTable hadded, ?_⟩
    fun c' h _ _ => ?_).2
  · exact Owned.modifyTable (h.addTable d.name .schema) (fun _ => rfl) hrows
  · exact ⟨(Preserves.addColumn c' _ _).hasTable h.1, h.2.addColumn h.1 _⟩

theorem ofDescriptors (descriptors : List TableDescriptor) :
    (Catalog.ofDescriptors descriptors).Owned := by
  have hempty : Catalog.empty.Owned := by
    intro id entry hentry
    simp [Catalog.empty, column?] at hentry
  have htables := List.foldlRecOn descriptors.zipIdx
    (fun c (entry : TableDescriptor × Nat) => c.addDescribedTable entry.2 entry.1) hempty
    fun c h entry _ => h.addDescribedTable entry.2 entry.1
  refine List.foldlRecOn _ _ htables fun c h entry _ => List.foldlRecOn _ _ h fun c h key _ => ?_
  unfold linkKey
  split
  · exact h.modifyColumn _ fun _ => rfl
  · exact h

end Owned

theorem Edit.owned (h : Edit own c c') (hc : c.Owned) : c'.Owned := by
  have hpreserves := h.preserves
  cases h with
  | addResult name => exact hc.addTable name .derived
  | addTable hnames hfree => exact hc.addTable _ .created
  | addColumn hown htable href hfree => exact hc.addColumn htable _
  | markKey hown => exact hc.modifyColumn _ fun _ => rfl
  | link hown htarget => exact hc.modifyColumn _ fun _ => rfl
  | renameColumn hown hfree => exact hc.modifyColumn _ fun _ => rfl
  | _ => exact hc.modifyTable (fun _ => rfl) hpreserves

theorem Edits.owned (h : Edits own c c') (hc : c.Owned) : c'.Owned := by
  induction h with
  | refl => exact hc
  | tail _ hedit ih => exact hedit.owned ih

/-! ### Results of queries -/

theorem OnlyAddsResults.trans (h : c.OnlyAddsResults c') (h' : c'.OnlyAddsResults c'')
    (hpreserves : c'.Preserves c'') : c.OnlyAddsResults c'' where
  named := h'.named.trans h.named
  derived id t ht := by
    rcases h'.derived id t ht with hold | hnew
    · have hbefore := table?_of_lt hold
      obtain ⟨t', ht', horigin⟩ := hpreserves.table id _ hbefore
      obtain rfl := Option.some.inj (ht.symm.trans ht')
      rw [horigin]
      exact h.derived id _ hbefore
    · exact .inr hnew

theorem Edit.onlyAddsResults (h : Edit own c c') (hnames : ¬own.names) : c.OnlyAddsResults c' := by
  have hmodified : ∀ {c' : Catalog} {f : TableId → Table → Table}, c'.named = c.named →
      (∀ id, c'.table? id = (c.table? id).map (f id)) → c.OnlyAddsResults c' := by
    intro c' f hnamed htable
    refine ⟨hnamed, fun id t ht => .inl ?_⟩
    obtain ⟨old, hold, -⟩ := Option.map_eq_some_iff.mp ((htable id).symm.trans ht)
    exact lt_of_table? hold
  cases h with
  | addResult name =>
    refine ⟨rfl, fun id t ht => ?_⟩
    rw [table?_addTable] at ht
    split at ht
    · obtain rfl := Option.some.inj ht
      exact .inr rfl
    · exact .inl (lt_of_table? ht)
  | addColumn hown htable href hfree => exact hmodified rfl (table?_addColumn c _ _)
  | removeColumn hown => exact hmodified rfl (table?_removeColumn c _)
  | addTable hallowed hfree => exact absurd hallowed hnames
  | renameTable hallowed hown hlive hfree => exact absurd hallowed hnames
  | dropTable hallowed hown hlive => exact absurd hallowed hnames
  | _ => exact ⟨rfl, fun id t ht => .inl (lt_of_table? ht)⟩

theorem Edits.onlyAddsResults (h : Edits own c c') (hnames : ¬own.names) :
    c.OnlyAddsResults c' := by
  induction h with
  | refl => exact ⟨rfl, fun id t ht => .inl (lt_of_table? ht)⟩
  | tail _ hedit ih => exact ih.trans (hedit.onlyAddsResults hnames) hedit.preserves

/-! ### Columns by name and type

A query sees of a table the names and types of its columns in order. A column that is added
comes last, copied columns come as they stand in the table they are copied from, and edits of
other tables do not matter. -/

variable {growing : TableId → Prop} {table : TableId}

/-- The records of the columns of a table in order. -/
def entries (c : Catalog) (table : TableId) : List Column :=
  (c.table table).columns.map c.column

/-- The names and types of the columns of a table in order. -/
def outputs (c : Catalog) (table : TableId) : List (String × Option SqlType) :=
  (c.table table).columns.map fun id => ((c.column id).name, (c.column id).type)

theorem outputs_eq_map_entries (c : Catalog) (table : TableId) :
    c.outputs table = (c.entries table).map fun entry => (entry.name, entry.type) := by
  rw [outputs, entries, List.map_map]
  rfl

/-- Tables that may not be changed keep their columns. -/
theorem KeepsOutside.entries_eq (h : KeepsOutside changed c c') (hc : c.Indexed)
    (htable : c.HasTable table) (hkept : ¬changed table) : c'.entries table = c.entries table := by
  have hrecord := h.table table _ hkept (table?_of_lt htable)
  unfold entries
  rw [table_eq_of_table? hrecord]
  refine List.map_congr_left fun id hid => ?_
  obtain ⟨hhas, howner⟩ := hc.owner_of_mem hid
  exact column_eq_of_column? (h.column id _ (howner ▸ hkept) (column?_of_lt hhas))

theorem entries_addColumn (hc : c.Indexed) (htable : c.HasTable table) (column : Column) :
    (c.addColumn table column).2.entries table =
      c.entries table ++ [{ column with table := table }] := by
  unfold entries
  rw [columns_addColumn c htable, List.map_append, List.map_singleton, column_addColumn_new]
  congr 1
  exact List.map_congr_left fun id hid =>
    column_addColumn_of_lt c table column (hc.owner_of_mem hid).1

/-! ### What edits keep -/

/-- Tables that exist show the same columns as before, but for those that grow. -/
structure KeepsOutputs (growing : TableId → Prop) (c c' : Catalog) : Prop where
  preserves : c.Preserves c'
  outputs : ∀ table, c.HasTable table → ¬growing table → c'.outputs table = c.outputs table

namespace KeepsOutputs

theorem refl (c : Catalog) : c.KeepsOutputs growing c :=
  ⟨.refl c, fun _ _ _ => rfl⟩

theorem trans (h : c.KeepsOutputs growing c') (h' : c'.KeepsOutputs growing c'') :
    c.KeepsOutputs growing c'' where
  preserves := h.preserves.trans h'.preserves
  outputs table htable hstill := by
    rw [h'.outputs table (h.preserves.hasTable htable) hstill, h.outputs table htable hstill]

/-- A table that was not there at first may grow as well. -/
theorem trans_new {new : TableId} (h : c.KeepsOutputs growing c')
    (h' : c'.KeepsOutputs (fun table => growing table ∨ table = new) c'')
    (hnew : ¬c.HasTable new) : c.KeepsOutputs growing c'' where
  preserves := h.preserves.trans h'.preserves
  outputs table htable hstill := by
    have hother : ¬(growing table ∨ table = new) := by
      rintro (hgrows | rfl)
      · exact hstill hgrows
      · exact hnew htable
    rw [h'.outputs table (h.preserves.hasTable htable) hother, h.outputs table htable hstill]

/-- What may only edit new tables and those that grow keeps the others. -/
theorem of_edits (hc : c.Indexed) (hown : ∀ table, c.HasTable table → own table → growing table)
    (h : Edits own c c') : c.KeepsOutputs growing c' := by
  refine ⟨h.preserves, fun table htable hstill => ?_⟩
  have hkept : ¬own table := fun ho => hstill (hown table htable ho)
  rw [outputs_eq_map_entries, outputs_eq_map_entries, h.keepsOutside.entries_eq hc htable hkept]

end KeepsOutputs

/-! ### Tables and columns that are added -/

theorem outputs_addTable_new (name : String) (origin : TableOrigin) :
    (c.addTable name origin).2.outputs (c.addTable name origin).1 = [] := by
  have hnew := c.table?_addTable name origin (c.addTable name origin).1
  rw [if_pos rfl] at hnew
  rw [outputs, table_eq_of_table? hnew, List.map_nil]

theorem keepsOutputs_addTable (hc : c.Indexed) (name : String) :
    c.KeepsOutputs growing (c.addTable name .derived).2 := by
  have hedits : Edits ⟨fun _ => False, False⟩ c (c.addTable name .derived).2 :=
    .single (.addResult name)
  exact .of_edits hc (fun _ _ hown => absurd hown not_false) hedits

theorem outputs_addColumn (hc : c.Indexed) (htable : c.HasTable table) (column : Column) :
    (c.addColumn table column).2.outputs table =
      c.outputs table ++ [(column.name, column.type)] := by
  rw [outputs_eq_map_entries, entries_addColumn hc htable, List.map_append,
    ← outputs_eq_map_entries, List.map_singleton]

theorem outputs_copyColumns {source target : TableId} (hc : c.Indexed)
    (htarget : c.HasTable target) :
    (c.copyColumns source target).outputs target = c.outputs target ++ c.outputs source := by
  have hfold : ∀ (ids : List ColumnId) (copied : Catalog), copied.Indexed →
      copied.HasTable target → (ids.foldl (fun copied id =>
        (copied.addColumn target
          { Column.plain (c.column id).name (c.column id).type target with
            primaryKey := (c.column id).primaryKey }).2) copied).outputs target =
        copied.outputs target ++ ids.map fun id => ((c.column id).name, (c.column id).type) := by
    intro ids
    induction ids with
    | nil => exact fun copied _ _ => (List.append_nil _).symm
    | cons id ids ih =>
      intro copied hcopied hhas
      rw [List.foldl_cons, ih _ (hcopied.addColumn target rfl)
        ((Preserves.addColumn copied target _).hasTable hhas), outputs_addColumn hcopied hhas,
        List.map_cons, List.append_assoc]
      rfl
  exact hfold _ c hc htarget

theorem keepsOutputs_copyColumns (source : TableId) {target : TableId} (hc : c.Indexed)
    (htarget : c.HasTable target) (hderived : (c.table target).origin = .derived) :
    c.KeepsOutputs (· = target) (c.copyColumns source target) ∧
      (c.copyColumns source target).Indexed := by
  have hedits : Edits ⟨(· = target), False⟩ c (c.copyColumns source target) :=
    edits_copyColumns htarget rfl hderived
  exact ⟨.of_edits hc (fun _ _ hown => hown) hedits, hedits.indexed hc⟩

/-- Sources that are copied one after the other are shown one after the other. -/
theorem outputs_copyAll {target : TableId} {sources : List (String × TableId)}
    (hsources : ∀ entry ∈ sources, c.HasTable entry.2 ∧ entry.2 ≠ target) (hc : c.Indexed)
    (htarget : c.HasTable target) (hderived : (c.table target).origin = .derived) :
    (sources.foldl (fun c entry => c.copyColumns entry.2 target) c).outputs target =
      c.outputs target ++ sources.flatMap fun entry => c.outputs entry.2 := by
  induction sources generalizing c with
  | nil => exact (List.append_nil _).symm
  | cons first sources ih =>
    obtain ⟨-, hrest⟩ := List.forall_mem_cons.mp hsources
    obtain ⟨hkeeps, hindexed⟩ := keepsOutputs_copyColumns first.2 hc htarget hderived
    have hlater : ∀ entry ∈ sources,
        (c.copyColumns first.2 target).outputs entry.2 = c.outputs entry.2 :=
      fun entry hentry => hkeeps.outputs _ (hrest entry hentry).1 (hrest entry hentry).2
    rw [List.foldl_cons, ih (fun entry hentry =>
      ⟨hkeeps.preserves.hasTable (hrest entry hentry).1, (hrest entry hentry).2⟩) hindexed
      (hkeeps.preserves.hasTable htarget) ((hkeeps.preserves.origin_eq htarget).trans hderived),
      outputs_copyColumns hc htarget, List.flatMap_cons, List.append_assoc]
    congr 2
    exact List.flatMap_congr hlater

end SqlAnalysis.Catalog
