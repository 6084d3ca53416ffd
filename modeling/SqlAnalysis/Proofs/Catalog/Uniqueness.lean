import SqlAnalysis.Proofs.Catalog.Edits

/-!
# Unique names

A schema may give one name to several tables and to several columns of a table.
Where it does not, no edit does either: an edit gives a name only when nothing has
it. Results of queries are left out, as their columns may well be called the same.
-/
namespace SqlAnalysis.Catalog

/-- No two tables that can be found by name have names that differ at most by case. -/
def TablesUnique (c : Catalog) : Prop :=
  ∀ a b, c.IsLive a → c.IsLive b →
    Text.sameName (c.table a).name (c.table b).name = true → a = b

/-- No two columns of a table do, unless the table is the result of a query. -/
def ColumnsUnique (c : Catalog) : Prop :=
  ∀ id t, c.table? id = some t → t.origin ≠ .derived → ∀ a ∈ t.columns, ∀ b ∈ t.columns,
    Text.sameName (c.column a).name (c.column b).name = true → a = b

structure NamesUnique (c : Catalog) : Prop where
  tables : c.TablesUnique
  columns : c.ColumnsUnique

variable {own : Rights} {c c' : Catalog}

theorem length_le_one {α : Type} {l : List α} (hnodup : l.Nodup)
    (heq : ∀ a ∈ l, ∀ b ∈ l, a = b) : l.length ≤ 1 := by
  match l, hnodup, heq with
  | [], _, _ => exact Nat.zero_le 1
  | [_], _, _ => exact Nat.le_refl 1
  | a :: b :: rest, hnodup, heq =>
    have hab : a = b := heq a (by simp) b (by simp)
    exact absurd (hab ▸ List.mem_cons_self) (List.nodup_cons.mp hnodup).1

/-! ### What look-ups find -/

theorem sameName_of_findColumns {table : TableId} {name : String} {a b : ColumnId}
    (ha : a ∈ c.findColumns table name) (hb : b ∈ c.findColumns table name) :
    Text.sameName (c.column a).name (c.column b).name = true := by
  have hname := (Text.sameName_iff _ _).mp (List.mem_filter.mp ha).2
  have hname' := (Text.sameName_iff _ _).mp (List.mem_filter.mp hb).2
  exact (Text.sameName_iff _ _).mpr (hname.trans hname'.symm)

theorem NamesUnique.length_findTables (h : c.NamesUnique) (hc : c.Indexed) (name : String) :
    (c.findTables name).length ≤ 1 := by
  refine length_le_one (hc.findTables_nodup name) fun a ha b hb => ?_
  obtain ⟨hlive, hname⟩ := hc.mem_findTables_iff.mp ha
  obtain ⟨hlive', hname'⟩ := hc.mem_findTables_iff.mp hb
  rw [Text.sameName_iff] at hname hname'
  exact h.tables a b hlive hlive' ((Text.sameName_iff _ _).mpr (hname.trans hname'.symm))

theorem NamesUnique.length_findColumns (h : c.NamesUnique) (hc : c.Indexed) {table : TableId}
    (horigin : (c.table table).origin ≠ .derived) (name : String) :
    (c.findColumns table name).length ≤ 1 := by
  refine length_le_one ((hc.table_columns_nodup table).filter _) fun a ha b hb => ?_
  have hmem := (List.mem_filter.mp ha).1
  rcases Indexed.table_cases c table with ⟨t, ht, heq⟩ | hnone
  · rw [heq] at horigin hmem
    exact h.columns table t ht horigin a hmem b (heq ▸ (List.mem_filter.mp hb).1)
      (sameName_of_findColumns ha hb)
  · exact absurd (hnone ▸ hmem) List.not_mem_nil

/-! ### What edits keep -/

/-- No two tables are listed under one name. -/
def NamedOnce (c : Catalog) : Prop :=
  ∀ key a b, (key, a) ∈ c.named → (key, b) ∈ c.named → a = b

theorem Indexed.namedOnce_iff (hc : c.Indexed) : c.NamedOnce ↔ c.TablesUnique := by
  constructor
  · rintro h a b ⟨t, ht, hlive⟩ ⟨t', ht', hlive'⟩ hname
    rw [table_eq_of_table? ht, table_eq_of_table? ht', Text.sameName_iff] at hname
    exact h _ a b ((hc.named _).mpr ⟨t, ht, hlive, rfl⟩)
      ((hc.named _).mpr ⟨t', ht', hlive', hname⟩)
  · intro h key a b ha hb
    obtain ⟨t, ht, hlive, hkey⟩ := (hc.named _).mp ha
    obtain ⟨t', ht', hlive', hkey'⟩ := (hc.named _).mp hb
    refine h a b ⟨t, ht, hlive⟩ ⟨t', ht', hlive'⟩ ?_
    rw [table_eq_of_table? ht, table_eq_of_table? ht', Text.sameName_iff]
    exact hkey.symm.trans hkey'

theorem not_mem_named_of_findTables {name : String} (h : c.findTables name = []) (id : TableId) :
    (Text.foldCase name, id) ∉ c.named := by
  rw [← mem_findTables, h]
  exact List.not_mem_nil

/-- A table that takes a name which no other has leaves every name to one table. -/
theorem NamedOnce.append (h : c.NamedOnce) {name : String} {id : TableId}
    (hfree : ∀ other, (Text.foldCase name, other) ∉ c.named)
    (hnamed : c'.named = c.named ++ [(Text.foldCase name, id)]) : c'.NamedOnce := by
  intro key a b ha hb
  simp only [hnamed, List.mem_append, List.mem_singleton, Prod.mk.injEq] at ha hb
  rcases ha with ha | ⟨rfl, rfl⟩ <;> rcases hb with hb | ⟨hkey, rfl⟩
  · exact h key a b ha hb
  · exact absurd (hkey ▸ ha) (hfree a)
  · exact absurd hb (hfree b)
  · rfl

theorem NamedOnce.dropTable (h : c.NamedOnce) (id : TableId) : (c.dropTable id).NamedOnce :=
  fun key a b ha hb => h key a b (List.mem_filter.mp ha).1 (List.mem_filter.mp hb).1

theorem Edit.namedOnce (h : Edit own c c') (hc : c.NamedOnce) : c'.NamedOnce := by
  cases h with
  | addTable hnames hfree => exact hc.append (not_mem_named_of_findTables hfree) rfl
  | renameTable hnames hown hlive hfree =>
    refine (hc.dropTable _).append (fun other hmem => ?_) (named_renameTable c _ _)
    exact not_mem_named_of_findTables hfree other (List.mem_filter.mp hmem).1
  | dropTable hnames hown hlive => exact hc.dropTable _
  | _ => exact hc

/-- Names are unique if the keys of the index and the folded names of the columns are. -/
theorem NamesUnique.of_nodup (hc : c.Indexed) (htables : (c.named.map Prod.fst).Nodup)
    (hcolumns : ∀ t ∈ c.tables,
      (t.columns.map fun id => Text.foldCase (c.column id).name).Nodup) : c.NamesUnique where
  tables := by
    refine hc.namedOnce_iff.mp fun key a b ha hb => ?_
    exact (Prod.mk.inj (List.inj_on_of_nodup_map htables ha hb rfl)).2
  columns := by
    intro id t ht _ a ha b hb hsame
    have hmem : t ∈ c.tables := List.mem_of_getElem? ht
    exact List.inj_on_of_nodup_map (hcolumns t hmem) ha hb ((Text.sameName_iff _ _).mp hsame)

/-- A change after which every table has the columns that it had, or fewer of them, all
under the names that they had. -/
theorem ColumnsUnique.of_fewer (h : c.ColumnsUnique)
    (htable : ∀ id t', c'.table? id = some t' → t'.columns = [] ∨
      ∃ t, c.table? id = some t ∧ t.origin = t'.origin ∧ t'.columns ⊆ t.columns)
    (hname : ∀ id, (c'.column id).name = (c.column id).name) : c'.ColumnsUnique := by
  intro id t' ht' horigin a ha b hb hsame
  rw [hname, hname] at hsame
  rcases htable id t' ht' with hnone | ⟨t, ht, heq, hsub⟩
  · exact absurd (hnone ▸ ha) List.not_mem_nil
  · exact h id t ht (heq ▸ horigin) a (hsub ha) b (hsub hb) hsame

theorem ColumnsUnique.addTable (h : c.ColumnsUnique) (name : String) (origin : TableOrigin) :
    (c.addTable name origin).2.ColumnsUnique := by
  refine h.of_fewer (fun id t' ht' => ?_) fun _ => rfl
  rw [table?_addTable] at ht'
  split at ht'
  · obtain rfl := Option.some.inj ht'
    exact .inl rfl
  · exact .inr ⟨t', ht', rfl, List.Subset.refl _⟩

theorem ColumnsUnique.modifyTable (h : c.ColumnsUnique) {c' : Catalog} {f : TableId → Table → Table}
    (hmodify : ∀ id, c'.table? id = (c.table? id).map (f id))
    (hf : ∀ id t, (f id t).origin = t.origin ∧ (f id t).columns ⊆ t.columns)
    (hcolumn : ∀ id, c'.column? id = c.column? id) : c'.ColumnsUnique := by
  refine h.of_fewer (fun id t' ht' => ?_) fun id => by rw [column, column, hcolumn]
  rw [hmodify] at ht'
  obtain ⟨t, ht, rfl⟩ := Option.map_eq_some_iff.mp ht'
  exact .inr ⟨t, ht, (hf id t).1.symm, (hf id t).2⟩

/-- Constraints of a column have no say in its name. -/
theorem ColumnsUnique.modifyColumn (h : c.ColumnsUnique) (id : ColumnId) {f : Column → Column}
    (hf : ∀ entry, (f entry).name = entry.name) : (c.modifyColumn id f).ColumnsUnique := by
  refine h.of_fewer (fun id t' ht' => .inr ⟨t', ht', rfl, List.Subset.refl _⟩) fun other => ?_
  rw [column, column, column?_modifyColumn]
  cases c.column? other with
  | none => rfl
  | some entry =>
    by_cases hid : id = other
    · simp [hid, hf]
    · simp [hid]

theorem not_sameName_of_findColumns {table : TableId} {name : String}
    (h : c.findColumns table name = []) {id : ColumnId} (hid : id ∈ (c.table table).columns) :
    ¬Text.sameName (c.column id).name name = true :=
  List.filter_eq_nil_iff.mp h id hid

theorem ColumnsUnique.addColumn (h : c.ColumnsUnique) (hc : c.Indexed) {table : TableId}
    {column : Column}
    (hfree : (c.table table).origin = .derived ∨ c.findColumns table column.name = []) :
    (c.addColumn table column).2.ColumnsUnique := by
  have hnew := congrArg Column.name (c.column_addColumn_new table column)
  have hold : ∀ {id}, c.HasColumn id →
      ((c.addColumn table column).2.column id).name = (c.column id).name :=
    fun hid => congrArg Column.name (c.column_addColumn_of_lt table column hid)
  intro id t' ht' horigin
  rw [table?_addColumn] at ht'
  obtain ⟨t, ht, rfl⟩ := Option.map_eq_some_iff.mp ht'
  have hhas : ∀ a ∈ t.columns, c.HasColumn a := by
    intro a ha
    have hmem : a ∈ (c.table id).columns := by rwa [table_eq_of_table? ht]
    exact (hc.owner_of_mem hmem).1
  by_cases hid : table = id
  · subst hid
    simp only [if_pos] at horigin ⊢
    have hnone : c.findColumns table column.name = [] :=
      hfree.resolve_left (by rwa [table_eq_of_table? ht])
    have hother : ∀ a ∈ t.columns, ¬Text.sameName (c.column a).name column.name = true :=
      fun a ha => not_sameName_of_findColumns hnone (by rwa [table_eq_of_table? ht])
    intro a ha b hb hsame
    rcases List.mem_append.mp ha with ha | ha <;> rcases List.mem_append.mp hb with hb | hb
    · rw [hold (hhas a ha), hold (hhas b hb)] at hsame
      exact h table t ht horigin a ha b hb hsame
    · rw [hold (hhas a ha), List.mem_singleton.mp hb, hnew] at hsame
      exact absurd hsame (hother a ha)
    · rw [hold (hhas b hb), List.mem_singleton.mp ha, hnew, Text.sameName_iff] at hsame
      exact absurd ((Text.sameName_iff _ _).mpr hsame.symm) (hother b hb)
    · exact (List.mem_singleton.mp ha).trans (List.mem_singleton.mp hb).symm
  · simp only [if_neg hid] at horigin ⊢
    intro a ha b hb hsame
    rw [hold (hhas a ha), hold (hhas b hb)] at hsame
    exact h id t ht horigin a ha b hb hsame

theorem ColumnsUnique.renameColumn (h : c.ColumnsUnique) (hc : c.Indexed) {renamed : ColumnId}
    {name : String} (hfree : c.findColumns (c.column renamed).table name = []) :
    (c.renameColumn renamed name).ColumnsUnique := by
  intro id t ht horigin
  have ht : c.table? id = some t := ht
  have hname : ∀ a ∈ t.columns, ((c.renameColumn renamed name).column a).name =
      if renamed = a then name else (c.column a).name := by
    intro a ha
    obtain ⟨entry, hentry, -⟩ := hc.owner id t ht a ha
    rw [column_eq_of_column? hentry, column, Catalog.renameColumn, column?_modifyColumn, hentry]
    by_cases heq : renamed = a <;> simp [heq]
  -- No column beside the renamed one has the new name.
  have hother : renamed ∈ t.columns → ∀ b ∈ t.columns,
      ¬Text.sameName (c.column b).name name = true := by
    intro hin b hb
    obtain ⟨entry, hentry, howner⟩ := hc.owner id t ht renamed hin
    refine not_sameName_of_findColumns hfree ?_
    rwa [column_eq_of_column? hentry, howner, table_eq_of_table? ht]
  intro a ha b hb hsame
  rw [hname a ha, hname b hb] at hsame
  by_cases hra : renamed = a <;> by_cases hrb : renamed = b
  · exact hra.symm.trans hrb
  · rw [if_pos hra, if_neg hrb, Text.sameName_iff] at hsame
    exact absurd ((Text.sameName_iff _ _).mpr hsame.symm) (hother (hra ▸ ha) b hb)
  · rw [if_neg hra, if_pos hrb] at hsame
    exact absurd hsame (hother (hrb ▸ hb) a ha)
  · rw [if_neg hra, if_neg hrb] at hsame
    exact h id t ht horigin a ha b hb hsame

theorem Edit.columnsUnique (h : Edit own c c') (hc : c.Indexed) (hunique : c.ColumnsUnique) :
    c'.ColumnsUnique := by
  cases h with
  | addResult name => exact hunique.addTable name .derived
  | addTable hnames hfree => exact hunique.addTable _ .created
  | addColumn hown htable href hfree => exact hunique.addColumn hc hfree
  | markKey hown => exact hunique.modifyColumn _ fun _ => rfl
  | link hown htarget => exact hunique.modifyColumn _ fun _ => rfl
  | removeColumn hown =>
    refine hunique.modifyTable (table?_removeColumn c _) (fun id t => ?_) fun _ => rfl
    split
    · exact ⟨rfl, List.filter_sublist.subset⟩
    · exact ⟨rfl, List.Subset.refl _⟩
  | renameColumn hown hfree => exact hunique.renameColumn hc hfree
  | renameTable hnames hown hlive hfree =>
    refine hunique.modifyTable (table?_renameTable c _ _) (fun id t => ?_) fun _ => rfl
    split <;> exact ⟨rfl, List.Subset.refl _⟩
  | dropTable hnames hown hlive =>
    refine hunique.modifyTable (table?_dropTable c _) (fun id t => ?_) fun _ => rfl
    split <;> exact ⟨rfl, List.Subset.refl _⟩

theorem Edit.namesUnique (h : Edit own c c') (hc : c.Indexed) (hunique : c.NamesUnique) :
    c'.NamesUnique where
  tables := (h.indexed hc).namedOnce_iff.mp (h.namedOnce (hc.namedOnce_iff.mpr hunique.tables))
  columns := h.columnsUnique hc hunique.columns

theorem Edits.namesUnique (h : Edits own c c') (hc : c.Indexed) (hunique : c.NamesUnique) :
    c'.NamesUnique := by
  induction h with
  | refl => exact hunique
  | tail hedits hedit ih => exact hedit.namesUnique (Edits.indexed hedits hc) ih

/-! ### Results of queries -/

/-- A table is the result of a query, under this name. -/
def IsResultNamed (c : Catalog) (id : TableId) (name : String) : Prop :=
  ∃ t, c.table? id = some t ∧ t.origin = .derived ∧ t.name = name

theorem IsResultNamed.modified {id : TableId} {name : String} (h : c.IsResultNamed id name)
    {f : Table → Table}
    (htable : c'.table? id = (c.table? id).map f) (horigin : ∀ t, (f t).origin = t.origin)
    (hname : ∀ t, t.origin = .derived → (f t).name = t.name) : c'.IsResultNamed id name := by
  obtain ⟨t, ht, hderived, rfl⟩ := h
  rw [ht] at htable
  exact ⟨f t, htable, (horigin t).trans hderived, hname t hderived⟩

/-- Nothing gives the result of a query another name. -/
theorem Edit.isResultNamed (h : Edit own c c') {id : TableId} {name : String}
    (hid : c.IsResultNamed id name) : c'.IsResultNamed id name := by
  have hold : ∀ (name : String) (origin : TableOrigin),
      (c.addTable name origin).2.table? id = c.table? id := by
    intro name origin
    obtain ⟨t, ht, -⟩ := hid
    rw [table?_addTable, if_neg]
    rintro rfl
    exact absurd (lt_of_table? ht) (Nat.lt_irrefl _)
  cases h with
  | addResult name => exact ⟨_, (hold _ _).trans hid.choose_spec.1, hid.choose_spec.2⟩
  | addTable hnames hfree => exact ⟨_, (hold _ _).trans hid.choose_spec.1, hid.choose_spec.2⟩
  | addColumn hown htable href hfree =>
    refine hid.modified (table?_addColumn c _ _ id) (fun t => ?_) fun t _ => ?_ <;> split <;> rfl
  | removeColumn hown =>
    refine hid.modified (table?_removeColumn c _ id) (fun t => ?_) fun t _ => ?_ <;> split <;> rfl
  | dropTable hnames hown hlive =>
    refine hid.modified (table?_dropTable c _ id) (fun t => ?_) fun t _ => ?_ <;> split <;> rfl
  | @renameTable renamed _ hnames hown hlive hfree =>
    have hne : renamed ≠ id := by
      rintro rfl
      obtain ⟨t, ht, hderived, -⟩ := hid
      obtain ⟨t', ht', hlive⟩ := hlive
      obtain rfl := Option.some.inj (ht.symm.trans ht')
      exact hlive.named hderived
    refine hid.modified (table?_renameTable c _ _ id) (fun t => ?_) fun t _ => ?_ <;>
      simp [hne]
  | _ => exact hid

theorem Edits.isResultNamed (h : Edits own c c') {id : TableId} {name : String}
    (hid : c.IsResultNamed id name) : c'.IsResultNamed id name := by
  induction h with
  | refl => exact hid
  | tail _ hedit ih => exact hedit.isResultNamed ih

end SqlAnalysis.Catalog
