import SqlAnalysis.Proofs.Catalog.Descriptions

/-!
# Foreign keys of a schema

Linking a foreign key changes only what one column refers to, and what is looked up for it
does not depend on the keys linked before. So a column refers to where the last key leads
that starts there and leads anywhere, and if no two tables share a name, that can be said in
names and places of columns that do not depend on the order of the descriptors.
-/
namespace SqlAnalysis

/-! ### Places in lists -/

section

variable {α β : Type} {p : α → Bool} {q : β → Bool} {as : List α} {bs : List β}

/-- The element of a list with no other. -/
def only? : List α → Option α
  | [only] => some only
  | _ => none

theorem only?_eq_some_iff {a : α} : only? as = some a ↔ as = [a] := by
  unfold only?
  split <;> simp_all

theorem only?_map (f : α → β) (as : List α) : only? (as.map f) = (only? as).map f := by
  match as with
  | [] => rfl
  | [_] => rfl
  | _ :: _ :: _ => rfl

/-- The place of the only element of a list with some property. -/
def onlyPlace? (p : α → Bool) (as : List α) : Option Nat :=
  only? ((as.zipIdx.filter fun entry => p entry.1).map Prod.snd)

theorem onlyPlace?_congr (h : as.map p = bs.map q) : onlyPlace? p as = onlyPlace? q bs := by
  have hplaces : ∀ {γ : Type} (r : γ → Bool) (cs : List γ),
      (cs.zipIdx.filter fun entry => r entry.1).map Prod.snd =
        ((cs.map r).zipIdx.filter fun entry => entry.1).map Prod.snd := by
    intro γ r cs
    rw [List.zipIdx_map, List.filter_map, List.map_map]
    rfl
  rw [onlyPlace?, onlyPlace?, hplaces p, hplaces q, h]

/-- The only element with a property is the one at its place. -/
theorem only?_filter (p : α → Bool) (as : List α) :
    only? (as.filter p) = (onlyPlace? p as).bind fun place => as[place]? := by
  have hfilter : as.filter p = (as.zipIdx.filter fun entry => p entry.1).map Prod.fst := by
    conv_lhs => rw [← List.zipIdx_map_fst 0 as, List.filter_map]
    rfl
  rw [hfilter, onlyPlace?, only?_map, only?_map]
  cases hentry : only? (as.zipIdx.filter fun entry => p entry.1) with
  | none => rfl
  | some entry =>
    have hmem : entry ∈ as.zipIdx.filter fun entry => p entry.1 := by
      rw [only?_eq_some_iff.mp hentry]
      exact List.mem_singleton.mpr rfl
    exact (List.mem_zipIdx_iff_getElem?.mp (List.mem_of_mem_filter hmem)).symm

theorem lt_of_onlyPlace? {place : Nat} (h : onlyPlace? p as = some place) :
    place < as.length := by
  rw [onlyPlace?, only?_eq_some_iff] at h
  have hmem : place ∈ (as.zipIdx.filter fun entry => p entry.1).map Prod.snd := by
    rw [h]
    exact List.mem_singleton.mpr rfl
  obtain ⟨entry, hentry, rfl⟩ := List.mem_map.mp hmem
  exact List.snd_lt_of_mem_zipIdx (List.mem_of_mem_filter hentry)

end

/-! ### What the descriptors state -/

namespace TableDescriptor

/-- The place of the only column with a name. -/
def place? (d : TableDescriptor) (name : String) : Option Nat :=
  onlyPlace? (fun column => Text.sameName column.name name) d.columns

/-- The place of the first column of the primary key. -/
def keyPlace? (d : TableDescriptor) : Option Nat :=
  d.columns.findIdx? ColumnDescriptor.primaryKey

/-- Where a key leads: to a place in the first table with the name that it gives. -/
def target? (ds : List TableDescriptor) (key : ForeignKeyDescriptor) : Option (String × Nat) :=
  (ds.find? fun d => Text.sameName d.name key.table).bind fun d =>
    let place := match key.target with
      | some name => d.place? name
      | none => d.keyPlace?
    place.map fun place => (d.name, place)

/-- What the column at a place refers to: where the last key leads that starts there and
leads anywhere. -/
def link? (ds : List TableDescriptor) (d : TableDescriptor) (place : Nat) :
    Option (String × Nat) :=
  d.foreignKeys.reverse.findSome? fun key =>
    if d.place? key.source = some place then target? ds key else none

/-- What the columns of a described table refer to, in their order. -/
def links (ds : List TableDescriptor) (d : TableDescriptor) : List (Option (String × Nat)) :=
  (List.range d.columns.length).map (d.link? ds)

end TableDescriptor

namespace Catalog

variable {c c' c'' : Catalog} {table : TableId} {id : ColumnId} {ds : List TableDescriptor}

/-- Where a column stands: the name of its table and its place there. -/
def place (c : Catalog) (id : ColumnId) : String × Nat :=
  let owner := c.table (c.column id).table
  (owner.name, owner.columns.idxOf id)

/-- What the columns of a table refer to, in their order. -/
def links (c : Catalog) (table : TableId) : List (Option (String × Nat)) :=
  (c.table table).columns.map fun id => (c.column id).references.map c.place

/-! ### Linking changes references only -/

theorem singleColumn?_eq_only? (c : Catalog) (table : TableId) (name : String) :
    c.singleColumn? table name = only? (c.findColumns table name) := by
  unfold singleColumn?
  generalize c.findColumns table name = found
  match found with
  | [] => rfl
  | [_] => rfl
  | _ :: _ :: _ => rfl

/-- Two catalogs that differ only in what their columns refer to. -/
structure SameButLinks (c c' : Catalog) : Prop where
  tables : c'.tables = c.tables
  named : c'.named = c.named
  column : ∀ id, c'.column id = { c.column id with references := (c'.column id).references }

namespace SameButLinks

theorem refl (c : Catalog) : SameButLinks c c :=
  ⟨rfl, rfl, fun _ => rfl⟩

theorem trans (h : SameButLinks c c') (h' : SameButLinks c' c'') : SameButLinks c c'' where
  tables := h'.tables.trans h.tables
  named := h'.named.trans h.named
  column id := by rw [h'.column id, h.column id]

theorem table_eq (h : SameButLinks c c') (id : TableId) : c'.table id = c.table id := by
  rw [Catalog.table, Catalog.table?, h.tables]
  rfl

theorem name_eq (h : SameButLinks c c') (id : ColumnId) :
    (c'.column id).name = (c.column id).name := by
  rw [h.column id]

theorem primaryKey_eq (h : SameButLinks c c') (id : ColumnId) :
    (c'.column id).primaryKey = (c.column id).primaryKey := by
  rw [h.column id]

theorem findTables_eq (h : SameButLinks c c') (name : String) :
    c'.findTables name = c.findTables name := by
  rw [findTables, h.named]
  rfl

theorem singleColumn?_eq (h : SameButLinks c c') (table : TableId) (name : String) :
    c'.singleColumn? table name = c.singleColumn? table name := by
  simp only [singleColumn?, findColumns, h.table_eq, h.name_eq]

theorem keyTarget?_eq (h : SameButLinks c c') (key : ForeignKeyDescriptor) :
    c'.keyTarget? key = c.keyTarget? key := by
  have hprimary : ∀ table, c'.primaryKey? table = c.primaryKey? table := by
    intro table
    simp only [primaryKey?, h.table_eq, h.primaryKey_eq]
  simp only [keyTarget?, h.findTables_eq, h.singleColumn?_eq, hprimary]

theorem place_eq (h : SameButLinks c c') : c'.place = c.place := by
  funext id
  rw [place, h.table_eq, h.column id]
  rfl

theorem modifyColumn (source target : ColumnId) : SameButLinks c
    (c.modifyColumn source fun column => { column with references := some target }) where
  tables := rfl
  named := rfl
  column id := by
    rw [Catalog.column, column?_modifyColumn]
    cases hentry : c.column? id with
    | none => simp [Catalog.column, hentry]
    | some entry =>
      simp only [Catalog.column, hentry, Option.map_some, Option.getD_some]
      split <;> rfl

theorem linkKey (table : TableId) (key : ForeignKeyDescriptor) :
    SameButLinks c (c.linkKey table key) := by
  unfold Catalog.linkKey
  split
  · exact .modifyColumn _ _
  · exact .refl c

end SameButLinks

/-! ### What a column refers to -/

/-- Where a key of a table leads if it starts at a column. -/
def linkBy? (c : Catalog) (table : TableId) (id : ColumnId) (key : ForeignKeyDescriptor) :
    Option ColumnId :=
  if c.singleColumn? table key.source = some id then c.keyTarget? key else none

theorem SameButLinks.linkBy?_eq (h : SameButLinks c c') : c'.linkBy? = c.linkBy? := by
  funext table id key
  simp only [linkBy?, h.singleColumn?_eq, h.keyTarget?_eq]

/-- A key of one table does not start at a column of another. -/
theorem Indexed.linkBy?_of_ne (hc : c.Indexed) (hid : id ∈ (c.table table).columns)
    {other : TableId} (hother : other ≠ table) (key : ForeignKeyDescriptor) :
    c.linkBy? other id key = none := by
  refine if_neg fun hsource => hother ?_
  rw [← (hc.owner_of_mem (mem_of_singleColumn? hsource)).2, (hc.owner_of_mem hid).2]

theorem references_linkKey (hc : c.Indexed) (table : TableId) (id : ColumnId)
    (key : ForeignKeyDescriptor) :
    ((c.linkKey table key).column id).references =
      (c.linkBy? table id key).or (c.column id).references := by
  unfold linkKey linkBy?
  cases hsource : c.singleColumn? table key.source with
  | none => rfl
  | some source =>
    cases htarget : c.keyTarget? key with
    | none => simp
    | some target =>
      simp only [Option.some.injEq]
      by_cases hid : source = id
      · subst hid
        have hhas := (hc.owner_of_mem (mem_of_singleColumn? hsource)).1
        rw [Catalog.column, column?_modifyColumn, column?_of_lt hhas, if_pos rfl]
        simp
      · rw [if_neg hid, Option.none_or, Catalog.column, Catalog.column, column?_modifyColumn]
        simp only [if_neg hid, Option.map_id']

/-- Of several keys that start at a column and lead anywhere the last one counts. -/
theorem references_linkKeys (table : TableId) (id : ColumnId) (keys : List ForeignKeyDescriptor) :
    ∀ c : Catalog, c.Indexed →
      ((keys.foldl (fun c key => c.linkKey table key) c).column id).references =
        (keys.reverse.findSome? (c.linkBy? table id)).or (c.column id).references := by
  induction keys with
  | nil => exact fun _ _ => rfl
  | cons key keys ih =>
    intro c hc
    rw [List.foldl_cons, ih _ (hc.linkKey table key), references_linkKey hc,
      (SameButLinks.linkKey table key).linkBy?_eq, List.reverse_cons, List.findSome?_append,
      Option.or_assoc, List.findSome?_singleton]

/-- Links the keys of all tables of a schema. -/
def linkTables (ds : List TableDescriptor) (c : Catalog) : Catalog :=
  ds.zipIdx.foldl (fun c entry => entry.1.foreignKeys.foldl
    (fun c key => c.linkKey ⟨entry.2⟩ key) c) c

theorem linkTables_concat (ds : List TableDescriptor) (d : TableDescriptor) (c : Catalog) :
    linkTables (ds ++ [d]) c =
      d.foreignKeys.foldl (fun c key => c.linkKey ⟨ds.length⟩ key) (linkTables ds c) := by
  rw [linkTables, List.zipIdx_append, List.foldl_append, Nat.zero_add]
  rfl

theorem sameButLinks_linkTables (ds : List TableDescriptor) (c : Catalog) :
    SameButLinks c (linkTables ds c) :=
  List.foldlRecOn (motive := SameButLinks c) _ _ (.refl c) fun _ h _ _ =>
    List.foldlRecOn _ _ h fun _ h key _ => h.trans (.linkKey _ key)

theorem sameButLinks_ofDescriptors (ds : List TableDescriptor) :
    SameButLinks (ofTables ds) (ofDescriptors ds) :=
  sameButLinks_linkTables ds (ofTables ds)

theorem Indexed.linkTables (hc : c.Indexed) (ds : List TableDescriptor) :
    (Catalog.linkTables ds c).Indexed :=
  List.foldlRecOn _ _ hc fun _ h _ _ =>
    List.foldlRecOn _ _ h fun _ h key _ => h.linkKey _ key

/-- A column refers to where the keys of its own table lead. -/
theorem references_linkTables (hc : c.Indexed) {number : Nat}
    (hid : id ∈ (c.table ⟨number⟩).columns) (ds : List TableDescriptor) :
    ((linkTables ds c).column id).references =
      (ds[number]?.bind fun d =>
        d.foreignKeys.reverse.findSome? (c.linkBy? ⟨number⟩ id)).or (c.column id).references := by
  induction ds using List.reverseRecOn with
  | nil => rfl
  | append_singleton ds d ih =>
    have hframe := sameButLinks_linkTables ds c
    rw [linkTables_concat, references_linkKeys _ _ _ _ (hc.linkTables ds), hframe.linkBy?_eq, ih]
    by_cases hnumber : number = ds.length
    · subst hnumber
      simp
    · have hkeys : d.foreignKeys.reverse.findSome? (c.linkBy? ⟨ds.length⟩ id) = none := by
        refine List.findSome?_eq_none_iff.mpr fun key _ => hc.linkBy?_of_ne hid ?_ key
        exact fun heq => hnumber (congrArg TableId.index heq).symm
      have hlast : (ds ++ [d])[number]? = ds[number]? := by
        rcases Nat.lt_or_gt_of_ne hnumber with hlt | hgt
        · exact List.getElem?_append_left hlt
        · rw [List.getElem?_eq_none (by simp; omega), List.getElem?_eq_none (by omega)]
      rw [hkeys, hlast, Option.none_or]

/-! ### Described tables -/

namespace Describes

variable {d : TableDescriptor} {number : Nat}

/-- What is read off the columns is read off their descriptors. -/
theorem map_columns (h : Describes ds c) (hd : ds[number]? = some d) {β : Type} {f : Column → β}
    {g : ColumnDescriptor → β}
    (hfg : ∀ column table place, f (column.column table place) = g column) :
    (c.table ⟨number⟩).columns.map (fun id => f (c.column id)) = d.columns.map g := by
  calc (c.table ⟨number⟩).columns.map (fun id => f (c.column id))
      = (c.entries ⟨number⟩).map f := (List.map_map).symm
    _ = d.columns.zipIdx.map (g ∘ Prod.fst) := by
        rw [h.entries number d hd, describedEntries, List.map_map]
        exact List.map_congr_left fun entry _ => hfg _ _ _
    _ = d.columns.map g := by rw [← List.map_map, List.zipIdx_map_fst]

/-- Before the keys are linked no column refers to another. -/
theorem references_eq_none (h : Describes ds c) (hd : ds[number]? = some d)
    (hid : id ∈ (c.table ⟨number⟩).columns) : (c.column id).references = none := by
  have hentry : c.column id ∈ c.entries ⟨number⟩ := List.mem_map_of_mem hid
  rw [h.entries number d hd] at hentry
  obtain ⟨entry, -, heq⟩ := List.mem_map.mp hentry
  rw [← heq]
  rfl

theorem length_columns (h : Describes ds c) (hd : ds[number]? = some d) :
    (c.table ⟨number⟩).columns.length = d.columns.length := by
  have hunits := h.map_columns hd (f := fun _ => ()) (g := fun _ => ()) fun _ _ _ => rfl
  simpa using congrArg List.length hunits

theorem singleColumn?_eq (h : Describes ds c) (hd : ds[number]? = some d) (name : String) :
    c.singleColumn? ⟨number⟩ name =
      (d.place? name).bind fun place => (c.table ⟨number⟩).columns[place]? := by
  have hplace : onlyPlace? (fun id => Text.sameName (c.column id).name name)
      (c.table ⟨number⟩).columns = d.place? name :=
    onlyPlace?_congr (h.map_columns hd (f := fun column => Text.sameName column.name name)
      fun _ _ _ => rfl)
  rw [← hplace, ← only?_filter, singleColumn?_eq_only?]
  rfl

theorem primaryKey?_eq (h : Describes ds c) (hd : ds[number]? = some d) :
    c.primaryKey? ⟨number⟩ =
      d.keyPlace?.bind fun place => (c.table ⟨number⟩).columns[place]? := by
  have hmarks : (c.table ⟨number⟩).columns.map (fun id => (c.column id).primaryKey) =
      d.columns.map ColumnDescriptor.primaryKey :=
    h.map_columns hd fun _ _ _ => rfl
  have hplace : (c.table ⟨number⟩).columns.findIdx? (fun id => (c.column id).primaryKey) =
      d.keyPlace? := by
    have hfind := congrArg (List.findIdx? id) hmarks
    rw [List.findIdx?_map, List.findIdx?_map] at hfind
    exact hfind
  rw [primaryKey?, List.find?_eq_bind_findIdx?_getElem?, hplace]

theorem findTables_eq (h : Describes ds c) (name : String) :
    c.findTables name =
      (ds.zipIdx.filter fun entry => Text.sameName entry.1.name name).map
        fun entry => ⟨entry.2⟩ := by
  rw [findTables, h.named, List.filter_map, List.map_map]
  rfl

/-- A column of a described table stands there at its place. -/
theorem place_eq (h : Describes ds c) (hd : ds[number]? = some d) {place : Nat}
    (hid : (c.table ⟨number⟩).columns[place]? = some id) : c.place id = (d.name, place) := by
  obtain ⟨hlt, rfl⟩ := List.getElem?_eq_some_iff.mp hid
  rw [Catalog.place, (h.indexed.owner_of_mem (List.getElem_mem hlt)).2, h.name number d hd,
    (h.indexed.table_columns_nodup _).idxOf_getElem]

theorem map_place (h : Describes ds c) (hd : ds[number]? = some d) {found : Option Nat}
    (hfound : ∀ place ∈ found, place < d.columns.length) :
    (found.bind fun place => (c.table ⟨number⟩).columns[place]?).map c.place =
      found.map fun place => (d.name, place) := by
  cases found with
  | none => rfl
  | some place =>
    have hlt : place < (c.table ⟨number⟩).columns.length :=
      h.length_columns hd ▸ hfound place rfl
    have hid := List.getElem?_eq_getElem hlt
    rw [Option.bind_some, hid, Option.map_some, Option.map_some, h.place_eq hd hid]

/-- A key leads where the descriptors say. -/
theorem map_keyTarget? (h : Describes ds c) (key : ForeignKeyDescriptor) :
    (c.keyTarget? key).map c.place = TableDescriptor.target? ds key := by
  have hfind : ds.find? (fun d => Text.sameName d.name key.table) =
      (ds.zipIdx.find? fun entry => Text.sameName entry.1.name key.table).map Prod.fst := by
    conv_lhs => rw [← List.zipIdx_map_fst 0 ds, List.find?_map]
    rfl
  rw [keyTarget?, h.findTables_eq, List.head?_map, List.head?_filter, TableDescriptor.target?,
    hfind]
  cases hentry : ds.zipIdx.find? fun entry => Text.sameName entry.1.name key.table with
  | none => rfl
  | some entry =>
    obtain ⟨d, number⟩ := entry
    have hd : ds[number]? = some d :=
      List.mem_zipIdx_iff_getElem?.mp (List.mem_of_find?_eq_some hentry)
    cases key.target with
    | none =>
      refine (congrArg _ (h.primaryKey?_eq hd)).trans ((h.map_place hd ?_).trans ?_)
      · exact fun place hplace => (List.findIdx?_eq_some_iff_getElem.mp hplace).1
      · rfl
    | some name =>
      refine (congrArg _ (h.singleColumn?_eq hd name)).trans ((h.map_place hd ?_).trans ?_)
      · exact fun place hplace => lt_of_onlyPlace? hplace
      · rfl

/-- The column at a place refers to what the descriptors say. -/
theorem map_linkBy? (h : Describes ds c) (hd : ds[number]? = some d) {place : Nat}
    (hid : (c.table ⟨number⟩).columns[place]? = some id) (key : ForeignKeyDescriptor) :
    (c.linkBy? ⟨number⟩ id key).map c.place =
      if d.place? key.source = some place then TableDescriptor.target? ds key else none := by
  have hsource : c.singleColumn? ⟨number⟩ key.source = some id ↔
      d.place? key.source = some place := by
    rw [h.singleColumn?_eq hd]
    cases hfound : d.place? key.source with
    | none => simp
    | some found =>
      have hlt : found < (c.table ⟨number⟩).columns.length :=
        h.length_columns hd ▸ lt_of_onlyPlace? hfound
      rw [Option.bind_some, ← hid, Option.some.injEq]
      exact List.getElem?_inj hlt (h.indexed.table_columns_nodup _)
  rw [linkBy?]
  by_cases hplace : d.place? key.source = some place
  · rw [if_pos (hsource.mpr hplace), if_pos hplace, h.map_keyTarget?]
  · rw [if_neg fun heq => hplace (hsource.mp heq), if_neg hplace, Option.map_none]

end Describes

/-! ### The links of a schema -/

theorem references_ofDescriptors {number : Nat} {d : TableDescriptor}
    (hd : ds[number]? = some d) (hid : id ∈ ((ofTables ds).table ⟨number⟩).columns) :
    ((ofDescriptors ds).column id).references =
      d.foreignKeys.reverse.findSome? ((ofTables ds).linkBy? ⟨number⟩ id) := by
  have h := describes_ofTables ds
  have hlinked := references_linkTables h.indexed hid ds
  rw [hd, Option.bind_some, h.references_eq_none hd hid, Option.or_none] at hlinked
  exact hlinked

/-- The columns of a table refer to what the descriptors say. -/
theorem links_ofDescriptors {number : Nat} {d : TableDescriptor} (hd : ds[number]? = some d) :
    (ofDescriptors ds).links ⟨number⟩ = d.links ds := by
  have h := describes_ofTables ds
  have hframe := sameButLinks_ofDescriptors ds
  rw [links, hframe.table_eq, hframe.place_eq, TableDescriptor.links, ← h.length_columns hd]
  refine List.ext_getElem (by simp) fun place hlt _ => ?_
  rw [List.length_map] at hlt
  rw [List.getElem_map, List.getElem_map, List.getElem_range,
    references_ofDescriptors hd (List.getElem_mem hlt), List.map_findSome?, TableDescriptor.link?]
  congr 1
  funext key
  exact h.map_linkBy? hd (List.getElem?_eq_getElem hlt) key

/-! ### The order of the descriptors -/

/-- No two descriptors give their tables the same name. -/
def NamesApart (ds : List TableDescriptor) : Prop :=
  ds.Pairwise fun d d' => Text.sameName d.name d'.name = false

variable {ds' : List TableDescriptor} {d : TableDescriptor}

theorem NamesApart.length_filter (hnames : NamesApart ds) (name : String) :
    (ds.filter fun d => Text.sameName d.name name).length ≤ 1 := by
  have hapart := List.Pairwise.filter (fun d => Text.sameName d.name name) hnames
  have hnamed : ∀ d ∈ ds.filter fun d => Text.sameName d.name name,
      Text.foldCase d.name = Text.foldCase name :=
    fun d hd => (Text.sameName_iff _ _).mp (List.mem_filter.mp hd).2
  generalize ds.filter (fun d => Text.sameName d.name name) = found at hapart hnamed ⊢
  rcases found with _ | ⟨d, _ | ⟨d', rest⟩⟩
  · exact Nat.zero_le 1
  · exact Nat.le_refl 1
  · have hdiffer := (List.pairwise_cons.mp hapart).1 d' List.mem_cons_self
    rw [Text.sameName, hnamed d List.mem_cons_self,
      hnamed d' (List.mem_cons_of_mem _ List.mem_cons_self), beq_self_eq_true] at hdiffer
    exact absurd hdiffer Bool.noConfusion

theorem NamesApart.filter_eq (hnames : NamesApart ds) (hd : d ∈ ds) :
    ds.filter (fun d' => Text.sameName d'.name d.name) = [d] := by
  have hmem : d ∈ ds.filter fun d' => Text.sameName d'.name d.name :=
    List.mem_filter.mpr ⟨hd, (Text.sameName_iff _ _).mpr rfl⟩
  have hlength := Nat.le_antisymm (hnames.length_filter d.name) (List.length_pos_of_mem hmem)
  obtain ⟨only, honly⟩ := List.length_eq_one_iff.mp hlength
  rw [honly] at hmem ⊢
  rw [List.mem_singleton.mp hmem]

theorem NamesApart.perm (hnames : NamesApart ds) (hperm : ds.Perm ds') : NamesApart ds' :=
  (hperm.pairwise_iff fun h => Text.sameName_comm _ _ ▸ h).mp hnames

/-- The descriptor with a name is the same in every order. -/
theorem NamesApart.find?_perm (hnames : NamesApart ds) (hperm : ds.Perm ds') (name : String) :
    ds'.find? (fun d => Text.sameName d.name name) =
      ds.find? fun d => Text.sameName d.name name := by
  have hfilter := hperm.filter fun d => Text.sameName d.name name
  have hlength := hnames.length_filter name
  rw [← List.head?_filter, ← List.head?_filter]
  generalize ds.filter (fun d => Text.sameName d.name name) = found at hfilter hlength ⊢
  rcases found with _ | ⟨d, _ | ⟨d', rest⟩⟩
  · rw [← hfilter.nil_eq]
  · rw [List.perm_singleton.mp hfilter.symm]
  · simp at hlength

theorem NamesApart.links_perm (hnames : NamesApart ds) (hperm : ds.Perm ds')
    (d : TableDescriptor) : d.links ds' = d.links ds := by
  have htarget : TableDescriptor.target? ds' = TableDescriptor.target? ds := by
    funext key
    rw [TableDescriptor.target?, TableDescriptor.target?, hnames.find?_perm hperm]
  have hlink : d.link? ds' = d.link? ds := by
    funext place
    rw [TableDescriptor.link?, TableDescriptor.link?, htarget]
  rw [TableDescriptor.links, TableDescriptor.links, hlink]

/-- A table whose name no other table has is found under it. -/
theorem exists_findTables (hnames : NamesApart ds) (hd : d ∈ ds) :
    ∃ number, ds[number]? = some d ∧ (ofDescriptors ds).findTables d.name = [⟨number⟩] := by
  have hframe := sameButLinks_ofDescriptors ds
  have hfirst : (ds.zipIdx.filter fun entry => Text.sameName entry.1.name d.name).map Prod.fst =
      [d] := by
    rw [← hnames.filter_eq hd]
    conv_rhs => rw [← List.zipIdx_map_fst 0 ds, List.filter_map]
    rfl
  obtain ⟨⟨d', number⟩, hentry, hd'⟩ := List.map_eq_singleton_iff.mp hfirst
  obtain rfl : d' = d := hd'
  have hmem : (d', number) ∈ ds.zipIdx.filter fun entry => Text.sameName entry.1.name d'.name :=
    hentry ▸ List.mem_singleton.mpr rfl
  refine ⟨number, List.mem_zipIdx_iff_getElem?.mp (List.mem_of_mem_filter hmem), ?_⟩
  rw [hframe.findTables_eq, (describes_ofTables ds).findTables_eq, hentry]
  rfl

/-- If no two tables share a name, foreign keys do not depend on the order of the
descriptors: every table is found in either order under its name, and each of its columns
refers to the same place of the same table, or to nothing, in both. -/
theorem links_ofDescriptors_perm (hperm : ds.Perm ds') (hnames : NamesApart ds) :
    ∀ table, (ofDescriptors ds).HasTable table →
      ∃ table', (ofDescriptors ds').findTables ((ofDescriptors ds).table table).name = [table'] ∧
        ((ofDescriptors ds').table table').name = ((ofDescriptors ds).table table).name ∧
        (ofDescriptors ds').links table' = (ofDescriptors ds).links table := by
  have hname : ∀ {ds : List TableDescriptor} {number d}, ds[number]? = some d →
      ((ofDescriptors ds).table ⟨number⟩).name = d.name := by
    intro ds number d hd
    rw [(sameButLinks_ofDescriptors ds).table_eq, (describes_ofTables ds).name number d hd]
  rintro ⟨number⟩ htable
  have hframe := sameButLinks_ofDescriptors ds
  have hlt : number < ds.length := by
    rw [← (describes_ofTables ds).length, ← hframe.tables]
    exact htable
  have hd := List.getElem?_eq_getElem hlt
  obtain ⟨number', hd', hfound⟩ := exists_findTables (hnames.perm hperm)
    (hperm.mem_iff.mp (List.getElem_mem hlt))
  refine ⟨⟨number'⟩, ?_, ?_, ?_⟩
  · rw [hname hd, hfound]
  · rw [hname hd, hname hd']
  · rw [links_ofDescriptors hd', links_ofDescriptors hd, hnames.links_perm hperm]

/-- A key of the first table leads to the primary key of the second, which may as well be
described before it. Another leads nowhere, and one leads back into its own table. -/
theorem links_orders_users :
    let users : TableDescriptor := ⟨"users", none, [⟨"id", "INTEGER", true, none, true⟩,
      ⟨"boss", "INTEGER", false, none, false⟩], [⟨"boss", "Users", some "ID"⟩], none⟩
    let orders : TableDescriptor := ⟨"orders", none, [⟨"user", "INTEGER", false, none, false⟩,
      ⟨"note", "TEXT", false, none, false⟩],
      [⟨"user", "users", none⟩, ⟨"note", "memos", none⟩], none⟩
    (ofDescriptors [orders, users]).links ⟨0⟩ = [some ("users", 0), none] ∧
      (ofDescriptors [orders, users]).links ⟨1⟩ = [none, some ("users", 0)] ∧
      ∃ table, (ofDescriptors [users, orders]).findTables "orders" = [table] ∧
        (ofDescriptors [users, orders]).links table = [some ("users", 0), none] := by
  intro users orders
  have horders : (ofDescriptors [orders, users]).links ⟨0⟩ = [some ("users", 0), none] := by
    decide +kernel
  have husers : (ofDescriptors [orders, users]).links ⟨1⟩ = [none, some ("users", 0)] := by
    decide +kernel
  have hname : ((ofDescriptors [orders, users]).table ⟨0⟩).name = "orders" := by decide +kernel
  have htable : (ofDescriptors [orders, users]).HasTable ⟨0⟩ := by
    unfold HasTable
    decide +kernel
  have hnames : NamesApart [orders, users] := by
    unfold NamesApart
    decide +kernel
  obtain ⟨table, hfound, -, hlinks⟩ :=
    links_ofDescriptors_perm (.swap users orders []) hnames ⟨0⟩ htable
  rw [hname] at hfound
  rw [horders] at hlinks
  exact ⟨horders, husers, table, hfound, hlinks⟩
end Catalog
end SqlAnalysis
