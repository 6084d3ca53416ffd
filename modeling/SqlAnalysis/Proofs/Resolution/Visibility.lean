import SqlAnalysis.Proofs.Catalog.Frames
import SqlAnalysis.Proofs.Resolution.Annotation
import SqlAnalysis.Proofs.Resolution.Complaints
import SqlAnalysis.Proofs.Resolution.Orderly
import SqlAnalysis.Proofs.Resolution.QueryEdits
import SqlAnalysis.Proofs.Resolution.StatementEdits

/-!
# What the sources of a query make visible

While the sources of a query are resolved, names only get more meanings in the innermost
open scope, and the tables that exist stay as they are. So in the end every column of every
source is among the meanings of its name there.
-/
namespace SqlAnalysis

open Catalog

/-! ### The columns that a name stands for in a scope -/

namespace Scope

variable {scope : Scope} {name : String} {id : ColumnId}

/-- The columns that a name stands for in this very scope. -/
def columnsNamed (scope : Scope) (name : String) : List ColumnId :=
  ((scope.symbol? name).getD {}).columns

theorem lookup_update (key key' : String) (f : Symbol → Symbol) (symbols : List (String × Symbol)) :
    ((update key f symbols).lookup key').getD {} =
      if key' = key then f ((symbols.lookup key).getD {}) else (symbols.lookup key').getD {} := by
  induction symbols with
  | nil =>
    by_cases hkey : key' = key
    · simp [update, hkey]
    · simp [update, List.lookup_cons, hkey, beq_false_of_ne hkey]
  | cons entry symbols ih =>
    obtain ⟨other, symbol⟩ := entry
    by_cases hother : other = key
    · subst hother
      by_cases hkey : key' = other
      · simp [update, hkey]
      · simp [update, List.lookup_cons, hkey, beq_false_of_ne hkey]
    · by_cases hkey : key' = other
      · subst hkey
        simp [update, hother]
      · rw [update, if_neg hother]
        simp only [List.lookup_cons, beq_false_of_ne hkey, beq_false_of_ne (Ne.symm hother), ih]

theorem columnsNamed_bindTable (scope : Scope) (other : String) (table : TableId) (name : String) :
    (scope.bindTable other table).columnsNamed name = scope.columnsNamed name := by
  unfold columnsNamed symbol? bindTable
  rw [lookup_update]
  split
  · next hkey =>
    rw [hkey]
    unfold Symbol.addTable
    split <;> rfl
  · rfl

theorem mem_columnsNamed_bindColumn {other : String} {column : ColumnId} :
    id ∈ (scope.bindColumn other column).columnsNamed name ↔
      id ∈ scope.columnsNamed name ∨ id = column ∧ Text.foldCase name = Text.foldCase other := by
  unfold columnsNamed symbol? bindColumn
  rw [lookup_update]
  split
  · next hkey =>
    rw [hkey]
    unfold Symbol.addColumn
    split <;> simp_all
  · next hkey => simp [hkey]

/-- Binding columns under their names adds each of them to the meanings of its name. -/
theorem mem_columnsNamed_bindAll {f : ColumnId → String} {ids : List ColumnId} :
    id ∈ (ids.foldl (fun scope id => scope.bindColumn (f id) id) scope).columnsNamed name ↔
      id ∈ scope.columnsNamed name ∨ id ∈ ids ∧ Text.foldCase name = Text.foldCase (f id) := by
  induction ids generalizing scope with
  | nil => simp
  | cons other ids ih =>
    have hfirst : (id = other ∧ Text.foldCase name = Text.foldCase (f other)) ↔
        id = other ∧ Text.foldCase name = Text.foldCase (f id) :=
      and_congr_right fun h => by rw [h]
    rw [List.foldl_cons, ih, mem_columnsNamed_bindColumn, hfirst, List.mem_cons, or_and_right,
      or_assoc]

theorem columnsNamed_eq {name' : String} (h : Text.foldCase name = Text.foldCase name') :
    scope.columnsNamed name = scope.columnsNamed name' := by
  unfold columnsNamed symbol?
  rw [h]

/-- A name that stands for columns in the innermost scope is looked up there. -/
theorem exists_lookup (scopes : List Scope) (hid : id ∈ scope.columnsNamed name) :
    ∃ symbol, lookup (scope :: scopes) name Symbol.hasColumns = some symbol ∧
      symbol.columns = scope.columnsNamed name := by
  unfold columnsNamed at hid ⊢
  cases hsymbol : scope.symbol? name with
  | none => simp [hsymbol] at hid
  | some symbol =>
    rw [hsymbol] at hid
    refine ⟨symbol, ?_, rfl⟩
    have hne : symbol.columns ≠ [] := List.ne_nil_of_mem hid
    have hcolumns : symbol.hasColumns = true := by simp [Symbol.hasColumns, hne]
    simp [lookup, hsymbol, hcolumns]

end Scope

/-! ### States that follow each other -/

namespace ResolverState

variable {s t u : ResolverState} {name : String} {id : ColumnId}

/-- The innermost open scope. -/
def innermost (s : ResolverState) : Scope :=
  (s.frames.headD s.root).scope

theorem scopes_eq (s : ResolverState) : ∃ outer, s.scopes = s.innermost :: outer := by
  unfold scopes allFrames innermost
  cases s.frames <;> exact ⟨_, rfl⟩

/-- The second state is behind the complaints of the first, and in its innermost scope
names stand for the same columns or for more. -/
structure Extends (s t : ResolverState) : Prop where
  index : t.index = s.index
  diagnostics : s.diagnostics ⊆ t.diagnostics
  columnsNamed : ∀ name, s.innermost.columnsNamed name ⊆ t.innermost.columnsNamed name

namespace Extends

theorem refl (s : ResolverState) : s.Extends s :=
  ⟨rfl, fun _ h => h, fun _ _ h => h⟩

theorem trans (h : s.Extends t) (h' : t.Extends u) : s.Extends u where
  index := h'.index.trans h.index
  diagnostics := fun _ hd => h'.diagnostics (h.diagnostics hd)
  columnsNamed := fun name _ hid => h'.columnsNamed name (h.columnsNamed name hid)

/-- The innermost scope changes, and so may the catalog. -/
theorem of_innermost (hindex : t.index = s.index) (hdiagnostics : s.diagnostics ⊆ t.diagnostics)
    (h : t.innermost = s.innermost) : s.Extends t :=
  ⟨hindex, hdiagnostics, fun _ _ hid => h ▸ hid⟩

end Extends

theorem innermost_modifyFrame (s : ResolverState) (f : Frame → Frame) :
    (s.modifyFrame f).innermost = (f (s.frames.headD s.root)).scope := by
  unfold innermost modifyFrame
  cases s.frames <;> simp

/-- Names keep their columns if they keep them in the innermost scope. -/
theorem Extends.modifyFrame {f : Frame → Frame}
    (hf : ∀ frame name, frame.scope.columnsNamed name ⊆ (f frame).scope.columnsNamed name) :
    s.Extends (s.modifyFrame f) := by
  refine ⟨modifyFrame_index s f, by rw [modifyFrame_diagnostics]; exact fun _ h => h, ?_⟩
  intro name
  rw [innermost_modifyFrame]
  exact hf _ name

theorem Extends.bindColumns (s : ResolverState) (table : TableId) :
    s.Extends (s.bindColumns table) := by
  refine .modifyFrame fun frame name id hid => ?_
  exact Scope.mem_columnsNamed_bindAll.mpr (.inl hid)

theorem Extends.bindTable (s : ResolverState) (visible : String) (table : TableId) :
    s.Extends (s.bindTable visible table) := by
  refine Extends.trans (.modifyFrame fun frame name id hid => ?_) (.bindColumns _ table)
  rwa [Scope.columnsNamed_bindTable]

/-- What is done in a scope of its own adds nothing to the one around it. -/
theorem innermost_of_runsWithin {α : Type} {r : Resolver α} (h : Resolver.RunsWithin r)
    (s : ResolverState) : (r.run s).2.innermost = s.innermost := by
  obtain ⟨span, r, hr, rfl⟩ := h
  have hkeeps := (hr (s.enter span) (List.cons_ne_nil _ _)).keeps
  obtain ⟨tree, hleave⟩ := Resolver.leave_of_keeps hkeeps
  have hroot : (r.run (s.enter span)).2.root = s.root := hkeeps.root
  rw [Resolver.run_within, hleave, innermost_modifyFrame]
  show (s.frames.headD (r.run (s.enter span)).2.root).scope = s.innermost
  rw [hroot]
  rfl

theorem Extends.of_runsWithin {α : Type} {r : Resolver α} (h : Resolver.RunsWithin r)
    (s : ResolverState) : s.Extends (r.run s).2 := by
  have hinnermost := innermost_of_runsWithin h s
  obtain ⟨span, r, hr, rfl⟩ := h
  have hopen : (s.enter span).frames ≠ [] := List.cons_ne_nil _ _
  obtain ⟨hkeeps, -⟩ := hr (s.enter span) hopen
  obtain ⟨ds, hds⟩ := hr.appends hopen
  rw [Resolver.run_within] at hinnermost ⊢
  refine .of_innermost ?_ ?_ hinnermost
  · rw [leave_index]
    exact hkeeps.index
  · rw [leave_diagnostics, hds]
    exact List.subset_append_left _ _

theorem Extends.of_remarks {α : Type} {r : Resolver α}
    (h : Resolver.Remarks (fun _ => True) r) (s : ResolverState) : s.Extends (r.run s).2 := by
  obtain ⟨ds, -, hrun⟩ := h s
  rw [hrun]
  exact .of_innermost rfl (fun _ hd => List.mem_append_left _ hd) rfl

end ResolverState

/-! ### Tables that exist -/

namespace Catalog

variable {c c' c'' : Catalog} {own : Rights}

/-- Tables that exist stay as they are, and so do their columns. -/
structure KeepsTables (c c' : Catalog) : Prop where
  hasTable : ∀ t, c.HasTable t → c'.HasTable t
  table : ∀ t, c.HasTable t → c'.table t = c.table t
  column : ∀ t, c.HasTable t → ∀ id ∈ (c.table t).columns, c'.column id = c.column id

theorem KeepsTables.refl (c : Catalog) : c.KeepsTables c :=
  ⟨fun _ ht => ht, fun _ _ => rfl, fun _ _ _ _ => rfl⟩

theorem KeepsTables.trans (h : c.KeepsTables c') (h' : c'.KeepsTables c'') :
    c.KeepsTables c'' where
  hasTable t ht := h'.hasTable t (h.hasTable t ht)
  table t ht := (h'.table t (h.hasTable t ht)).trans (h.table t ht)
  column t ht id hid := by
    rw [h'.column t (h.hasTable t ht) id (by rwa [h.table t ht]), h.column t ht id hid]

/-- What may only edit new tables keeps those that exist. -/
theorem KeepsTables.of_edits (hc : c.Indexed) (hown : ∀ t, own t → ¬c.HasTable t)
    (h : Edits own c c') : c.KeepsTables c' where
  hasTable t ht := h.preserves.hasTable ht
  table t ht := by
    have htable := h.keepsOutside.table t _ (fun ho => hown t ho ht) (table?_of_lt ht)
    rw [table_eq_of_table? htable]
  column t ht id hid := by
    obtain ⟨hhas, howner⟩ := hc.owner_of_mem hid
    have hkept : ¬own (c.column id).table := fun ho => hown _ ho (howner ▸ ht)
    rw [column_eq_of_column? (h.keepsOutside.column id _ hkept (column?_of_lt hhas))]

end Catalog

namespace ResolverState

variable {s t u : ResolverState}

/-- Besides, the tables that exist are kept. -/
structure Unfolds (s t : ResolverState) : Prop where
  visible : s.Extends t
  tables : s.catalog.KeepsTables t.catalog
  indexed : t.catalog.Indexed

theorem Unfolds.trans (h : s.Unfolds t) (h' : t.Unfolds u) : s.Unfolds u :=
  ⟨h.visible.trans h'.visible, h.tables.trans h'.tables, h'.indexed⟩

/-- The table exists, and each of its columns can be named. -/
structure Shows (s : ResolverState) (table : TableId) : Prop where
  hasTable : s.catalog.HasTable table
  columns : ∀ id ∈ (s.catalog.table table).columns,
    id ∈ s.innermost.columnsNamed (s.catalog.column id).name

theorem Shows.mono {table : TableId} (hs : s.Shows table) (h : s.Unfolds t) : t.Shows table := by
  refine ⟨h.tables.hasTable _ hs.hasTable, fun id hid => ?_⟩
  rw [h.tables.table _ hs.hasTable] at hid
  rw [h.tables.column _ hs.hasTable id hid]
  exact h.visible.columnsNamed _ (hs.columns id hid)

theorem Unfolds.of_catalog (hs : s.catalog.Indexed) (hcatalog : t.catalog = s.catalog)
    (h : s.Extends t) : s.Unfolds t :=
  ⟨h, hcatalog ▸ .refl _, hcatalog ▸ hs⟩

theorem bindColumns_catalog (s : ResolverState) (table : TableId) :
    (s.bindColumns table).catalog = s.catalog :=
  modifyFrame_catalog s _

theorem bindTable_catalog (s : ResolverState) (name : String) (table : TableId) :
    (s.bindTable name table).catalog = s.catalog :=
  (bindColumns_catalog _ table).trans (modifyFrame_catalog s _)

theorem shows_bindColumns {table : TableId} (h : s.catalog.HasTable table) :
    (s.bindColumns table).Shows table := by
  refine ⟨by rwa [bindColumns_catalog], fun id hid => ?_⟩
  rw [bindColumns_catalog] at hid ⊢
  unfold bindColumns
  rw [innermost_modifyFrame]
  exact Scope.mem_columnsNamed_bindAll.mpr (.inr ⟨hid, rfl⟩)

theorem shows_bindTable {table : TableId} (name : String) (h : s.catalog.HasTable table) :
    (s.bindTable name table).Shows table :=
  shows_bindColumns (by rwa [modifyFrame_catalog])

end ResolverState

namespace Resolver

open ResolverState

section

variable {α : Type} {r : Resolver α} {s : ResolverState} {Q : Catalog → α → Prop}

theorem evolvesAt_new (hs : s.catalog.Indexed)
    (hevolves : ∀ own, Evolves own (fun _ => True) r Q) :
    EvolvesAt ⟨fun t => ¬s.catalog.HasTable t, False⟩ s r Q :=
  hevolves _ s ⟨hs, fun _ ht => ht⟩ fun _ _ => trivial

/-- Resolving a query and the like only edits tables that are new. -/
theorem keepsTables_of_evolves (hs : s.catalog.Indexed)
    (hevolves : ∀ own, Evolves own (fun _ => True) r Q) :
    s.catalog.KeepsTables (r.run s).2.catalog :=
  .of_edits hs (fun _ ht => ht) (evolvesAt_new hs hevolves).edits

theorem unfolds_of_evolves (hs : s.catalog.Indexed) (hextends : s.Extends (r.run s).2)
    (hevolves : ∀ own, Evolves own (fun _ => True) r Q) :
    s.Unfolds (r.run s).2 ∧ Q (r.run s).2.catalog (r.run s).1 := by
  have hrun := evolvesAt_new hs hevolves
  exact ⟨⟨hextends, keepsTables_of_evolves hs hevolves, hrun.edits.indexed hs⟩, hrun.good _ .refl⟩

end

/-! ### Sources -/

end Resolver

/-- The table that a source stands for, once it is resolved. -/
def Source.table? : Source → Option TableId
  | .table _ _ binding => binding
  | .subquery select _ _ => select.result

/-- The sources of a clause from left to right. -/
def FromClause.sources (clause : FromClause) : List Source :=
  clause.source :: clause.joins.map Join.source

namespace Resolver

open ResolverState

/-- The table of a query is known by what it gives. -/
theorem query_result (name : String) (select : Select) :
    Yields (query name select) fun result => result.1.result = some result.2 := by
  obtain ⟨distinct, columns, clause, test, groupBy, orderBy, limit, span, _⟩ := select
  rw [query]
  refine .within ?_ span
  exact .after fun _ => .after fun _ => .after fun _ => .after fun _ => .after fun _ =>
    .after fun _ => .after fun _ => .pure rfl

theorem query_unfolds (name : String) (select : Select) {s : ResolverState}
    (hs : s.catalog.Indexed) :
    s.Unfolds ((query name select).run s).2 ∧
      ((query name select).run s).2.catalog.HasTable ((query name select).run s).1.2 :=
  unfolds_of_evolves hs (.of_runsWithin (query_within name select) s) fun _ =>
    query_evolves name select

theorem tableSource_unfolds (name : Ident) (label : Option Ident) {s : ResolverState}
    (hs : s.catalog.Indexed) :
    let after := (tableSource name label).run s
    s.Unfolds after.2 ∧ ∀ t ∈ after.1.1.table?, after.2.Shows t := by
  have hcatalog := tableSource_quiet name label s
  unfold tableSource at hcatalog ⊢
  rw [run_bind] at hcatalog ⊢
  rcases catalogTable?_run name s with ⟨id, hid, hrun⟩ | ⟨hnone, -⟩
  · have hmem : id ∈ s.catalog.findTables name.name := by
      rw [hid]
      exact List.mem_cons_self
    rw [hrun] at hcatalog ⊢
    refine ⟨.of_catalog hs hcatalog (.bindTable s _ id), fun t ht => ?_⟩
    obtain rfl := Option.mem_some_iff.mp ht
    exact shows_bindTable _ (hs.isLive_of_findTables hmem).hasTable
  · have hfind := Extends.of_remarks (catalogTable?_remarks name) s
    rw [hnone] at hcatalog ⊢
    refine ⟨.of_catalog hs hcatalog (hfind.trans (.modifyFrame fun _ _ _ hid => hid)), ?_⟩
    exact fun t ht => absurd ht (Option.not_mem_none t)

theorem bindSubquery_unfolds (label : Option Ident) {table : TableId} {s : ResolverState}
    (hs : s.catalog.Indexed) (htable : s.catalog.HasTable table) :
    s.Unfolds ((bindSubquery label table).run s).2 ∧
      ((bindSubquery label table).run s).2.Shows table := by
  cases label with
  | none => exact ⟨.of_catalog hs (bindColumns_catalog s table) (.bindColumns s table),
      shows_bindColumns htable⟩
  | some label => exact ⟨.of_catalog hs (bindTable_catalog s _ table) (.bindTable s _ table),
      shows_bindTable _ htable⟩

theorem source_unfolds (src : Source) {s : ResolverState} (hs : s.catalog.Indexed) :
    let after := (source src).run s
    s.Unfolds after.2 ∧ ∀ t ∈ after.1.1.table?, after.2.Shows t := by
  cases src with
  | table name label binding =>
    rw [source]
    exact tableSource_unfolds name label hs
  | subquery select label span =>
    obtain ⟨hquery, hhas⟩ := query_unfolds (subqueryName label) select hs
    have hresult := query_result (subqueryName label) select s
    rw [source, run_bind]
    generalize (query (subqueryName label) select).run s = inner at hquery hhas hresult
    obtain ⟨hbind, hshows⟩ := bindSubquery_unfolds label hquery.indexed hhas
    refine ⟨hquery.trans hbind, fun t ht => ?_⟩
    have ht : inner.1.1.result = some t := ht
    obtain rfl := Option.some.inj (hresult.symm.trans ht)
    exact hshows

theorem condition_unfolds (clause : String) (span : Span) (e : Expr) {s : ResolverState}
    (hs : s.catalog.Indexed) : s.Unfolds ((condition clause span (term e)).run s).2 :=
  (unfolds_of_evolves hs (.of_runsWithin (condition_within (term_orderly e) clause span) s)
    fun _ => condition_evolves (term_evolves e) clause span).1

theorem joins_unfolds (js : List Join) : ∀ {s : ResolverState}, s.catalog.Indexed →
    let after := (joins js).run s
    s.Unfolds after.2 ∧ ∀ join ∈ after.1.1, ∀ t ∈ join.source.table?, after.2.Shows t := by
  induction js with
  | nil =>
    intro s hs
    rw [joins]
    exact ⟨.of_catalog hs rfl (.refl s), fun _ h => absurd h List.not_mem_nil⟩
  | cons join js ih =>
    obtain ⟨natural, operator, src, on, span⟩ := join
    intro s hs
    obtain ⟨hsource, hshows⟩ := source_unfolds src hs
    cases on with
    | none =>
      obtain ⟨hrest, hothers⟩ := ih hsource.indexed
      rw [joins, run_bind]
      refine ⟨hsource.trans hrest, List.forall_mem_cons.mpr ⟨fun t ht => ?_, hothers⟩⟩
      exact (hshows t ht).mono hrest
    | some on =>
      have hon := condition_unfolds "ON" on.span on hsource.indexed
      obtain ⟨hrest, hothers⟩ := ih hon.indexed
      rw [joins, run_bind]
      refine ⟨(hsource.trans hon).trans hrest, List.forall_mem_cons.mpr ⟨fun t ht => ?_, hothers⟩⟩
      exact (hshows t ht).mono (hon.trans hrest)

/-- Every column of every source can be named where the sources are known. -/
theorem sources_unfolds (clause : Option FromClause) {s : ResolverState}
    (hs : s.catalog.Indexed) :
    let after := (sources clause).run s
    s.Unfolds after.2 ∧ ∀ clause' ∈ after.1.1, ∀ src ∈ clause'.sources, ∀ t ∈ src.table?,
      after.2.Shows t := by
  cases clause with
  | none =>
    rw [sources]
    exact ⟨.of_catalog hs rfl (.refl s), fun _ h => absurd h (Option.not_mem_none _)⟩
  | some clause =>
    obtain ⟨first, others⟩ := clause
    obtain ⟨hfirst, hshows⟩ := source_unfolds first hs
    obtain ⟨hrest, hothers⟩ := joins_unfolds others hfirst.indexed
    rw [sources, run_bind]
    refine ⟨hfirst.trans hrest, fun clause' hclause => ?_⟩
    obtain rfl := Option.mem_some_iff.mp hclause
    refine List.forall_mem_cons.mpr ⟨fun t ht => (hshows t ht).mono hrest, fun src hsrc => ?_⟩
    obtain ⟨join, hjoin, rfl⟩ := List.mem_map.mp hsrc
    exact hothers join hjoin

end Resolver

end SqlAnalysis
