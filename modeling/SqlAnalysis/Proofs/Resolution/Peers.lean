import SqlAnalysis.Proofs.Catalog.Frames
import SqlAnalysis.Proofs.Resolution.QueryStages
import SqlAnalysis.Proofs.Resolution.Visibility

/-!
# Resolvers in equivalent places

The columns of a result depend on what names stand for where a query is resolved, and not on
the scope in which they are bound, on the name that its table gets or on what was complained
about. Two states that agree on the former are peers: resolvers give the same in both and leave
them as peers.
-/
namespace SqlAnalysis

/-! ### Catalogs -/

namespace Catalog

variable {c c' : Catalog}

/-- The same tables can be found by name, and all tables list the same columns. -/
structure Peers (c c' : Catalog) : Prop where
  length : c'.tables.length = c.tables.length
  table? : ∀ id, (c'.table? id).map Table.columns = (c.table? id).map Table.columns
  columns : c'.columns = c.columns
  named : c'.named = c.named

namespace Peers

theorem refl (c : Catalog) : c.Peers c :=
  ⟨rfl, fun _ => rfl, rfl, rfl⟩

theorem column (h : c.Peers c') (id : ColumnId) : c'.column id = c.column id := by
  rw [Catalog.column, Catalog.column, column?, column?, h.columns]

theorem table (h : c.Peers c') (id : TableId) : (c'.table id).columns = (c.table id).columns := by
  have hcolumns : ∀ c : Catalog,
      (c.table id).columns = ((c.table? id).map Table.columns).getD [] := by
    intro c
    rw [Catalog.table]
    cases c.table? id <;> rfl
  rw [hcolumns, hcolumns, h.table?]

theorem outputs (h : c.Peers c') (table : TableId) : c'.outputs table = c.outputs table := by
  simp only [Catalog.outputs, h.table, h.column]

theorem findTables (h : c.Peers c') (name : String) : c'.findTables name = c.findTables name := by
  rw [Catalog.findTables, Catalog.findTables, h.named]

theorem findColumns (h : c.Peers c') (table : TableId) (name : String) :
    c'.findColumns table name = c.findColumns table name := by
  simp only [Catalog.findColumns, h.table, h.column]

theorem addTable (h : c.Peers c') (name name' : String) :
    (c'.addTable name' .derived).1 = (c.addTable name .derived).1 ∧
      (c.addTable name .derived).2.Peers (c'.addTable name' .derived).2 := by
  have hid : (c'.addTable name' .derived).1 = (c.addTable name .derived).1 :=
    congrArg TableId.mk h.length
  refine ⟨hid, ?_, fun id => ?_, h.columns, h.named⟩
  · simp only [Catalog.addTable, List.length_append, h.length, List.length_singleton]
  · rw [table?_addTable, table?_addTable, hid]
    split
    · rfl
    · exact h.table? id

theorem addColumn (h : c.Peers c') (table : TableId) (column : Column) :
    (c'.addColumn table column).1 = (c.addColumn table column).1 ∧
      (c.addColumn table column).2.Peers (c'.addColumn table column).2 := by
  have hid : (c'.addColumn table column).1 = (c.addColumn table column).1 :=
    congrArg (ColumnId.mk ·.length) h.columns
  refine ⟨hid, ?_, fun id => ?_, ?_, h.named⟩
  · simp only [Catalog.addColumn, modifyTable, List.length_modify, h.length]
  · have hlisted : ∀ c : Catalog, ((c.addColumn table column).2.table? id).map Table.columns =
        ((c.table? id).map Table.columns).map fun columns =>
          if table = id then columns ++ [(c.addColumn table column).1] else columns := by
      intro c
      rw [table?_addColumn]
      cases c.table? id with
      | none => rfl
      | some t =>
        simp only [Option.map_some]
        split <;> rfl
    rw [hlisted, hlisted, h.table?, hid]
  · simp only [Catalog.addColumn, modifyTable, h.columns]

theorem copyColumns (h : c.Peers c') (source target : TableId) :
    (c.copyColumns source target).Peers (c'.copyColumns source target) := by
  have hfold : ∀ (ids : List ColumnId) {copied copied' : Catalog}, copied.Peers copied' →
      (ids.foldl (fun copied id => (copied.addColumn target
          { Column.plain (c.column id).name (c.column id).type target with
            primaryKey := (c.column id).primaryKey }).2) copied).Peers
        (ids.foldl (fun copied id => (copied.addColumn target
          { Column.plain (c.column id).name (c.column id).type target with
            primaryKey := (c.column id).primaryKey }).2) copied') := by
    intro ids
    induction ids with
    | nil => exact fun hcopied => hcopied
    | cons id ids ih => exact fun hcopied => ih (hcopied.addColumn target _).2
  unfold Catalog.copyColumns
  simp only [h.table, h.column]
  exact hfold _ h

theorem copyAll (h : c.Peers c') (target : TableId) (sources : List (String × TableId)) :
    (sources.foldl (fun c entry => c.copyColumns entry.2 target) c).Peers
      (sources.foldl (fun c entry => c.copyColumns entry.2 target) c') := by
  induction sources generalizing c c' with
  | nil => exact h
  | cons entry sources ih => exact ih (h.copyColumns entry.2 target)

end Peers
end Catalog

/-! ### States -/

namespace ResolverState

variable {s t : ResolverState}

/-- The catalogs are peers, the innermost scopes bind the same, and so do the scopes around
these name by name. -/
structure Peers (s t : ResolverState) : Prop where
  catalog : s.catalog.Peers t.catalog
  innermost : t.innermost.symbols = s.innermost.symbols
  outer : ∀ name, (t.scopes.tail.filterMap fun scope => scope.symbol? name) =
    s.scopes.tail.filterMap fun scope => scope.symbol? name

theorem Peers.refl (s : ResolverState) : s.Peers s :=
  ⟨.refl _, rfl, fun _ => rfl⟩

theorem scopes_eq_cons (s : ResolverState) : s.scopes = s.innermost :: s.scopes.tail := by
  obtain ⟨outer, houter⟩ := s.scopes_eq
  rw [houter, List.tail_cons]

theorem Peers.meanings (h : s.Peers t) (name : String) :
    (t.scopes.filterMap fun scope => scope.symbol? name) =
      s.scopes.filterMap fun scope => scope.symbol? name := by
  rw [s.scopes_eq_cons, t.scopes_eq_cons, List.filterMap_cons, List.filterMap_cons, h.outer,
    Scope.symbol?, Scope.symbol?, h.innermost]

theorem Peers.lookup (h : s.Peers t) (name : String) (wanted : Symbol → Bool) :
    Scope.lookup t.scopes name wanted = Scope.lookup s.scopes name wanted := by
  rw [Scope.lookup, Scope.lookup, h.meanings]

theorem scopes_modifyFrame (s : ResolverState) (f : Frame → Frame) :
    (s.modifyFrame f).scopes.tail = s.scopes.tail := by
  unfold scopes allFrames modifyFrame
  cases s.frames <;> rfl

/-- The same is bound in the innermost scopes. -/
theorem Peers.modifyFrame (h : s.Peers t) {f f' : Frame → Frame}
    (hf : ∀ frame frame' : Frame, frame'.scope.symbols = frame.scope.symbols →
      (f' frame').scope.symbols = (f frame).scope.symbols) :
    (s.modifyFrame f).Peers (t.modifyFrame f') := by
  refine ⟨?_, ?_, fun name => ?_⟩
  · rw [modifyFrame_catalog, modifyFrame_catalog]
    exact h.catalog
  · rw [innermost_modifyFrame, innermost_modifyFrame]
    exact hf _ _ h.innermost
  · rw [scopes_modifyFrame, scopes_modifyFrame]
    exact h.outer name

theorem bindAll_symbols {f : ColumnId → String} (ids : List ColumnId) {scope scope' : Scope}
    (h : scope'.symbols = scope.symbols) :
    (ids.foldl (fun scope id => scope.bindColumn (f id) id) scope').symbols =
      (ids.foldl (fun scope id => scope.bindColumn (f id) id) scope).symbols := by
  induction ids generalizing scope scope' with
  | nil => exact h
  | cons id ids ih =>
    refine ih ?_
    simp only [Scope.bindColumn, h]

theorem Peers.bindColumns (h : s.Peers t) (table : TableId) :
    (s.bindColumns table).Peers (t.bindColumns table) := by
  unfold ResolverState.bindColumns
  simp only [h.catalog.table, h.catalog.column]
  exact h.modifyFrame fun _ _ hframe => bindAll_symbols _ hframe

theorem Peers.bindTable (h : s.Peers t) (name : String) (table : TableId) :
    (s.bindTable name table).Peers (t.bindTable name table) := by
  refine Peers.bindColumns (h.modifyFrame fun _ _ hframe => ?_) table
  simp only [Scope.bindTable, hframe]

theorem Peers.bindColumn (h : s.Peers t) (name : String) (column : ColumnId) :
    (s.bindColumn name column).Peers (t.bindColumn name column) := by
  refine h.modifyFrame fun _ _ hframe => ?_
  simp only [Scope.bindColumn, hframe]

theorem Peers.enter (h : s.Peers t) (span : Span) : (s.enter span).Peers (t.enter span) :=
  ⟨h.catalog, rfl, h.meanings⟩

/-- A scope in which nothing is bound makes no difference to what is resolved further inside. -/
theorem peers_enter_enter (s : ResolverState) (span outer : Span) :
    (s.enter span).Peers ((s.enter outer).enter span) :=
  ⟨.refl _, rfl, fun _ => rfl⟩

end ResolverState

namespace Resolver

open ResolverState

variable {α β : Type}

/-- What is run in a scope of its own leaves the open scopes as they were. -/
theorem scopes_within {r : Resolver α} (hr : Orderly r) (span : Span) (s : ResolverState) :
    ((within span r).run s).2.scopes = s.scopes := by
  have hkeeps := (hr (s.enter span) (List.cons_ne_nil _ _)).keeps
  obtain ⟨tree, hleave⟩ := leave_of_keeps hkeeps
  have hroot : (r.run (s.enter span)).2.root = s.root := hkeeps.root
  rw [run_within, hleave]
  unfold scopes allFrames ResolverState.modifyFrame
  cases s.frames <;> simp [hroot]

/-- From peers, two resolvers give the same and end as peers. -/
def Matched (r r' : Resolver α) : Prop :=
  ∀ s t : ResolverState, s.Peers t →
    (r'.run t).1 = (r.run s).1 ∧ (r.run s).2.Peers (r'.run t).2

namespace Matched

variable {r r' : Resolver α} {f f' : α → Resolver β}

theorem pure (a : α) : Matched (pure a) (pure a) :=
  fun _ _ h => ⟨rfl, h⟩

theorem bind (hr : Matched r r') (hf : ∀ a, Matched (f a) (f' a)) :
    Matched (r >>= f) (r' >>= f') := by
  intro s t h
  obtain ⟨hresult, hafter⟩ := hr s t h
  rw [run_bind, run_bind, hresult]
  exact hf _ _ _ hafter

theorem view {f f' : ResolverState → Resolver β}
    (hf : ∀ s t : ResolverState, s.Peers t → Matched (f s) (f' t)) :
    Matched (get >>= f) (get >>= f') :=
  fun s t h => hf s t h s t h

theorem viewCatalog {f f' : Catalog → Resolver β}
    (hf : ∀ c c' : Catalog, c.Peers c' → Matched (f c) (f' c')) :
    Matched (catalog >>= f) (catalog >>= f') :=
  fun s t h => hf _ _ h.catalog s t h

theorem update {g g' : ResolverState → ResolverState}
    (hg : ∀ s t : ResolverState, s.Peers t → (g s).Peers (g' t)) :
    Matched (modify g : Resolver Unit) (modify g') :=
  fun s t h => ⟨rfl, hg s t h⟩

theorem modifyCatalog {g g' : Catalog → Catalog}
    (hg : ∀ c c' : Catalog, c.Peers c' → (g c).Peers (g' c')) :
    Matched (Resolver.modifyCatalog g) (Resolver.modifyCatalog g') :=
  update fun _ _ h => { h with catalog := hg _ _ h.catalog }

theorem within (hr : Matched r r') (horderly : Orderly r) (horderly' : Orderly r') (span : Span) :
    Matched (within span r) (Resolver.within span r') := by
  intro s t h
  obtain ⟨hresult, hafter⟩ := hr _ _ (h.enter span)
  have hscopes := scopes_within horderly span s
  have hscopes' := scopes_within horderly' span t
  have hinnermost : ∀ s s' : ResolverState, s'.scopes = s.scopes → s'.innermost = s.innermost := by
    intro s s' heq
    rw [s.scopes_eq_cons, s'.scopes_eq_cons] at heq
    exact (List.cons.inj heq).1
  refine ⟨hresult, ?_, ?_, fun name => ?_⟩
  · rw [run_within, run_within, leave_catalog, leave_catalog]
    exact hafter.catalog
  · rw [hinnermost _ _ hscopes, hinnermost _ _ hscopes', h.innermost]
  · rw [hscopes, hscopes', h.outer]

end Matched

/-! ### Complaints -/

/-- Whatever the state, a resolver gives the same and only complains. -/
def Remarking (r : Resolver α) (a : α) : Prop :=
  ∀ s, ∃ ds, r.run s = (a, { s with diagnostics := ds })

namespace Remarking

variable {r r' : Resolver α} {f : α → Resolver β} {a : α} {b : β}

theorem pure (a : α) : Remarking (pure a) a :=
  fun s => ⟨s.diagnostics, rfl⟩

theorem complain (make : Range → Diagnostic) (span : Span) : Remarking (complain make span) () :=
  fun _ => ⟨_, rfl⟩

theorem bind (hr : Remarking r a) (hf : Remarking (f a) b) : Remarking (r >>= f) b := by
  intro s
  obtain ⟨ds, hrun⟩ := hr s
  obtain ⟨ds', hrun'⟩ := hf { s with diagnostics := ds }
  exact ⟨ds', by rw [run_bind, hrun, hrun']⟩

theorem view {f : ResolverState → Resolver β} (hf : ∀ s, Remarking (f s) b) :
    Remarking (get >>= f) b :=
  fun s => hf s s

theorem refuse (make : Range → Diagnostic) (span : Span) (a : α) :
    Remarking (do Resolver.complain make span; return a) a :=
  (complain make span).bind (pure a)

theorem matched (hr : Remarking r a) (hr' : Remarking r' a) : Matched r r' := by
  intro s t h
  obtain ⟨ds, hrun⟩ := hr s
  obtain ⟨ds', hrun'⟩ := hr' t
  rw [hrun, hrun']
  exact ⟨rfl, h.catalog, h.innermost, h.outer⟩

end Remarking
end Resolver
end SqlAnalysis
