import SqlAnalysis.Proofs.Catalog.Frames
import SqlAnalysis.Proofs.Resolution.QueryStages
import SqlAnalysis.Proofs.Resolution.Visibility
import SqlAnalysis.Proofs.Syntax.Nodes

/-!
# The columns of results

The table of a query has the columns that its list asks for, in the order of the list. While
they are added one by one other queries are resolved, whose tables stand in the same catalog;
only the tables of queries that are still being resolved grow, and no source is one of these.
-/
namespace SqlAnalysis

open Catalog

/-! ### What a query asks for -/

/-- The name that an expression brings along: an identifier is its own, of a qualified name
it is what stands behind the point. -/
def Expr.lastName? : Expr → Option Ident
  | .name _ ident => some ident
  | .dot _ _ right => some right
  | _ => none

/-- A resolved source with the name by which it is visible. -/
def Source.item? : Source → Option (String × TableId)
  | .table name label binding => binding.map fun table => ((label.getD name).name, table)
  | .subquery select label _ =>
    select.result.map fun table => ((label.map Ident.name).getD "subquery", table)

/-- The resolved sources of a query from left to right. -/
def Select.items (s : Select) : List (String × TableId) :=
  (s.source.map fun clause => clause.sources.filterMap Source.item?).getD []

/-- The columns that one entry of the list of a query asks for. -/
def ResultColumn.outputs (c : Catalog) (items : List (String × TableId)) :
    ResultColumn → List (String × Option SqlType)
  | .star _ => items.flatMap fun item => c.outputs item.2
  | .tableStar name =>
    ((items.find? fun item => name.isNamed item.1).map fun item => c.outputs item.2).getD []
  | .expr value label =>
    [(((label <|> value.lastName?).map Ident.name).getD value.render, value.type)]

/-- The table of the result has the columns that the list asks for. -/
def Select.Follows (c : Catalog) (s : Select) : Prop :=
  ∃ result, s.result = some result ∧
    c.outputs result = s.columns.flatMap fun column => column.outputs c s.items

/-- Besides, neither this table nor a source still grows. -/
structure Select.Filled (growing : TableId → Prop) (c : Catalog) (s : Select) : Prop where
  follows : s.Follows c
  result : ∀ result, s.result = some result → c.HasTable result ∧ ¬growing result
  items : ∀ item ∈ s.items, c.HasTable item.2 ∧ ¬growing item.2

theorem ResultColumn.outputs_congr {c c' : Catalog} {items : List (String × TableId)}
    (h : ∀ item ∈ items, c'.outputs item.2 = c.outputs item.2) (column : ResultColumn) :
    column.outputs c' items = column.outputs c items := by
  cases column with
  | star span => exact List.flatMap_congr h
  | tableStar name =>
    simp only [outputs]
    cases hitem : items.find? fun item => name.isNamed item.1 with
    | none => rfl
    | some item => exact h item (List.mem_of_find?_eq_some hitem)
  | expr value label => rfl

namespace Select.Filled

variable {growing growing' : TableId → Prop} {c c' : Catalog} {s : Select}

theorem mono (h : s.Filled growing c) (hkeeps : c.KeepsOutputs growing c') :
    s.Filled growing c' := by
  have hitems : ∀ item ∈ s.items, c'.outputs item.2 = c.outputs item.2 :=
    fun item hitem => hkeeps.outputs _ (h.items item hitem).1 (h.items item hitem).2
  obtain ⟨result, hresult, houtputs⟩ := h.follows
  obtain ⟨hhas, hstill⟩ := h.result result hresult
  refine ⟨⟨result, hresult, ?_⟩, ?_, ?_⟩
  · rw [hkeeps.outputs result hhas hstill, houtputs]
    exact List.flatMap_congr fun column _ => (column.outputs_congr hitems).symm
  · intro other hother
    exact ⟨hkeeps.preserves.hasTable (h.result other hother).1, (h.result other hother).2⟩
  · intro item hitem
    exact ⟨hkeeps.preserves.hasTable (h.items item hitem).1, (h.items item hitem).2⟩

theorem weaken (h : s.Filled growing' c) (himp : ∀ table, growing table → growing' table) :
    s.Filled growing c where
  follows := h.follows
  result result hresult := (h.result result hresult).imp_right (mt (himp result))
  items item hitem := (h.items item hitem).imp_right (mt (himp item.2))

end Select.Filled

namespace Resolver

variable {α β : Type} {growing : TableId → Prop} {P P' : Catalog → Prop}
  {Q Q' : Catalog → α → Prop} {R : Catalog → β → Prop}

/-! ### Resolvers that fill the tables of results -/

/-- What grows are tables of queries. -/
def Growing (growing : TableId → Prop) (c : Catalog) : Prop :=
  ∀ table, growing table → c.HasTable table ∧ (c.table table).origin = .derived

theorem Growing.preserved {c c' : Catalog} (h : Growing growing c) (hc : c.Preserves c') :
    Growing growing c' :=
  fun table htable => ⟨hc.hasTable (h table htable).1,
    (hc.origin_eq (h table htable).1).trans (h table htable).2⟩

/-- A run changes no tables that exist but those that grow, and its result is good then and
as long as this goes on. -/
structure FillsAt (growing : TableId → Prop) (s : ResolverState) (r : Resolver α)
    (Q : Catalog → α → Prop) : Prop where
  keeps : s.catalog.KeepsOutputs growing (r.run s).2.catalog
  indexed : (r.run s).2.catalog.Indexed
  good : ∀ c, (r.run s).2.catalog.KeepsOutputs growing c → Q c (r.run s).1

/-- Every run does where something holds of the catalog and of all that becomes of it so. -/
def Fills (growing : TableId → Prop) (P : Catalog → Prop) (r : Resolver α)
    (Q : Catalog → α → Prop) : Prop :=
  ∀ s, s.catalog.Indexed → Growing growing s.catalog →
    (∀ c, s.catalog.KeepsOutputs growing c → P c) → FillsAt growing s r Q

namespace Fills

variable {r : Resolver α} {f : α → Resolver β}

theorem pure {a : α} (h : ∀ c, P c → Q c a) : Fills growing P (pure a) Q :=
  fun _ hs _ hP => ⟨.refl _, hs, fun c hc => h c (hP c hc)⟩

theorem bind (hr : Fills growing P r Q) (hf : ∀ a, Fills growing (fun c => P c ∧ Q c a) (f a) R) :
    Fills growing P (r >>= f) R := by
  intro s hs hgrowing hP
  have hrun := hr s hs hgrowing hP
  have hrun' := hf _ _ hrun.indexed (hgrowing.preserved hrun.keeps.preserves) fun c hc =>
    ⟨hP c (hrun.keeps.trans hc), hrun.good c hc⟩
  exact ⟨hrun.keeps.trans hrun'.keeps, hrun'.indexed, hrun'.good⟩

theorem weaken (hr : Fills growing P r Q) (hQ : ∀ c a, Q c a → Q' c a) :
    Fills growing P r Q' := by
  intro s hs hgrowing hP
  have hrun := hr s hs hgrowing hP
  exact ⟨hrun.keeps, hrun.indexed, fun c hc => hQ c _ (hrun.good c hc)⟩

theorem quiet (h : Quiet r) : Fills growing P r fun _ _ => True := by
  intro s hs _ _
  refine ⟨?_, ?_, fun _ _ => trivial⟩
  · rw [h s]
    exact .refl _
  · rw [h s]
    exact hs

theorem yields {Y : α → Prop} (hr : Fills growing P r Q) (hy : Yields r Y) :
    Fills growing P r fun c a => Q c a ∧ Y a := by
  intro s hs hgrowing hP
  have hrun := hr s hs hgrowing hP
  exact ⟨hrun.keeps, hrun.indexed, fun c hc => ⟨hrun.good c hc, hy s⟩⟩

theorem within (hr : Fills growing P r Q) (span : Span) : Fills growing P (within span r) Q := by
  intro s hs hgrowing hP
  have hrun := hr (s.enter span) hs hgrowing hP
  constructor
  · rw [run_within, ResolverState.leave_catalog]
    exact hrun.keeps
  · rw [run_within, ResolverState.leave_catalog]
    exact hrun.indexed
  · rw [run_within, ResolverState.leave_catalog]
    exact hrun.good

/-- What edits new tables and those that grow fills. -/
theorem of_evolves (h : ∀ own : Rights, (∀ table, growing table → own table) →
      Evolves own (Growing growing) r fun _ _ => True) : Fills growing P r fun _ _ => True := by
  intro s hs hgrowing _
  let own : Rights := ⟨fun table => growing table ∨ ¬s.catalog.HasTable table, False⟩
  have hrun := h own (fun _ => .inl) s ⟨hs, fun _ => .inr⟩ fun c hc =>
    hgrowing.preserved hc.preserves
  refine ⟨.of_edits hs (fun table htable hown => ?_) hrun.edits, hrun.edits.indexed hs,
    fun _ _ => trivial⟩
  exact hown.resolve_right (not_not_intro htable)

end Fills

/-! ### Columns of a result -/

section

variable {result : TableId} {items : List (String × TableId)} {s : ResolverState}

theorem addStar_fills (hresult : growing result) (hasSource : Bool) (span : Span) :
    Fills growing P (addStar result hasSource items span) fun _ _ => True :=
  .of_evolves fun _ hown => addStar_evolves
    (fun _ hc => ⟨(hc result hresult).1, hown result hresult, (hc result hresult).2⟩) _ _ _

theorem addTableStar_fills (hresult : growing result) (name : Ident) :
    Fills growing P (addTableStar result items name) fun _ _ => True :=
  .of_evolves fun _ hown => addTableStar_evolves
    (fun _ hc => ⟨(hc result hresult).1, hown result hresult, (hc result hresult).2⟩) _ _

theorem addResultColumn_fills (hresult : growing result) (value : Expr) (label : Option Ident) :
    Fills growing P (addResultColumn result value label) fun _ _ => True :=
  .of_evolves fun _ hown => addResultColumn_evolves
    (fun _ hc => ⟨(hc result hresult).1, hown result hresult, (hc result hresult).2⟩) _ _

theorem columnName_eq (value : Expr) :
    columnName value = (value.lastName?.map Ident.name).getD value.render := by
  cases value <;> rfl

theorem addResultColumn_outputs (items : List (String × TableId)) (hs : s.catalog.Indexed)
    (hresult : s.catalog.HasTable result) (value : Expr) (label : Option Ident) :
    ((addResultColumn result value label).run s).2.catalog.outputs result =
      s.catalog.outputs result ++ (ResultColumn.expr value label).outputs s.catalog items := by
  show (s.catalog.addColumn result _).2.outputs result = _
  rw [outputs_addColumn hs hresult, ResultColumn.outputs]
  cases label with
  | none =>
    show _ = _ ++ [((value.lastName?.map Ident.name).getD value.render, value.type)]
    rw [← columnName_eq]
    rfl
  | some label => rfl

/-- A catalog in which the table of a result can be filled with columns of sources. -/
structure Fillable (result : TableId) (items : List (String × TableId)) (c : Catalog) : Prop where
  indexed : c.Indexed
  hasTable : c.HasTable result
  derived : (c.table result).origin = .derived
  exist : ∀ item ∈ items, c.HasTable item.2 ∧ item.2 ≠ result

theorem fillable_addTable {c : Catalog} (hc : c.Indexed) (name : String)
    (hitems : ∀ item ∈ items, c.HasTable item.2) :
    Fillable (c.addTable name .derived).1 items (c.addTable name .derived).2 where
  indexed := hc.addTable name .derived
  hasTable := hasTable_addTable c name .derived
  derived := by
    have hnew := c.table?_addTable name .derived (c.addTable name .derived).1
    rw [if_pos rfl] at hnew
    rw [table_eq_of_table? hnew]
  exist item hitem := by
    refine ⟨(Preserves.addTable c name .derived).hasTable (hitems item hitem), fun heq => ?_⟩
    exact Nat.lt_irrefl _ (heq ▸ hitems item hitem : c.HasTable (c.addTable name .derived).1)

theorem Fillable.isGrowing {c : Catalog} (h : Fillable result items c) :
    Growing (· = result) c := by
  rintro _ rfl
  exact ⟨h.hasTable, h.derived⟩

/-- What fills the table leaves it as it was otherwise. -/
theorem Fillable.of_fills {r : Resolver α} (h : Fillable result items s.catalog)
    (hr : Fills (· = result) (fun _ => True) r fun _ _ => True) :
    Fillable result items (r.run s).2.catalog := by
  have hrun := hr s h.indexed h.isGrowing fun _ _ => trivial
  have hpreserves := hrun.keeps.preserves
  exact ⟨hrun.indexed, hpreserves.hasTable h.hasTable,
    (hpreserves.origin_eq h.hasTable).trans h.derived,
    fun item hitem => (h.exist item hitem).imp_left hpreserves.hasTable⟩

theorem addStar_outputs (h : Fillable result items s.catalog) (hasSource : Bool) (span : Span) :
    ((addStar result hasSource items span).run s).2.catalog.outputs result =
      s.catalog.outputs result ++ (ResultColumn.star span).outputs s.catalog items := by
  have hcatalog : ((addStar result hasSource items span).run s).2.catalog =
      items.foldl (fun c item => c.copyColumns item.2 result) s.catalog := by
    cases hasSource <;> rfl
  rw [hcatalog, outputs_copyAll h.exist h.indexed h.hasTable h.derived, ResultColumn.outputs]

theorem addTableStar_outputs (h : Fillable result items s.catalog) (name : Ident) :
    ((addTableStar result items name).run s).2.catalog.outputs result =
      s.catalog.outputs result ++ (ResultColumn.tableStar name).outputs s.catalog items := by
  simp only [addTableStar, ResultColumn.outputs]
  cases items.find? fun item => name.isNamed item.1 with
  | none => exact (List.append_nil _).symm
  | some item => exact outputs_copyColumns h.indexed h.hasTable

theorem resultColumns_keeps (h : Fillable result items s.catalog) (hasSource : Bool)
    (columns : List ResultColumn) : s.catalog.KeepsOutputs (· = result)
      ((resultColumns result hasSource items columns).run s).2.catalog := by
  have hfills : Fills (· = result) (fun _ => True) (resultColumns result hasSource items columns)
      fun _ _ => True := .of_evolves fun own hown => resultColumns_evolves
    (fun c hc => ⟨(hc result rfl).1, hown result rfl, (hc result rfl).2⟩) hasSource items columns
  exact (hfills s h.indexed h.isGrowing fun _ _ => trivial).keeps

/-- One column is added and then the others. -/
theorem outputs_cons {c c' c'' : Catalog} {column : ResultColumn} {columns : List ResultColumn}
    (hfirst : c'.outputs result = c.outputs result ++ column.outputs c items)
    (hrest : c''.outputs result = c'.outputs result ++
      columns.flatMap fun column => column.outputs c'' items)
    (hitems : ∀ item ∈ items, c''.outputs item.2 = c.outputs item.2) :
    c''.outputs result = c.outputs result ++
      (column :: columns).flatMap fun column => column.outputs c'' items := by
  rw [hrest, hfirst, List.flatMap_cons, column.outputs_congr hitems, List.append_assoc]

/-- The columns asked for come one after the other behind those that were there. -/
theorem resultColumns_outputs (hasSource : Bool) (columns : List ResultColumn) :
    ∀ {s : ResolverState}, Fillable result items s.catalog →
      let after := (resultColumns result hasSource items columns).run s
      after.2.catalog.outputs result = s.catalog.outputs result ++
        after.1.1.flatMap fun column => column.outputs after.2.catalog items := by
  induction columns with
  | nil =>
    intro s h
    rw [resultColumns]
    exact (List.append_nil _).symm
  | cons column columns ih =>
    intro s h
    have hkeeps := resultColumns_keeps h hasSource (column :: columns)
    have hitems := fun item hitem =>
      hkeeps.outputs item.2 (h.exist item hitem).1 (h.exist item hitem).2
    cases column with
    | star span =>
      have hstar : Fills (· = result) (fun _ => True) (addStar result hasSource items span)
        fun _ _ => True := addStar_fills (by rfl) hasSource span
      rw [resultColumns] at hitems ⊢
      exact outputs_cons (addStar_outputs h hasSource span) (ih (h.of_fills hstar)) hitems
    | tableStar name =>
      have hstar : Fills (· = result) (fun _ => True) (addTableStar result items name)
        fun _ _ => True := addTableStar_fills (by rfl) name
      rw [resultColumns] at hitems ⊢
      exact outputs_cons (addTableStar_outputs h name) (ih (h.of_fills hstar)) hitems
    | expr value label =>
      have hvalue : FillsAt (fun _ => False) s (term value) fun _ _ => True :=
        Fills.of_evolves (fun _ _ => term_evolves value) s h.indexed (fun _ h => h.elim)
          fun _ _ => trivial
      have hterm : Fills (· = result) (fun _ => True) (term value) fun _ _ => True :=
        .of_evolves fun _ _ => term_evolves value
      have hcolumn : Fills (· = result) (fun _ => True)
        (addResultColumn result ((term value).run s).1 label) fun _ _ => True :=
          addResultColumn_fills (by rfl) _ label
      have hafter := h.of_fills hterm
      have hfirst := addResultColumn_outputs items hafter.indexed hafter.hasTable
        ((term value).run s).1 label
      rw [hvalue.keeps.outputs result h.hasTable not_false] at hfirst
      rw [resultColumns] at hitems ⊢
      exact outputs_cons hfirst (ih (hafter.of_fills hcolumn)) hitems

end
end Resolver
end SqlAnalysis
