import SqlAnalysis.Proofs.Resolution.FilledQueries
import SqlAnalysis.Proofs.Resolution.PeerQueries

/-!
# Columns of queries and of queries around them

The columns of a query follow its list, wherever it is resolved and however deep it stands. A
query that asks for all columns of another one shows what that shows: the columns are copied,
and the scope in which the other query then stands binds nothing.
-/
namespace SqlAnalysis

open Catalog

/-- The query that asks for all columns of another one and for nothing else. -/
def Select.around (select : Select) (label : Option Ident) (star place span : Span) : Select where
  distinct := false
  columns := [.star star]
  source := some ⟨.subquery select label place, []⟩
  condition := none
  groupBy := none
  orderBy := none
  limit := none
  span := span
  result := none

/-- A query, or one around it, around which there may be others. -/
inductive Wraps (inner : Select) : Select → Prop
  | self : Wraps inner inner
  | around {select : Select} (h : Wraps inner select) (label : Option Ident)
    (star place span : Span) : Wraps inner (select.around label star place span)

namespace Resolver

open ResolverState

variable {s : ResolverState}

/-- The columns of a query that is resolved in a state, by name and type. -/
def outputsOf (name : String) (select : Select) (s : ResolverState) :
    List (String × Option SqlType) :=
  ((query name select).run s).2.catalog.outputs ((query name select).run s).1.2

/-- Nothing grows around a query that is resolved for itself. -/
theorem growing_nothing (c : Catalog) : Growing (fun _ => False) c :=
  fun _ h => h.elim

theorem query_follows (name : String) (select : Select) (hs : s.catalog.Indexed) :
    ((query name select).run s).1.1.result = some ((query name select).run s).1.2 ∧
      ∀ q ∈ ((query name select).run s).1.1.selects,
        q.Follows ((query name select).run s).2.catalog := by
  have hrun := query_fills (P := fun _ => True) name select s hs (growing_nothing _)
    fun _ _ => trivial
  obtain ⟨hresult, hselects⟩ := hrun.good _ (.refl _)
  exact ⟨hresult, fun q hq => (hselects q hq).follows⟩

theorem term_follows (e : Expr) (hs : s.catalog.Indexed) :
    ∀ q ∈ ((term e).run s).1.selects, q.Follows ((term e).run s).2.catalog := by
  have hrun := term_fills (P := fun _ => True) e s hs (growing_nothing _) fun _ _ => trivial
  exact fun q hq => (hrun.good _ (.refl _) q hq).follows

/-! ### Queries around queries -/

theorem clearedColumns_star {columns : List ResultColumn} {span : Span}
    (h : clearedColumns columns = [.star span]) : columns = [.star span] := by
  match columns with
  | [] => cases h
  | .star other :: rest =>
    simp only [clearedColumns, List.cons.injEq, ResultColumn.star.injEq] at h
    obtain ⟨rfl, hrest⟩ := h
    cases rest with
    | nil => rfl
    | cons column rest => cases column <;> cases hrest
  | .tableStar _ :: _ => cases h
  | .expr _ _ :: _ => cases h

/-- The name that the table of a query gets makes no difference to its columns. -/
theorem outputsOf_name (name name' : String) (select : Select) (s : ResolverState) :
    outputsOf name' select s = outputsOf name select s := by
  obtain ⟨hresult, hafter⟩ := query_matched name name' select s s (.refl s)
  rw [outputsOf, outputsOf, hresult]
  exact hafter.catalog.outputs _

/-- A scope around a query makes no difference either, if nothing is bound there. -/
theorem outputsOf_enter (name : String) (select : Select) (span : Span) (s : ResolverState) :
    outputsOf name select (s.enter span) = outputsOf name select s := by
  obtain ⟨hresult, hafter⟩ := queryBody_matched name name select _ _
    (s.peers_enter_enter select.span span)
  simp only [outputsOf, query_eq, run_within, leave_catalog]
  rw [hresult]
  exact hafter.catalog.outputs _

section

variable (name : String) (select : Select) (label : Option Ident) (star place span : Span)

/-- The query inside, resolved in the scope of the one around it. -/
def innerRun (select : Select) (label : Option Ident) (span : Span) (s : ResolverState) :
    (Select × TableId) × ResolverState :=
  (query (subqueryName label) select).run (s.enter span)

/-- A query around another one has that as its only source. -/
theorem run_around (s : ResolverState) :
    let inner := innerRun select label span s
    let rest := (columnsOfQuery name (select.around label star place span)
      (some ⟨.subquery inner.1.1 label place, []⟩, [(subqueryName label, inner.1.2)])).run
        ((bindSubquery label inner.1.2).run inner.2).2
    (query name (select.around label star place span)).run s = (rest.1, rest.2.leave) := by
  have hsources : sources (select.around label star place span).source = do
      let found ← query (subqueryName label) select
      bindSubquery label found.2
      return (some ⟨.subquery found.1 label place, []⟩, [(subqueryName label, found.2)]) := by
    show sources (some ⟨.subquery select label place, []⟩) = _
    rw [sources, source, joins]
    rfl
  rw [query_eq, run_within, hsources]
  rfl

theorem items_around (s : ResolverState) :
    ((query name (select.around label star place span)).run s).1.1.items =
      [(subqueryName label, (innerRun select label span s).1.2)] := by
  have hresult : (innerRun select label span s).1.1.result =
      some (innerRun select label span s).1.2 := query_result _ select _
  have hname : (label.map Ident.name).getD "subquery" = subqueryName label := by
    cases label <;> rfl
  rw [run_around, Select.items, columnsOfQuery_source]
  simp only [Option.map_some, Option.getD_some, FromClause.sources, List.map_nil,
    List.filterMap_cons, List.filterMap_nil, Source.item?, hresult, hname]

theorem columns_around (s : ResolverState) :
    ((query name (select.around label star place span)).run s).1.1.columns = [.star star] := by
  have hcleared := congrArg Select.columns
    (query_yields name (select.around label star place span) s)
  have hcolumns : ∀ s : Select, s.cleared.columns = clearedColumns s.columns := by
    rintro ⟨⟩
    rfl
  rw [hcolumns, hcolumns] at hcleared
  exact clearedColumns_star hcleared

theorem outputsOf_around (hs : s.catalog.Indexed) :
    outputsOf name (select.around label star place span) s =
      outputsOf (subqueryName label) select (s.enter span) := by
  obtain ⟨hresult, hselects⟩ := query_follows name (select.around label star place span) hs
  obtain ⟨table, htable, houtputs⟩ := hselects _ (Select.self_mem_selects _)
  obtain rfl := Option.some.inj (hresult.symm.trans htable)
  have hkept : ((query name (select.around label star place span)).run s).2.catalog.outputs
      (innerRun select label span s).1.2 =
        outputsOf (subqueryName label) select (s.enter span) := by
    have hinner := query_fills (P := fun _ => True) (subqueryName label) select (s.enter span) hs
      (growing_nothing _) fun _ _ => trivial
    obtain ⟨hinnerResult, hinnerSelects⟩ := hinner.good _ (.refl _)
    have hhas := ((hinnerSelects _ (Select.self_mem_selects _)).result _ hinnerResult).1
    have hquiet := bindSubquery_quiet label (innerRun select label span s).1.2
      (innerRun select label span s).2
    have hrest := Fills.of_evolves (P := fun _ => True)
      (fun own _ => columnsOfQuery_evolves own name (select.around label star place span)
        (some ⟨.subquery (innerRun select label span s).1.1 label place, []⟩,
          [(subqueryName label, (innerRun select label span s).1.2)]))
      _ (hquiet ▸ hinner.indexed) (growing_nothing _) fun _ _ => trivial
    rw [run_around, leave_catalog, hrest.keeps.outputs _ (hquiet ▸ hhas) not_false, hquiet]
    rfl
  rw [outputsOf, houtputs, columns_around, items_around, ← hkept]
  simp only [List.flatMap_singleton, ResultColumn.outputs]

end

theorem outputsOf_wraps {inner select : Select} (h : Wraps inner select) :
    ∀ {s : ResolverState}, s.catalog.Indexed → ∀ name name',
      outputsOf name' select s = outputsOf name inner s := by
  induction h with
  | self => exact fun _ name name' => outputsOf_name name name' inner _
  | @around select hwraps label star place span ih =>
    intro s hs name name'
    calc outputsOf name' (select.around label star place span) s
        = outputsOf (subqueryName label) select (s.enter span) :=
          outputsOf_around name' select label star place span hs
      _ = outputsOf name inner (s.enter span) := ih (s := s.enter span) hs name _
      _ = outputsOf name inner s := outputsOf_enter name inner span s

end Resolver

namespace Resolution

open Resolver

theorem indexed_ofStatements (index : LineIndex) (descriptors : List TableDescriptor)
    (statements : List Statement) :
    (ofStatements index (.ofDescriptors descriptors) statements).catalog.Indexed :=
  (edits_ofStatements index (.ofDescriptors descriptors) statements).indexed
    (.ofDescriptors descriptors)

/-- A statement that is a query gives what the query gives in the scope of the statement. -/
theorem ofStatements_select (index : LineIndex) (catalog : Catalog) {statement : Statement}
    {select : Select} (h : statement.body = .select select) :
    let after := (query "result" select).run ((ResolverState.start index catalog).enter
      statement.span)
    (ofStatements index catalog [statement]).statements.map Statement.body =
        [.select after.1.1] ∧
      (ofStatements index catalog [statement]).catalog = after.2.catalog := by
  have hrun : (Resolver.statement statement).run (.start index catalog) =
      ({ statement with body := .select ((query "result" select).run
          ((ResolverState.start index catalog).enter statement.span)).1.1 },
        ((query "result" select).run
          ((ResolverState.start index catalog).enter statement.span)).2.leave) := by
    rw [Resolver.statement, run_within, h]
    rfl
  have hlist := run_statements_cons statement [] (.start index catalog)
  rw [hrun] at hlist
  simp only [ofStatements, hlist]
  exact ⟨rfl, ResolverState.leave_catalog _⟩

/-- Wherever expressions and queries are resolved, the table of each query inside them has the
columns that its list asks for, and queries around a query show the same columns as it does.
So it is with every query of a batch over a schema. -/
theorem columns_follow_lists :
    (∀ s : ResolverState, s.catalog.Indexed →
      (∀ e, ∀ q ∈ ((term e).run s).1.selects, q.Follows ((term e).run s).2.catalog) ∧
      ∀ name select,
        let after := (query name select).run s
        after.1.1.cleared = select.cleared ∧ after.1.1.result = some after.1.2 ∧
          (∀ q ∈ after.1.1.selects, q.Follows after.2.catalog) ∧
          ∀ wrapped, Wraps select wrapped →
            ∀ name', outputsOf name' wrapped s = outputsOf name select s) ∧
    ∀ index descriptors before (statement : Statement) select,
      statement.body = .select select →
        let catalog := (ofStatements index (.ofDescriptors descriptors) before).catalog
        let after := ofStatements index catalog [statement]
        ∃ resolved, after.statements.map Statement.body = [.select resolved] ∧
          resolved.cleared = select.cleared ∧
          ∀ q ∈ resolved.selects, q.Follows after.catalog := by
  refine ⟨fun s hs => ⟨fun e => term_follows e hs, fun name select => ?_⟩, ?_⟩
  · obtain ⟨hresult, hfollows⟩ := query_follows name select hs
    exact ⟨query_yields name select s, hresult, hfollows,
      fun wrapped hwrapped name' => outputsOf_wraps hwrapped hs name name'⟩
  · intro index descriptors before statement select hbody
    obtain ⟨hstatements, hcatalog⟩ := ofStatements_select index
      (ofStatements index (.ofDescriptors descriptors) before).catalog hbody
    refine ⟨_, hstatements, query_yields "result" select _, ?_⟩
    have hs : ((ResolverState.start index _).enter statement.span).catalog.Indexed :=
      indexed_ofStatements index descriptors before
    rw [hcatalog]
    exact (query_follows "result" select hs).2

/-- `SELECT *, (SELECT id FROM t) AS n FROM t` inside `SELECT * FROM (…)` and that inside
`SELECT * FROM (…) AS x`. -/
theorem columns_follow_lists_around :
    let column : ColumnDescriptor := ⟨"id", "integer", false, none, false⟩
    let s := ResolverState.start ⟨[], 99⟩ (.ofDescriptors [⟨"t", none, [column], [], none⟩])
    let ident (name : String) : Ident := ⟨name, false, ⟨0, 1⟩⟩
    let clause : FromClause := ⟨.table (ident "t") none none, []⟩
    let scalar : Select := ⟨false, [.expr (.name ⟨⟨0, 1⟩, none, none⟩ (ident "id")) none],
      some clause, none, none, none, none, ⟨0, 1⟩, none⟩
    let select : Select := ⟨false, [.star ⟨0, 1⟩,
      .expr (.subquery ⟨⟨0, 1⟩, none, none⟩ scalar) (some (ident "n"))], some clause, none, none,
      none, none, ⟨0, 1⟩, none⟩
    let once := select.around none ⟨0, 1⟩ ⟨0, 1⟩ ⟨0, 1⟩
    let twice := once.around (some (ident "x")) ⟨0, 1⟩ ⟨0, 1⟩ ⟨0, 1⟩
    s.catalog.Indexed ∧ Wraps select twice ∧ outputsOf "result" twice s =
      [("id", some (.plain .integer)), ("n", some (.plain .integer))] := by
  intro column s ident clause scalar select once twice
  have hs : s.catalog.Indexed := .ofDescriptors _
  have hwraps : Wraps select twice := .around (.around .self none _ _ _) _ _ _ _
  have hsame := ((columns_follow_lists.1 s hs).2 "result" select).2.2.2 twice hwraps "result"
  refine ⟨hs, hwraps, hsame.trans ?_⟩
  decide +kernel

end Resolution
end SqlAnalysis
