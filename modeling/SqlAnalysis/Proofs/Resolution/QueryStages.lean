import SqlAnalysis.Proofs.Resolution.Annotation
import SqlAnalysis.Proofs.Resolution.Orderly
import SqlAnalysis.Proofs.Resolution.QueryEdits

/-!
# Queries in stages

A query is resolved in the scope of its sources: first these, then the columns of its
result, then its conditions, groups, order and limit.
-/
namespace SqlAnalysis.Resolver

/-- What is left of a query once the columns of its result are known. -/
def restOfQuery (select : Select) (clause : Option FromClause) (result : TableId)
    (entries : List ResultColumn × List (String × ColumnId)) : Resolver (Select × TableId) := do
  let test ← rowCondition select.condition
  let groupBy ← groups select.groupBy
  let orderBy ← order entries.2 select.orderBy
  let limit ← limits select.limit
  return (⟨select.distinct, entries.1, clause, test, groupBy, orderBy, limit, select.span,
    some result⟩, result)

/-- What is left of a query once its sources are known. -/
def columnsOfQuery (name : String) (select : Select)
    (found : Option FromClause × List (String × TableId)) : Resolver (Select × TableId) := do
  let result ← addTable name .derived
  let entries ← resultColumns result found.1.isSome found.2 select.columns
  restOfQuery select found.1 result entries

theorem query_eq (name : String) (select : Select) :
    query name select = within select.span (sources select.source >>= columnsOfQuery name select) := by
  obtain ⟨distinct, columns, clause, test, groupBy, orderBy, limit, span, result⟩ := select
  rw [query]
  rfl

section

variable (select : Select) (clause : Option FromClause) (result : TableId)
  (entries : List ResultColumn × List (String × ColumnId))

theorem restOfQuery_orderly : Orderly (restOfQuery select clause result entries) :=
  (rowCondition_orderly _).bind fun _ => (groups_orderly _).bind fun _ =>
    (order_orderly _ _).bind fun _ => (limits_orderly _).bind fun _ => .pure _

theorem restOfQuery_evolves {own : Catalog.Rights} {P : Catalog → Prop} :
    Evolves own P (restOfQuery select clause result entries) fun _ _ => True :=
  (rowCondition_evolves _).bind fun _ => (groups_evolves _).bind fun _ =>
    (order_evolves _ _).bind fun _ => (limits_evolves _).bind fun _ => .pure fun _ _ => trivial

theorem restOfQuery_yields : Yields (restOfQuery select clause result entries) fun query =>
    query.1.source = clause ∧ query.1.columns = entries.1 :=
  .after fun _ => .after fun _ => .after fun _ => .after fun _ => .pure ⟨rfl, rfl⟩

end

theorem columnsOfQuery_evolves (own : Catalog.Rights) (name : String) (select : Select)
    (found : Option FromClause × List (String × TableId))
    {P : Catalog → Prop} : Evolves own P (columnsOfQuery name select found) fun _ _ => True := by
  refine (addResult_evolves name).bind fun result => ?_
  refine (resultColumns_evolves (fun c h => h.2) _ _ _).bind fun entries => ?_
  exact restOfQuery_evolves select found.1 result entries

theorem columnsOfQuery_source (name : String) (select : Select)
    (found : Option FromClause × List (String × TableId)) :
    Yields (columnsOfQuery name select found) fun query => query.1.source = found.1 :=
  .after fun result => .after fun entries s =>
    (restOfQuery_yields select found.1 result entries s).1

end SqlAnalysis.Resolver
