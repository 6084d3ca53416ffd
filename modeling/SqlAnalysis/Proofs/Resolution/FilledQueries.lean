import SqlAnalysis.Proofs.Resolution.ResultColumns

/-!
# Queries with their results

The queries inside a tree are resolved one after the other, each while those around it are not
done yet. In the end the table of each of them has the columns that its list asks for.
-/
namespace SqlAnalysis.Resolver

open Catalog

variable {α : Type} {growing : TableId → Prop} {P : Catalog → Prop} {Q : Catalog → α → Prop}

/-! ### Lists of queries -/

/-- Every query of a list has its result, and none of their tables grows. -/
def AllFilled (growing : TableId → Prop) (c : Catalog) (selects : List Select) : Prop :=
  ∀ s ∈ selects, s.Filled growing c

theorem AllFilled.nil (growing : TableId → Prop) (c : Catalog) : AllFilled growing c [] :=
  fun _ hs => absurd hs List.not_mem_nil

theorem AllFilled.append {c : Catalog} {selects others : List Select}
    (h : AllFilled growing c selects) (h' : AllFilled growing c others) :
    AllFilled growing c (selects ++ others) :=
  List.forall_mem_append.mpr ⟨h, h'⟩

/-- Sources that can be copied to the result of the query around them. -/
def Copyable (growing : TableId → Prop) (c : Catalog) (items : List (String × TableId)) : Prop :=
  ∀ item ∈ items, c.HasTable item.2 ∧ ¬growing item.2

theorem Copyable.append {c : Catalog} {items others : List (String × TableId)}
    (h : Copyable growing c items) (h' : Copyable growing c others) :
    Copyable growing c (items ++ others) :=
  List.forall_mem_append.mpr ⟨h, h'⟩

/-- A source with its name and table, which are those that it can be copied from. -/
structure SourceFilled (growing : TableId → Prop) (c : Catalog)
    (found : Source × Option (String × TableId)) : Prop where
  item : found.2 = found.1.item?
  copyable : Copyable growing c found.2.toList
  selects : AllFilled growing c found.1.selects

structure JoinsFilled (growing : TableId → Prop) (c : Catalog)
    (found : List Join × List (String × TableId)) : Prop where
  items : found.2 = (found.1.map Join.source).filterMap Source.item?
  copyable : Copyable growing c found.2
  selects : AllFilled growing c (joinSelects found.1)

structure SourcesFilled (growing : TableId → Prop) (c : Catalog)
    (found : Option FromClause × List (String × TableId)) : Prop where
  items : found.2 = (found.1.map fun clause => clause.sources.filterMap Source.item?).getD []
  copyable : Copyable growing c found.2
  selects : AllFilled growing c (sourceSelects found.1)

/-- A query with its table, all queries inside it being done. -/
structure QueryFilled (growing : TableId → Prop) (c : Catalog) (found : Select × TableId) :
    Prop where
  result : found.1.result = some found.2
  selects : AllFilled growing c found.1.selects

theorem QueryFilled.copyable {c : Catalog} {found : Select × TableId}
    (h : QueryFilled growing c found) (name : String) : Copyable growing c [(name, found.2)] :=
  List.forall_mem_singleton.mpr
    ((h.selects found.1 found.1.self_mem_selects).result found.2 h.result)

theorem filterMap_cons {first : Source} {others : List Source} :
    (first :: others).filterMap Source.item? =
      first.item?.toList ++ others.filterMap Source.item? := by
  rw [List.filterMap_cons]
  cases first.item? <;> rfl

/-! ### Names, sources and conditions -/

theorem dot_fills (note : Note) (left : Expr) (right : Ident) :
    Fills growing P (dot note left right) fun c e => AllFilled growing c e.selects := by
  have hselects : Yields (dot note left right) fun e => e.selects = [] := by
    unfold dot
    split
    · refine .after fun found => ?_
      split
      · exact .after fun _ => .after fun _ => .pure rfl
      · exact .pure rfl
    · exact .after fun _ => .pure rfl
  refine ((Fills.quiet (dot_quiet note left right)).yields hselects).weaken fun c e h => ?_
  rw [h.2]
  exact .nil growing c

/-- A table that can be found by its name is not the result of a query. -/
theorem tableSource_fills (name : Ident) (label : Option Ident) :
    Fills growing P (tableSource name label) (SourceFilled growing) := by
  intro s hs hgrowing hP
  have hrun := Fills.quiet (tableSource_quiet name label) s hs hgrowing hP
  refine ⟨hrun.keeps, hrun.indexed, fun c hc => ?_⟩
  have hlater := hrun.keeps.trans hc
  unfold tableSource
  rw [run_bind]
  rcases catalogTable?_run name s with ⟨id, hid, hfound⟩ | ⟨hnone, -⟩
  · have hlive := hs.isLive_of_findTables (hid ▸ List.mem_cons_self : id ∈ _)
    obtain ⟨t, ht, -, hnamed⟩ := hlive
    rw [hfound]
    refine ⟨rfl, List.forall_mem_singleton.mpr ⟨?_, fun hgrows => ?_⟩, .nil growing c⟩
    · exact hlater.preserves.hasTable (lt_of_table? ht)
    · rw [← table_eq_of_table? ht, (hgrowing id hgrows).2] at hnamed
      exact hnamed rfl
  · rw [hnone]
    exact ⟨rfl, fun _ h => absurd h List.not_mem_nil, .nil growing c⟩

theorem condition_fills {r : Resolver Expr}
    (h : Fills growing P r fun c e => AllFilled growing c e.selects) (clause : String)
    (span : Span) :
    Fills growing P (condition clause span r) fun c e => AllFilled growing c e.selects := by
  refine .within (h.bind fun e => ?_) span
  exact (Fills.quiet (requireBoolean_quiet clause e)).bind fun _ => .pure fun c h => h.1.2

/-! ### Results -/

/-- What a list asks for stands in the table of its result, which does not grow any more. -/
structure ResultFilled (growing : TableId → Prop) (items : List (String × TableId))
    (result : TableId) (columns : List ResultColumn) (c : Catalog) : Prop where
  hasTable : c.HasTable result
  still : ¬growing result
  outputs : c.outputs result = columns.flatMap fun column => column.outputs c items
  selects : AllFilled growing c (columnSelects columns)

theorem ResultFilled.mono {items : List (String × TableId)} {result : TableId}
    {columns : List ResultColumn} {c c' : Catalog}
    (h : ResultFilled growing items result columns c) (hitems : Copyable growing c items)
    (hc : c.KeepsOutputs growing c') : ResultFilled growing items result columns c' where
  hasTable := hc.preserves.hasTable h.hasTable
  still := h.still
  outputs := by
    rw [hc.outputs result h.hasTable h.still, h.outputs]
    exact List.flatMap_congr fun column _ => (column.outputs_congr fun item hitem =>
      hc.outputs item.2 (hitems item hitem).1 (hitems item hitem).2).symm
  selects s hs := (h.selects s hs).mono hc

/-- The table of a result is added and filled. While that goes on it grows, so the queries in
the list are resolved as such around which it does. -/
theorem result_fills (name : String) (hasSource : Bool) {items : List (String × TableId)}
    {columns : List ResultColumn} (hitems : ∀ c, P c → Copyable growing c items)
    (hcolumns : ∀ (growing' : TableId → Prop) result, growing' result →
      Fills growing' (fun _ => True) (resultColumns result hasSource items columns)
        fun c found => AllFilled growing' c (columnSelects found.1)) :
    Fills growing P
      (do
        let result ← addTable name .derived
        let entries ← resultColumns result hasSource items columns
        return (result, entries))
      fun c found => ResultFilled growing items found.1 found.2.1 c := by
  intro s hs hgrowing hP
  have hcopyable := hitems _ (hP _ (.refl _))
  let result := (s.catalog.addTable name .derived).1
  let s' : ResolverState := { s with catalog := (s.catalog.addTable name .derived).2 }
  have hfresh : ¬s.catalog.HasTable result := Nat.lt_irrefl _
  have hadded : s.catalog.KeepsOutputs growing s'.catalog := keepsOutputs_addTable hs name
  have hnew : Fillable result items s'.catalog :=
    fillable_addTable hs name fun item hitem => (hcopyable item hitem).1
  have hgrowing' : Growing (fun table => growing table ∨ table = result) s'.catalog := by
    rintro table (hgrows | rfl)
    · exact (hgrowing.preserved hadded.preserves) table hgrows
    · exact ⟨hnew.hasTable, hnew.derived⟩
  have hrun := hcolumns _ result (.inr rfl) s' hnew.indexed hgrowing' fun _ _ => trivial
  have houtputs := resultColumns_outputs hasSource columns hnew
  dsimp only at houtputs
  rw [outputs_addTable_new, List.nil_append] at houtputs
  -- Tables that were there before are none of the new one, so the list leaves them alone too.
  have hkeeps : s.catalog.KeepsOutputs growing
      ((resultColumns result hasSource items columns).run s').2.catalog :=
    hadded.trans_new hrun.keeps hfresh
  have hstill : ¬growing result := fun hgrows => hfresh (hgrowing result hgrows).1
  refine ⟨hkeeps, hrun.indexed, fun c hc => ?_⟩
  have hfilled : ResultFilled growing items result
      ((resultColumns result hasSource items columns).run s').1.1
      ((resultColumns result hasSource items columns).run s').2.catalog :=
    ⟨hrun.keeps.preserves.hasTable hnew.hasTable, hstill, houtputs,
      fun q hq => (hrun.good _ (.refl _) q hq).weaken fun _ => .inl⟩
  exact hfilled.mono (hitems _ (hP _ hkeeps)) hc

/-! ### Expressions and queries -/

mutual

theorem term_fills {growing : TableId → Prop} {P : Catalog → Prop} :
    (e : Expr) → Fills growing P (term e) fun c e' => AllFilled growing c e'.selects
  | .constant _ _ => by
    rw [term]
    exact .pure fun c _ => .nil growing c
  | .name _ ident => by
    rw [term]
    refine (Fills.quiet (scopeColumn?_quiet ident)).bind fun column => ?_
    exact (Fills.quiet (columnType_quiet column)).bind fun type => .pure fun c _ => .nil growing c
  | .dot note left right => by
    rw [term]
    exact dot_fills note left right
  | .binary note left op right => by
    rw [term]
    refine (term_fills left).bind fun left' => ?_
    have hright := @term_fills growing (fun c => P c ∧ AllFilled growing c left'.selects) right
    dsimp only
    split
    · cases right with
      | subquery rightNote select =>
        refine (query_fills "subquery" select).bind fun found => ?_
        refine (Fills.quiet (onlyColumnType_quiet _ _ _)).bind fun type => ?_
        refine (Fills.quiet (requireMember_quiet _ _ _ _)).bind fun _ => .pure fun c h => ?_
        obtain ⟨⟨⟨⟨-, hleft⟩, hquery⟩, -⟩, -⟩ := h
        simp only [Expr.selects]
        exact hleft.append hquery.selects
      | list rightNote items =>
        refine (memberTerms_fills left'.type op items).bind fun items' => .pure fun c h => ?_
        simp only [Expr.selects]
        exact h.1.2.append h.2
      | _ =>
        refine hright.bind fun right' => ?_
        refine (Fills.quiet (requireMember_quiet _ _ _ _)).bind fun _ => .pure fun c h => ?_
        simp only [Expr.selects]
        exact h.1.1.2.append h.1.2
    · refine hright.bind fun right' => ?_
      refine (Fills.quiet (binaryType_quiet _ _ _ _)).bind fun type => .pure fun c h => ?_
      simp only [Expr.selects]
      exact h.1.1.2.append h.1.2
  | .unary note op operand => by
    rw [term]
    refine (term_fills operand).bind fun operand' => ?_
    refine (Fills.quiet (unaryType_quiet _ _ _)).bind fun type => .pure fun c h => ?_
    simpa only [Expr.selects] using h.1.2
  | .call note function args => by
    rw [term]
    refine (terms_fills args).bind fun args' => ?_
    refine (Fills.quiet (callType_quiet _ _ _ _)).bind fun type => .pure fun c h => ?_
    simpa only [Expr.selects] using h.1.2
  | .callStar note function star => by
    rw [term]
    exact (Fills.quiet (callType_quiet _ _ _ _)).bind fun type => .pure fun c _ => .nil growing c
  | .brackets note inner => by
    rw [term]
    refine (term_fills inner).bind fun inner' => .pure fun c h => ?_
    simpa only [Expr.selects] using h.2
  | .list note items => by
    rw [term]
    refine (terms_fills items).bind fun items' => .pure fun c h => ?_
    simpa only [Expr.selects] using h.2
  | .subquery note select => by
    rw [term]
    refine (query_fills "subquery" select).bind fun found => ?_
    refine (Fills.quiet (onlyColumnType_quiet _ _ _)).bind fun type => .pure fun c h => ?_
    simpa only [Expr.selects] using h.1.2.selects

theorem terms_fills {growing : TableId → Prop} {P : Catalog → Prop} :
    (es : List Expr) → Fills growing P (terms es) fun c es' => AllFilled growing c (exprSelects es')
  | [] => by
    rw [terms]
    exact .pure fun c _ => .nil growing c
  | e :: es => by
    rw [terms]
    refine (term_fills e).bind fun e' => (terms_fills es).bind fun es' => .pure fun c h => ?_
    simp only [exprSelects]
    exact h.1.2.append h.2

theorem memberTerms_fills {growing : TableId → Prop} {P : Catalog → Prop} (left : Option SqlType)
    (op : BinaryOperator) : (es : List Expr) →
      Fills growing P (memberTerms left op es) fun c es' => AllFilled growing c (exprSelects es')
  | [] => by
    rw [memberTerms]
    exact .pure fun c _ => .nil growing c
  | e :: es => by
    rw [memberTerms]
    refine (term_fills e).bind fun e' => ?_
    refine (Fills.quiet (requireMember_quiet _ _ _ _)).bind fun _ => ?_
    refine (memberTerms_fills left op es).bind fun es' => .pure fun c h => ?_
    simp only [exprSelects]
    exact h.1.1.2.append h.2

theorem source_fills {growing : TableId → Prop} {P : Catalog → Prop} :
    (s : Source) → Fills growing P (source s) (SourceFilled growing)
  | .table name label _ => by
    rw [source]
    exact tableSource_fills name label
  | .subquery select label span => by
    rw [source]
    refine (query_fills (subqueryName label) select).bind fun found => ?_
    refine (Fills.quiet (bindSubquery_quiet label _)).bind fun _ => .pure fun c h => ?_
    obtain ⟨⟨-, hquery⟩, -⟩ := h
    have hname : subqueryName label = (label.map Ident.name).getD "subquery" := by
      cases label <;> rfl
    refine ⟨?_, hquery.copyable _, ?_⟩
    · simp only [Source.item?, hquery.result, hname, Option.map_some]
    · simpa only [Source.selects] using hquery.selects

theorem joins_fills {growing : TableId → Prop} {P : Catalog → Prop} :
    (js : List Join) → Fills growing P (joins js) (JoinsFilled growing)
  | [] => by
    rw [joins]
    exact .pure fun c _ => ⟨rfl, fun _ h => absurd h List.not_mem_nil, .nil growing c⟩
  | ⟨natural, op, table, none, span⟩ :: rest => by
    rw [joins]
    refine (source_fills table).bind fun first => ?_
    refine (joins_fills rest).bind fun others => .pure fun c h => ?_
    obtain ⟨⟨-, hfirst⟩, hothers⟩ := h
    refine ⟨?_, hfirst.copyable.append hothers.copyable, ?_⟩
    · rw [hfirst.item, hothers.items, List.map_cons, filterMap_cons]
    · simp only [joinSelects]
      exact hfirst.selects.append hothers.selects
  | ⟨natural, op, table, some on, span⟩ :: rest => by
    rw [joins]
    refine (source_fills table).bind fun first => ?_
    refine (condition_fills (term_fills on) _ _).bind fun on' => ?_
    refine (joins_fills rest).bind fun others => .pure fun c h => ?_
    obtain ⟨⟨⟨-, hfirst⟩, hon⟩, hothers⟩ := h
    refine ⟨?_, hfirst.copyable.append hothers.copyable, ?_⟩
    · rw [hfirst.item, hothers.items, List.map_cons, filterMap_cons]
    · simp only [joinSelects]
      exact (hfirst.selects.append hon).append hothers.selects

theorem resultColumns_fills {growing : TableId → Prop} {P : Catalog → Prop} {result : TableId}
    (hresult : growing result) (hasSource : Bool) (items : List (String × TableId)) :
    (columns : List ResultColumn) → Fills growing P (resultColumns result hasSource items columns)
      fun c found => AllFilled growing c (columnSelects found.1)
  | [] => by
    rw [resultColumns]
    exact .pure fun c _ => .nil growing c
  | .star span :: rest => by
    rw [resultColumns]
    refine (addStar_fills hresult _ _).bind fun _ => ?_
    refine (resultColumns_fills hresult hasSource items rest).bind fun found => .pure fun c h => ?_
    simpa only [columnSelects] using h.2
  | .tableStar table :: rest => by
    rw [resultColumns]
    refine (addTableStar_fills hresult _).bind fun _ => ?_
    refine (resultColumns_fills hresult hasSource items rest).bind fun found => .pure fun c h => ?_
    simpa only [columnSelects] using h.2
  | .expr value label :: rest => by
    rw [resultColumns]
    refine (term_fills value).bind fun value' => ?_
    refine (addResultColumn_fills hresult _ _).bind fun entry => ?_
    refine (resultColumns_fills hresult hasSource items rest).bind fun found => .pure fun c h => ?_
    simp only [columnSelects]
    exact h.1.1.2.append h.2

theorem orderingTerms_fills {growing : TableId → Prop} {P : Catalog → Prop} :
    (items : List OrderingTerm) → Fills growing P (orderingTerms items)
      fun c items' => AllFilled growing c (termSelects items')
  | [] => by
    rw [orderingTerms]
    exact .pure fun c _ => .nil growing c
  | ⟨expr, _, _⟩ :: rest => by
    rw [orderingTerms]
    refine (term_fills expr).bind fun expr' => ?_
    refine (orderingTerms_fills rest).bind fun items => .pure fun c h => ?_
    simp only [termSelects]
    exact h.1.2.append h.2

theorem sources_fills {growing : TableId → Prop} {P : Catalog → Prop} :
    (clause : Option FromClause) → Fills growing P (sources clause) (SourcesFilled growing)
  | none => by
    rw [sources]
    exact .pure fun c _ => ⟨rfl, fun _ h => absurd h List.not_mem_nil, .nil growing c⟩
  | some ⟨first, others⟩ => by
    rw [sources]
    refine (source_fills first).bind fun first' => ?_
    refine (joins_fills others).bind fun others' => .pure fun c h => ?_
    obtain ⟨⟨-, hfirst⟩, hothers⟩ := h
    refine ⟨?_, hfirst.copyable.append hothers.copyable, ?_⟩
    · rw [hfirst.item, hothers.items, Option.map_some, Option.getD_some, FromClause.sources,
        filterMap_cons]
    · simp only [sourceSelects]
      exact hfirst.selects.append hothers.selects

theorem rowCondition_fills {growing : TableId → Prop} {P : Catalog → Prop} :
    (test : Option Expr) → Fills growing P (rowCondition test)
      fun c test' => AllFilled growing c (optionSelects test')
  | none => by
    rw [rowCondition]
    exact .pure fun c _ => .nil growing c
  | some e => by
    rw [rowCondition]
    refine (condition_fills (term_fills e) _ _).bind fun e' => .pure fun c h => ?_
    simpa only [optionSelects] using h.2

theorem groups_fills {growing : TableId → Prop} {P : Catalog → Prop} :
    (clause : Option GroupBy) → Fills growing P (groups clause)
      fun c clause' => AllFilled growing c (groupSelects clause')
  | none => by
    rw [groups]
    exact .pure fun c _ => .nil growing c
  | some ⟨exprs, none, span⟩ => by
    rw [groups]
    refine (terms_fills exprs).bind fun exprs' => .pure fun c h => ?_
    simp only [groupSelects, optionSelects]
    exact h.2.append (.nil growing c)
  | some ⟨exprs, some having, span⟩ => by
    rw [groups]
    refine (terms_fills exprs).bind fun exprs' => ?_
    refine (condition_fills (term_fills having) _ _).bind fun having' => .pure fun c h => ?_
    simp only [groupSelects, optionSelects]
    exact h.1.2.append h.2

theorem order_fills {growing : TableId → Prop} {P : Catalog → Prop}
    (aliases : List (String × ColumnId)) :
    (clause : Option OrderBy) → Fills growing P (order aliases clause)
      fun c clause' => AllFilled growing c (orderSelects clause')
  | none => by
    rw [order]
    exact .pure fun c _ => .nil growing c
  | some ⟨items, span⟩ => by
    rw [order]
    refine .within ((Fills.quiet (bindAliases_quiet aliases)).bind fun _ => ?_) span
    refine (orderingTerms_fills items).bind fun items' => .pure fun c h => ?_
    simpa only [orderSelects] using h.2

theorem limits_fills {growing : TableId → Prop} {P : Catalog → Prop} :
    (clause : Option Limit) → Fills growing P (limits clause)
      fun c clause' => AllFilled growing c (limitSelects clause')
  | none => by
    rw [limits]
    exact .pure fun c _ => .nil growing c
  | some ⟨count, none, span⟩ => by
    rw [limits]
    refine (term_fills count).bind fun count' => ?_
    refine (Fills.quiet (requireInteger_quiet count')).bind fun _ => .pure fun c h => ?_
    simp only [limitSelects, optionSelects]
    exact h.1.2.append (.nil growing c)
  | some ⟨count, some offset, span⟩ => by
    rw [limits]
    refine (term_fills count).bind fun count' => ?_
    refine (Fills.quiet (requireInteger_quiet count')).bind fun _ => ?_
    refine (term_fills offset).bind fun offset' => ?_
    refine (Fills.quiet (requireInteger_quiet offset')).bind fun _ => .pure fun c h => ?_
    simp only [limitSelects, optionSelects]
    exact h.1.1.1.2.append h.1.2

theorem query_fills {growing : TableId → Prop} {P : Catalog → Prop} (name : String) :
    (s : Select) → Fills growing P (query name s) (QueryFilled growing)
  | ⟨distinct, columns, clause, test, groupBy, orderBy, limit, span, _⟩ => by
    rw [query_eq]
    refine .within ((sources_fills clause).bind fun found => ?_) span
    have hresult := result_fills name found.1.isSome
      (fun c (h : P c ∧ SourcesFilled growing c found) => h.2.copyable)
      fun growing' result hgrows => resultColumns_fills hgrows found.1.isSome found.2 columns
    refine Fills.bind (f := fun entries => restOfQuery _ found.1 entries.1 entries.2) hresult
      fun entries => ?_
    refine (rowCondition_fills test).bind fun test' => ?_
    refine (groups_fills groupBy).bind fun groupBy' => ?_
    refine (order_fills entries.2.2 orderBy).bind fun orderBy' => ?_
    refine (limits_fills limit).bind fun limit' => .pure fun c h => ?_
    obtain ⟨⟨⟨⟨⟨⟨-, hsources⟩, hcolumns⟩, htest⟩, hgroupBy⟩, horderBy⟩, hlimit⟩ := h
    refine ⟨rfl, ?_⟩
    simp only [Select.selects]
    refine List.forall_mem_cons.mpr ⟨⟨⟨entries.1, rfl, ?_⟩, ?_, ?_⟩, ?_⟩
    · rw [hcolumns.outputs, hsources.items]
      rfl
    · intro other hother
      obtain rfl := Option.some.inj hother
      exact ⟨hcolumns.hasTable, hcolumns.still⟩
    · rw [Select.items, ← hsources.items]
      exact hsources.copyable
    · exact ((((hcolumns.selects.append hsources.selects).append htest).append hgroupBy).append
        horderBy).append hlimit

end

end SqlAnalysis.Resolver
