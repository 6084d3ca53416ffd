import SqlAnalysis.Proofs.Resolution.Peers

/-!
# Queries resolved in equivalent places

Whatever is resolved, peers make no difference to it: look-ups find the same in them, and what
is bound or added to the catalog is the same. A query may even get its table under another
name.
-/
namespace SqlAnalysis.Resolver

open ResolverState

variable {α : Type}

/-! ### Look-ups -/

theorem catalogTable?_matched (name : Ident) :
    Matched (catalogTable? name) (catalogTable? name) := by
  refine .viewCatalog fun c c' h => ?_
  rw [h.findTables]
  split
  · exact .pure _
  · exact (Remarking.refuse _ _ _).matched (.refuse _ _ _)
  · exact (Remarking.refuse _ _ _).matched (.refuse _ _ _)

/-- Nothing is found, whether that is complained about or not. -/
theorem missing_remarking (wanted : Symbol → Bool) (message : String) (span : Span)
    (fix? : List String → Option String) (a : α) : Remarking
      (do
        if !(← get).isOpaque then
          let names ← visibleNames wanted
          errorWithFix message span (fix? names)
        return a) a := by
  refine .view fun s => ?_
  split
  · exact fun t => ⟨_, rfl⟩
  · exact .pure a

theorem scopeTable?_matched (name : Ident) : Matched (scopeTable? name) (scopeTable? name) := by
  refine .view fun s t h => ?_
  rw [h.lookup]
  split
  · split
    · exact .pure _
    · exact (Remarking.refuse _ _ _).matched (.refuse _ _ _)
  · exact (missing_remarking _ _ _ _ _).matched (missing_remarking _ _ _ _ _)

theorem scopeColumn?_matched (name : Ident) : Matched (scopeColumn? name) (scopeColumn? name) := by
  refine .view fun s t h => ?_
  rw [h.lookup]
  split
  · split
    · exact .pure _
    · exact .viewCatalog fun c c' _ => (Remarking.refuse _ _ _).matched (.refuse _ _ _)
  · exact (missing_remarking _ _ _ _ _).matched (missing_remarking _ _ _ _ _)

theorem tableColumn?_matched (table : TableId) (name : Ident) :
    Matched (tableColumn? table name) (tableColumn? table name) := by
  refine .viewCatalog fun c c' h => ?_
  dsimp only
  rw [h.findColumns]
  split
  · exact .pure _
  · exact (Remarking.refuse _ _ _).matched (.refuse _ _ _)
  · exact (Remarking.refuse _ _ _).matched (.refuse _ _ _)

theorem columnType_matched (column : Option ColumnId) :
    Matched (columnType column) (columnType column) := by
  refine .viewCatalog fun c c' h => ?_
  simp only [h.column]
  exact .pure _

theorem dot_matched (note : Note) (left : Expr) (right : Ident) :
    Matched (dot note left right) (dot note left right) := by
  unfold dot
  split
  · refine (scopeTable?_matched _).bind fun table? => ?_
    split
    · refine (tableColumn?_matched _ _).bind fun column => ?_
      exact (columnType_matched column).bind fun type => .pure _
    · exact .pure _
  · exact (Remarking.refuse _ _ _).matched (.refuse _ _ _)

theorem onlyColumnType_matched (table : TableId) (message : Nat → String) (span : Span) :
    Matched (onlyColumnType table fun count => error (message count) span)
      (onlyColumnType table fun count => error (message count) span) := by
  refine .viewCatalog fun c c' h => ?_
  rw [h.table]
  split
  · simp only [h.column]
    exact .pure _
  · exact (Remarking.refuse _ _ _).matched (.refuse _ _ _)

/-! ### Complaints about types -/

theorem requireBoolean_remarking (clause : String) (e : Expr) :
    Remarking (requireBoolean clause e) () := by
  unfold requireBoolean
  split
  · split
    · exact .complain _ _
    · exact .pure ()
  · exact .pure ()

theorem requireInteger_remarking (e : Expr) : Remarking (requireInteger e) () := by
  unfold requireInteger
  split
  · split
    · exact .complain _ _
    · exact .pure ()
  · exact .pure ()

theorem requireMember_remarking (left element : Option SqlType) (op : BinaryOperator)
    (span : Span) : Remarking (requireMember left element op span) () := by
  unfold requireMember
  split
  · split
    · exact .complain _ _
    · exact .pure ()
  · exact .pure ()

theorem binaryType_matched (op : BinaryOperator) (left right : Option SqlType) (span : Span) :
    Matched (binaryType op left right span) (binaryType op left right span) := by
  unfold binaryType
  split
  · dsimp only
    split
    · exact (Remarking.refuse _ _ _).matched (.refuse _ _ _)
    · exact .pure _
  · exact .pure _

theorem unaryType_matched (op : UnaryOperator) (operand : Option SqlType) (span : Span) :
    Matched (unaryType op operand span) (unaryType op operand span) := by
  unfold unaryType
  split
  · dsimp only
    split
    · exact (Remarking.refuse _ _ _).matched (.refuse _ _ _)
    · exact .pure _
  · exact .pure _

theorem callType_matched (function : Ident) (args : List (Option SqlType)) (star : Bool)
    (span : Span) :
    Matched (callType function args star span) (callType function args star span) := by
  unfold callType
  split
  · exact .pure _
  · exact (Remarking.refuse _ _ _).matched (.refuse _ _ _)
  · exact (Remarking.refuse _ _ _).matched (.refuse _ _ _)
  · exact (Remarking.refuse _ _ _).matched (.refuse _ _ _)

theorem condition_matched {r : Resolver Expr} (hr : Matched r r) (horderly : Orderly r)
    (clause : String) (span : Span) :
    Matched (condition clause span r) (condition clause span r) := by
  have hinner : Orderly (do let e ← r; requireBoolean clause e; return e) :=
    horderly.bind fun e => refuse_orderly (requireBoolean_orderly clause e) e
  refine Matched.within (hr.bind fun e => ?_) hinner hinner span
  exact ((requireBoolean_remarking clause e).matched (requireBoolean_remarking clause e)).bind
    fun _ => .pure e

/-! ### Sources and results -/

theorem tableSource_matched (name : Ident) (label : Option Ident) :
    Matched (tableSource name label) (tableSource name label) := by
  have hopaque : Matched
      (modify fun s => s.modifyFrame fun f => { f with opaqueSource := true })
      (modify fun s => s.modifyFrame fun f => { f with opaqueSource := true }) :=
    .update fun _ _ h => h.modifyFrame fun _ _ hframe => hframe
  refine (catalogTable?_matched name).bind fun table? => ?_
  split
  · exact (Matched.update fun _ _ h => h.bindTable _ _).bind fun _ => .pure _
  · exact hopaque.bind fun _ => .pure _

theorem bindSubquery_matched (label : Option Ident) (table : TableId) :
    Matched (bindSubquery label table) (bindSubquery label table) := by
  cases label with
  | none => exact .update fun _ _ h => h.bindColumns table
  | some label => exact .update fun _ _ h => h.bindTable label.name table

theorem bindAliases_matched (aliases : List (String × ColumnId)) :
    Matched (modify fun s => aliases.foldl (fun s entry => s.bindColumn entry.1 entry.2) s)
      (modify fun s => aliases.foldl (fun s entry => s.bindColumn entry.1 entry.2) s) := by
  refine .update ?_
  induction aliases with
  | nil => exact fun _ _ h => h
  | cons entry aliases ih => exact fun _ _ h => ih _ _ (h.bindColumn entry.1 entry.2)

theorem addTable_matched (name name' : String) :
    Matched (addTable name .derived) (addTable name' .derived) := by
  intro s t h
  obtain ⟨hid, hcatalog⟩ := h.catalog.addTable name name'
  exact ⟨hid, { h with catalog := hcatalog }⟩

theorem addResultColumn_matched (result : TableId) (value : Expr) (label : Option Ident) :
    Matched (addResultColumn result value label) (addResultColumn result value label) := by
  have hadd : ∀ column, Matched (addColumn result column) (addColumn result column) := by
    intro column s t h
    obtain ⟨hid, hcatalog⟩ := h.catalog.addColumn result column
    exact ⟨hid, { h with catalog := hcatalog }⟩
  exact (hadd _).bind fun id => .pure _

theorem addStar_matched (result : TableId) (hasSource : Bool) (items : List (String × TableId))
    (span : Span) :
    Matched (addStar result hasSource items span) (addStar result hasSource items span) := by
  have hcopy := Matched.modifyCatalog fun _ _ h => h.copyAll result items
  unfold addStar
  split
  · exact ((Remarking.complain _ _).matched (.complain _ _)).bind fun _ => hcopy
  · exact hcopy

theorem addTableStar_matched (result : TableId) (items : List (String × TableId)) (name : Ident) :
    Matched (addTableStar result items name) (addTableStar result items name) := by
  unfold addTableStar
  split
  · exact .modifyCatalog fun _ _ h => h.copyColumns _ result
  · exact (Remarking.complain _ _).matched (.complain _ _)

theorem query_matched_of_body {name name' : String} {select : Select}
    (h : Matched (sources select.source >>= columnsOfQuery name select)
      (sources select.source >>= columnsOfQuery name' select)) :
    Matched (query name select) (query name' select) := by
  have horderly : ∀ name, Orderly (sources select.source >>= columnsOfQuery name select) :=
    fun name => (sources_orderly _).bind fun found => (addTable_orderly name .derived).bind
      fun result => (resultColumns_orderly _ _ _ _).bind fun entries => restOfQuery_orderly _ _ _ _
  rw [query_eq, query_eq]
  exact h.within (horderly name) (horderly name') select.span

/-! ### Expressions and queries -/

mutual

theorem term_matched : (e : Expr) → Matched (term e) (term e)
  | .constant _ _ => by
    rw [term]
    exact .pure _
  | .name _ ident => by
    rw [term]
    refine (scopeColumn?_matched ident).bind fun column => ?_
    exact (columnType_matched column).bind fun type => .pure _
  | .dot note left right => by
    rw [term]
    exact dot_matched note left right
  | .binary note left op right => by
    rw [term]
    refine (term_matched left).bind fun left => ?_
    have hright := term_matched right
    have hmember : ∀ element span, Matched (requireMember left.type element op span)
        (requireMember left.type element op span) :=
      fun _ _ => (requireMember_remarking _ _ _ _).matched (requireMember_remarking _ _ _ _)
    dsimp only
    split
    · cases right with
      | subquery rightNote select =>
        have hquery := queryBody_matched "subquery" "subquery" select
        refine (query_matched_of_body hquery).bind fun found => ?_
        refine (onlyColumnType_matched _ _ _).bind fun type => ?_
        exact (hmember _ _).bind fun _ => .pure _
      | list rightNote items =>
        exact (memberTerms_matched left.type op items).bind fun items => .pure _
      | _ =>
        refine hright.bind fun right => ?_
        exact (hmember _ _).bind fun _ => .pure _
    · refine hright.bind fun right => ?_
      exact (binaryType_matched _ _ _ _).bind fun type => .pure _
  | .unary note op operand => by
    rw [term]
    refine (term_matched operand).bind fun operand => ?_
    exact (unaryType_matched _ _ _).bind fun type => .pure _
  | .call note function args => by
    rw [term]
    refine (terms_matched args).bind fun args => ?_
    exact (callType_matched _ _ _ _).bind fun type => .pure _
  | .callStar note function star => by
    rw [term]
    exact (callType_matched _ _ _ _).bind fun type => .pure _
  | .brackets note inner => by
    rw [term]
    exact (term_matched inner).bind fun inner => .pure _
  | .list note items => by
    rw [term]
    exact (terms_matched items).bind fun items => .pure _
  | .subquery note select => by
    rw [term]
    have hquery := queryBody_matched "subquery" "subquery" select
    refine (query_matched_of_body hquery).bind fun found => ?_
    exact (onlyColumnType_matched _ _ _).bind fun type => .pure _

theorem terms_matched : (es : List Expr) → Matched (terms es) (terms es)
  | [] => by
    rw [terms]
    exact .pure _
  | e :: es => by
    rw [terms]
    exact (term_matched e).bind fun e => (terms_matched es).bind fun es => .pure _

theorem memberTerms_matched (left : Option SqlType) (op : BinaryOperator) :
    (es : List Expr) → Matched (memberTerms left op es) (memberTerms left op es)
  | [] => by
    rw [memberTerms]
    exact .pure _
  | e :: es => by
    rw [memberTerms]
    refine (term_matched e).bind fun e => ?_
    refine ((requireMember_remarking _ _ _ _).matched (requireMember_remarking _ _ _ _)).bind
      fun _ => ?_
    exact (memberTerms_matched left op es).bind fun es => .pure _

theorem source_matched : (s : Source) → Matched (source s) (source s)
  | .table name label _ => by
    rw [source]
    exact tableSource_matched name label
  | .subquery select label span => by
    rw [source]
    have hquery := queryBody_matched (subqueryName label) (subqueryName label) select
    refine (query_matched_of_body hquery).bind fun found => ?_
    exact (bindSubquery_matched label _).bind fun _ => .pure _

theorem joins_matched : (js : List Join) → Matched (joins js) (joins js)
  | [] => by
    rw [joins]
    exact .pure _
  | ⟨_, _, table, none, _⟩ :: rest => by
    rw [joins]
    refine (source_matched table).bind fun first => ?_
    exact (joins_matched rest).bind fun others => .pure _
  | ⟨_, _, table, some on, _⟩ :: rest => by
    rw [joins]
    refine (source_matched table).bind fun first => ?_
    refine (condition_matched (term_matched on) (term_orderly on) _ _).bind fun on => ?_
    exact (joins_matched rest).bind fun others => .pure _

theorem resultColumns_matched (result : TableId) (hasSource : Bool)
    (items : List (String × TableId)) : (columns : List ResultColumn) →
      Matched (resultColumns result hasSource items columns)
        (resultColumns result hasSource items columns)
  | [] => by
    rw [resultColumns]
    exact .pure _
  | .star span :: rest => by
    rw [resultColumns]
    refine (addStar_matched _ _ _ _).bind fun _ => ?_
    exact (resultColumns_matched result hasSource items rest).bind fun found => .pure _
  | .tableStar table :: rest => by
    rw [resultColumns]
    refine (addTableStar_matched _ _ _).bind fun _ => ?_
    exact (resultColumns_matched result hasSource items rest).bind fun found => .pure _
  | .expr value label :: rest => by
    rw [resultColumns]
    refine (term_matched value).bind fun value => ?_
    refine (addResultColumn_matched _ _ _).bind fun entry => ?_
    exact (resultColumns_matched result hasSource items rest).bind fun found => .pure _

theorem orderingTerms_matched :
    (items : List OrderingTerm) → Matched (orderingTerms items) (orderingTerms items)
  | [] => by
    rw [orderingTerms]
    exact .pure _
  | ⟨expr, _, _⟩ :: rest => by
    rw [orderingTerms]
    refine (term_matched expr).bind fun expr => ?_
    exact (orderingTerms_matched rest).bind fun items => .pure _

theorem sources_matched : (clause : Option FromClause) → Matched (sources clause) (sources clause)
  | none => by
    rw [sources]
    exact .pure _
  | some ⟨first, others⟩ => by
    rw [sources]
    exact (source_matched first).bind fun first => (joins_matched others).bind fun others => .pure _

theorem rowCondition_matched :
    (test : Option Expr) → Matched (rowCondition test) (rowCondition test)
  | none => by
    rw [rowCondition]
    exact .pure _
  | some e => by
    rw [rowCondition]
    exact (condition_matched (term_matched e) (term_orderly e) _ _).bind fun e => .pure _

theorem groups_matched : (clause : Option GroupBy) → Matched (groups clause) (groups clause)
  | none => by
    rw [groups]
    exact .pure _
  | some ⟨exprs, none, span⟩ => by
    rw [groups]
    exact (terms_matched exprs).bind fun exprs => .pure _
  | some ⟨exprs, some having, span⟩ => by
    rw [groups]
    refine (terms_matched exprs).bind fun exprs => ?_
    exact (condition_matched (term_matched having) (term_orderly having) _ _).bind
      fun having => .pure _

theorem order_matched (aliases : List (String × ColumnId)) :
    (clause : Option OrderBy) → Matched (order aliases clause) (order aliases clause)
  | none => by
    rw [order]
    exact .pure _
  | some ⟨items, span⟩ => by
    rw [order]
    have horderly := (bindAliases_orderly aliases).bind fun _ =>
      (orderingTerms_orderly items).bind fun items => Orderly.pure (some (OrderBy.mk items span))
    refine Matched.within ((bindAliases_matched aliases).bind fun _ => ?_) horderly horderly span
    exact (orderingTerms_matched items).bind fun items => .pure _

theorem limits_matched : (clause : Option Limit) → Matched (limits clause) (limits clause)
  | none => by
    rw [limits]
    exact .pure _
  | some ⟨count, none, span⟩ => by
    rw [limits]
    refine (term_matched count).bind fun count => ?_
    exact ((requireInteger_remarking _).matched (requireInteger_remarking _)).bind fun _ => .pure _
  | some ⟨count, some offset, span⟩ => by
    rw [limits]
    refine (term_matched count).bind fun count => ?_
    refine ((requireInteger_remarking _).matched (requireInteger_remarking _)).bind fun _ => ?_
    refine (term_matched offset).bind fun offset => ?_
    exact ((requireInteger_remarking _).matched (requireInteger_remarking _)).bind fun _ => .pure _

theorem queryBody_matched (name name' : String) : (s : Select) →
    Matched (sources s.source >>= columnsOfQuery name s)
      (sources s.source >>= columnsOfQuery name' s)
  | ⟨distinct, columns, clause, test, groupBy, orderBy, limit, span, _⟩ => by
    refine (sources_matched clause).bind fun found => ?_
    refine (addTable_matched name name').bind fun result => ?_
    refine (resultColumns_matched result found.1.isSome found.2 columns).bind fun entries => ?_
    refine (rowCondition_matched test).bind fun test => ?_
    refine (groups_matched groupBy).bind fun groupBy => ?_
    refine (order_matched entries.2 orderBy).bind fun orderBy => ?_
    exact (limits_matched limit).bind fun limit => .pure _

end

theorem query_matched (name name' : String) (select : Select) :
    Matched (query name select) (query name' select) :=
  query_matched_of_body (queryBody_matched name name' select)

end SqlAnalysis.Resolver
