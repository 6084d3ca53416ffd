import SqlAnalysis.Proofs.Resolution.Evolution

/-!
# Edits of expressions and queries

Looking up names, typing and complaining leave the catalog alone. What an expression
or a query adds is the tables of results, which cannot be found by name, and their
columns.
-/
namespace SqlAnalysis.Resolver

open Catalog

variable {α : Type} {own : Rights} {P : Catalog → Prop}

/-! ### Names and types -/

theorem refuse_quiet (make : Range → Diagnostic) (span : Span) (a : α) :
    Quiet (do complain make span; return a) :=
  (Quiet.complain make span).bind fun _ => .pure a

theorem catalogTable?_quiet (name : Ident) : Quiet (catalogTable? name) := by
  apply Quiet.catalog.bind
  intro c
  split
  · exact .pure _
  · exact refuse_quiet _ _ _
  · exact refuse_quiet _ _ _

theorem missing_quiet (wanted : Symbol → Bool) (message : String) (span : Span)
    (fix? : List String → Option String) (a : α) :
    Quiet (do
      if !(← get).isOpaque then
        let names ← visibleNames wanted
        errorWithFix message span (fix? names)
      return a) := by
  refine .view fun s => ?_
  split
  · exact (Quiet.view fun _ => .pure _).bind fun names => refuse_quiet _ _ _
  · exact .pure _

theorem scopeTable?_quiet (name : Ident) : Quiet (scopeTable? name) := by
  refine .view fun s => ?_
  split
  · split
    · exact .pure _
    · exact refuse_quiet _ _ _
  · exact missing_quiet _ _ _ _ _

theorem scopeColumn?_quiet (name : Ident) : Quiet (scopeColumn? name) := by
  refine .view fun s => ?_
  split
  · split
    · exact .pure _
    · exact Quiet.catalog.bind fun c => refuse_quiet _ _ _
  · exact missing_quiet _ _ _ _ _

theorem tableColumn?_quiet (table : TableId) (name : Ident) : Quiet (tableColumn? table name) := by
  apply Quiet.catalog.bind
  intro c
  dsimp only
  split
  · exact .pure _
  · exact refuse_quiet _ _ _
  · exact refuse_quiet _ _ _

theorem columnType_quiet (column : Option ColumnId) : Quiet (columnType column) :=
  Quiet.catalog.bind fun _ => .pure _

theorem requireBoolean_quiet (clause : String) (e : Expr) : Quiet (requireBoolean clause e) := by
  unfold requireBoolean
  split
  · split
    · exact .complain _ _
    · exact .pure ()
  · exact .pure ()

theorem requireInteger_quiet (e : Expr) : Quiet (requireInteger e) := by
  unfold requireInteger
  split
  · split
    · exact .complain _ _
    · exact .pure ()
  · exact .pure ()

theorem requireMember_quiet (left element : Option SqlType) (op : BinaryOperator) (span : Span) :
    Quiet (requireMember left element op span) := by
  unfold requireMember
  split
  · split
    · exact .complain _ _
    · exact .pure ()
  · exact .pure ()

theorem binaryType_quiet (op : BinaryOperator) (left right : Option SqlType) (span : Span) :
    Quiet (binaryType op left right span) := by
  unfold binaryType
  split
  · dsimp only
    split
    · exact refuse_quiet _ _ _
    · exact .pure _
  · exact .pure _

theorem unaryType_quiet (op : UnaryOperator) (operand : Option SqlType) (span : Span) :
    Quiet (unaryType op operand span) := by
  unfold unaryType
  split
  · dsimp only
    split
    · exact refuse_quiet _ _ _
    · exact .pure _
  · exact .pure _

theorem callType_quiet (function : Ident) (args : List (Option SqlType)) (star : Bool)
    (span : Span) : Quiet (callType function args star span) := by
  unfold callType
  split
  · exact .pure _
  · exact refuse_quiet _ _ _
  · exact refuse_quiet _ _ _
  · exact refuse_quiet _ _ _

theorem dot_quiet (note : Note) (left : Expr) (right : Ident) : Quiet (dot note left right) := by
  unfold dot
  split
  · refine (scopeTable?_quiet _).bind fun table? => ?_
    split
    · apply (tableColumn?_quiet _ _).bind
      intro column
      exact (columnType_quiet column).bind fun type => .pure _
    · exact .pure _
  · exact refuse_quiet _ _ _

theorem onlyColumnType_quiet (table : TableId) (message : Nat → String) (span : Span) :
    Quiet (onlyColumnType table fun count => error (message count) span) := by
  apply Quiet.catalog.bind
  intro c
  split
  · exact .pure _
  · exact refuse_quiet _ _ _

theorem tableSource_quiet (name : Ident) (label : Option Ident) :
    Quiet (tableSource name label) := by
  refine (catalogTable?_quiet name).bind fun table? => ?_
  split
  · exact (Quiet.bindTable _ _).bind fun _ => .pure _
  · exact (Quiet.modifyFrame _).bind fun _ => .pure _

theorem bindSubquery_quiet (label : Option Ident) (table : TableId) :
    Quiet (bindSubquery label table) := by
  unfold bindSubquery
  split
  · exact .bindTable _ _
  · exact .modifyFrame _

theorem bindAliases_quiet (aliases : List (String × ColumnId)) :
    Quiet (modify fun s => aliases.foldl (fun s entry => s.bindColumn entry.1 entry.2) s) := by
  induction aliases with
  | nil => exact fun _ => rfl
  | cons entry aliases ih =>
    intro s
    exact (ih (s.bindColumn entry.1 entry.2)).trans (ResolverState.modifyFrame_catalog _ _)

/-! ### Columns of results -/

/-- The table of a result may get columns. -/
structure IsResult (own : Rights) (table : TableId) (c : Catalog) : Prop where
  hasTable : c.HasTable table
  own : own table
  derived : (c.table table).origin = .derived

theorem addResult_evolves (name : String) :
    Evolves own P (addTable name .derived) fun c table => IsResult own table c := by
  intro s hs _
  have hhas : (s.catalog.addTable name .derived).2.HasTable
      (s.catalog.addTable name .derived).1 := hasTable_addTable _ _ _
  constructor
  · exact .single (.addResult name)
  · intro c hc
    refine ⟨hc.preserves.hasTable hhas, hs.fresh _ ?_, ?_⟩
    · exact Nat.lt_irrefl _
    · refine (hc.preserves.origin_eq hhas).trans ?_
      have hnew := s.catalog.table?_addTable name .derived (s.catalog.addTable name .derived).1
      rw [if_pos rfl] at hnew
      exact congrArg Table.origin (table_eq_of_table? hnew)

theorem addResultColumn_evolves {result : TableId} (hresult : ∀ c, P c → IsResult own result c)
    (value : Expr) (label : Option Ident) :
    Evolves own P (addResultColumn result value label) fun _ _ => True := by
  intro s _ hP
  constructor
  · have hin := hresult _ (hP _ .refl)
    exact .single (.addColumn hin.own hin.hasTable rfl (.inl hin.derived))
  · exact fun _ _ => trivial

theorem addStar_evolves {result : TableId} (hresult : ∀ c, P c → IsResult own result c)
    (hasSource : Bool) (joined : List (String × TableId)) (span : Span) :
    Evolves own P (addStar result hasSource joined span) fun _ _ => True := by
  have hcopies : ∀ (joined : List (String × TableId)) (c : Catalog), IsResult own result c →
      Edits own c (joined.foldl (fun c entry => c.copyColumns entry.2 result) c) := by
    intro joined
    induction joined with
    | nil => exact fun _ _ => .refl
    | cons entry joined ih =>
      intro c hin
      have hcopy : Edits own c (c.copyColumns entry.2 result) :=
        edits_copyColumns hin.hasTable hin.own hin.derived
      have horigin := hcopy.preserves.origin_eq hin.hasTable
      exact hcopy.trans (ih _ ⟨hcopy.preserves.hasTable hin.hasTable, hin.own,
        horigin.trans hin.derived⟩)
  unfold addStar
  split
  · apply (Evolves.quiet (.complain _ _)).bind
    intro _
    exact .modifyCatalog fun c _ h => hcopies joined c (hresult c h.1)
  · exact .modifyCatalog fun c _ h => hcopies joined c (hresult c h)

theorem addTableStar_evolves {result : TableId} (hresult : ∀ c, P c → IsResult own result c)
    (joined : List (String × TableId)) (name : Ident) :
    Evolves own P (addTableStar result joined name) fun _ _ => True := by
  unfold addTableStar
  split
  · refine .modifyCatalog fun c _ h => ?_
    have hin := hresult c h
    exact edits_copyColumns hin.hasTable hin.own hin.derived
  · exact .quiet (.complain _ _)

theorem condition_evolves {resolved : Resolver Expr}
    (h : Evolves own P resolved fun _ _ => True) (clause : String) (span : Span) :
    Evolves own P (condition clause span resolved) fun _ _ => True :=
  .within (h.bind fun e => .quiet ((requireBoolean_quiet clause e).bind fun _ => .pure e)) span

/-! ### Expressions and queries -/

mutual

theorem term_evolves {P : Catalog → Prop} :
    (e : Expr) → Evolves own P (term e) fun _ _ => True
  | .constant _ _ => by
    rw [term]
    exact .quiet (.pure _)
  | .name _ ident => by
    rw [term]
    refine .quiet ((scopeColumn?_quiet ident).bind fun column => ?_)
    exact (columnType_quiet column).bind fun type => .pure _
  | .dot note left right => by
    rw [term]
    exact .quiet (dot_quiet note left right)
  | .binary note left op right => by
    rw [term]
    apply (term_evolves left).bind
    intro left
    have hright := @term_evolves (fun c => P c ∧ True) right
    dsimp only
    split
    · cases right with
      | subquery rightNote select =>
        apply (query_evolves "subquery" select).bind
        intro result
        refine .quiet ((onlyColumnType_quiet _ _ _).bind fun type => ?_)
        exact (requireMember_quiet _ _ _ _).bind fun _ => .pure _
      | list rightNote items =>
        apply (memberTerms_evolves left.type op items).bind
        intro items
        exact .quiet (.pure _)
      | _ =>
        apply hright.bind
        intro right
        exact .quiet ((requireMember_quiet _ _ _ _).bind fun _ => .pure _)
    · apply hright.bind
      intro right
      exact .quiet ((binaryType_quiet _ _ _ _).bind fun type => .pure _)
  | .unary note op operand => by
    rw [term]
    apply (term_evolves operand).bind
    intro operand
    exact .quiet ((unaryType_quiet _ _ _).bind fun type => .pure _)
  | .call note function args => by
    rw [term]
    apply (terms_evolves args).bind
    intro args
    exact .quiet ((callType_quiet _ _ _ _).bind fun type => .pure _)
  | .callStar note function star => by
    rw [term]
    exact .quiet ((callType_quiet _ _ _ _).bind fun type => .pure _)
  | .brackets note inner => by
    rw [term]
    exact (term_evolves inner).bind fun inner => .quiet (.pure _)
  | .list note items => by
    rw [term]
    exact (terms_evolves items).bind fun items => .quiet (.pure _)
  | .subquery note select => by
    rw [term]
    apply (query_evolves "subquery" select).bind
    intro result
    exact .quiet ((onlyColumnType_quiet _ _ _).bind fun type => .pure _)

theorem terms_evolves {P : Catalog → Prop} :
    (es : List Expr) → Evolves own P (terms es) fun _ _ => True
  | [] => by
    rw [terms]
    exact .quiet (.pure _)
  | e :: es => by
    rw [terms]
    apply (term_evolves e).bind
    intro e
    exact (terms_evolves es).bind fun es => .quiet (.pure _)

theorem memberTerms_evolves {P : Catalog → Prop} (left : Option SqlType) (op : BinaryOperator) :
    (es : List Expr) → Evolves own P (memberTerms left op es) fun _ _ => True
  | [] => by
    rw [memberTerms]
    exact .quiet (.pure _)
  | e :: es => by
    rw [memberTerms]
    apply (term_evolves e).bind
    intro e
    apply (Evolves.quiet (requireMember_quiet _ _ _ _)).bind
    intro _
    exact (memberTerms_evolves left op es).bind fun es => .quiet (.pure _)

theorem source_evolves {P : Catalog → Prop} :
    (s : Source) → Evolves own P (source s) fun _ _ => True
  | .table name label _ => by
    rw [source]
    exact .quiet (tableSource_quiet name label)
  | .subquery select label span => by
    rw [source]
    apply (query_evolves (subqueryName label) select).bind
    intro result
    exact .quiet ((bindSubquery_quiet label _).bind fun _ => .pure _)

theorem joins_evolves {P : Catalog → Prop} :
    (js : List Join) → Evolves own P (joins js) fun _ _ => True
  | [] => by
    rw [joins]
    exact .quiet (.pure _)
  | ⟨_, _, table, none, _⟩ :: rest => by
    rw [joins]
    apply (source_evolves table).bind
    intro result
    exact (joins_evolves rest).bind fun results => .quiet (.pure _)
  | ⟨_, _, table, some on, _⟩ :: rest => by
    rw [joins]
    apply (source_evolves table).bind
    intro result
    apply (condition_evolves (term_evolves on) _ _).bind
    intro on
    exact (joins_evolves rest).bind fun results => .quiet (.pure _)

theorem resultColumns_evolves {P : Catalog → Prop} {result : TableId}
    (hresult : ∀ c, P c → IsResult own result c) (hasSource : Bool)
    (joined : List (String × TableId)) :
    (columns : List ResultColumn) →
      Evolves own P (resultColumns result hasSource joined columns) fun _ _ => True
  | [] => by
    rw [resultColumns]
    exact .quiet (.pure _)
  | .star span :: rest => by
    rw [resultColumns]
    apply (addStar_evolves hresult _ _ _).bind
    intro _
    apply (resultColumns_evolves (fun c h => hresult c h.1) hasSource joined rest).bind
    exact fun results => .quiet (.pure _)
  | .tableStar table :: rest => by
    rw [resultColumns]
    apply (addTableStar_evolves hresult _ _).bind
    intro _
    apply (resultColumns_evolves (fun c h => hresult c h.1) hasSource joined rest).bind
    exact fun results => .quiet (.pure _)
  | .expr value label :: rest => by
    rw [resultColumns]
    apply (term_evolves value).bind
    intro value
    apply (addResultColumn_evolves (fun c h => hresult c h.1) _ _).bind
    intro entry
    apply (resultColumns_evolves (fun c h => hresult c h.1.1) hasSource joined rest).bind
    exact fun results => .quiet (.pure _)

theorem orderingTerms_evolves {P : Catalog → Prop} :
    (items : List OrderingTerm) → Evolves own P (orderingTerms items) fun _ _ => True
  | [] => by
    rw [orderingTerms]
    exact .quiet (.pure _)
  | ⟨expr, _, _⟩ :: rest => by
    rw [orderingTerms]
    apply (term_evolves expr).bind
    intro expr
    exact (orderingTerms_evolves rest).bind fun items => .quiet (.pure _)

theorem sources_evolves {P : Catalog → Prop} :
    (clause : Option FromClause) → Evolves own P (sources clause) fun _ _ => True
  | none => by
    rw [sources]
    exact .quiet (.pure _)
  | some ⟨first, others⟩ => by
    rw [sources]
    apply (source_evolves first).bind
    intro result
    exact (joins_evolves others).bind fun results => .quiet (.pure _)

theorem rowCondition_evolves {P : Catalog → Prop} :
    (test : Option Expr) → Evolves own P (rowCondition test) fun _ _ => True
  | none => by
    rw [rowCondition]
    exact .quiet (.pure _)
  | some e => by
    rw [rowCondition]
    exact (condition_evolves (term_evolves e) _ _).map fun _ _ _ => trivial

theorem groups_evolves {P : Catalog → Prop} :
    (clause : Option GroupBy) → Evolves own P (groups clause) fun _ _ => True
  | none => by
    rw [groups]
    exact .quiet (.pure _)
  | some ⟨exprs, none, span⟩ => by
    rw [groups]
    exact (terms_evolves exprs).bind fun exprs => .quiet (.pure _)
  | some ⟨exprs, some having, span⟩ => by
    rw [groups]
    apply (terms_evolves exprs).bind
    intro exprs
    exact (condition_evolves (term_evolves having) _ _).bind fun having => .quiet (.pure _)

theorem order_evolves {P : Catalog → Prop} (aliases : List (String × ColumnId)) :
    (clause : Option OrderBy) → Evolves own P (order aliases clause) fun _ _ => True
  | none => by
    rw [order]
    exact .quiet (.pure _)
  | some ⟨items, span⟩ => by
    rw [order]
    refine .within ((Evolves.quiet (bindAliases_quiet aliases)).bind fun _ => ?_) span
    exact (orderingTerms_evolves items).bind fun items => .quiet (.pure _)

theorem limits_evolves {P : Catalog → Prop} :
    (clause : Option Limit) → Evolves own P (limits clause) fun _ _ => True
  | none => by
    rw [limits]
    exact .quiet (.pure _)
  | some ⟨count, none, span⟩ => by
    rw [limits]
    apply (term_evolves count).bind
    intro count
    exact .quiet ((requireInteger_quiet count).bind fun _ => .pure _)
  | some ⟨count, some offset, span⟩ => by
    rw [limits]
    apply (term_evolves count).bind
    intro count
    apply (Evolves.quiet (requireInteger_quiet count)).bind
    intro _
    apply (term_evolves offset).bind
    intro offset
    exact .quiet ((requireInteger_quiet offset).bind fun _ => .pure _)

theorem query_evolves {P : Catalog → Prop} (name : String) :
    (s : Select) → Evolves own P (query name s) fun c result => c.HasTable result.2
  | ⟨distinct, columns, clause, test, groupBy, orderBy, limit, span, _⟩ => by
    rw [query]
    refine .within ?_ span
    apply (sources_evolves clause).bind
    intro sources
    apply (addResult_evolves name).bind
    intro result
    apply (resultColumns_evolves (fun c h => h.2) _ _ columns).bind
    intro entries
    apply (rowCondition_evolves test).bind
    intro test
    apply (groups_evolves groupBy).bind
    intro groupBy
    apply (order_evolves _ orderBy).bind
    intro orderBy
    apply (limits_evolves limit).bind
    intro limit
    refine .pure fun c h => ?_
    obtain ⟨⟨⟨⟨⟨⟨-, hresult⟩, -⟩, -⟩, -⟩, -⟩, -⟩ := h
    exact hresult.hasTable

end

end SqlAnalysis.Resolver
