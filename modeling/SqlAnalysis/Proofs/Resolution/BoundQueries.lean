import SqlAnalysis.Proofs.Resolution.Delivery
import SqlAnalysis.Proofs.Resolution.Orderly

/-!
# Names in accepted queries

Every look-up that finds nothing complains, unless an unknown source hides what is
visible, and a source is unknown only after a complaint. So an expression or query
that is resolved without an error has all of its names bound.
-/
namespace SqlAnalysis.Resolver

open ResolverState

variable {α : Type} {P : Catalog → Prop} {Q : Catalog → α → Prop}

theorem addTable_delivers (name : String) (origin : TableOrigin) :
    Delivers P (addTable name origin) Catalog.HasTable := by
  refine ⟨addTable_orderly name origin, fun s _ hs _ => .inr ?_⟩
  obtain ⟨hfine, hgrow⟩ := hs.extendCatalog (Catalog.extends_addTable s.catalog name origin)
  exact ⟨hfine, hgrow, fun c hc => (Catalog.hasTable_addTable s.catalog name origin).mono hc⟩

theorem addColumn_delivers (table : TableId) (column : Column) :
    Delivers P (addColumn table column) Catalog.HasColumn := by
  refine ⟨addColumn_orderly table column, fun s _ hs _ => .inr ?_⟩
  obtain ⟨hfine, hgrow⟩ := hs.extendCatalog (Catalog.extends_addColumn s.catalog table column)
  exact ⟨hfine, hgrow, fun c hc => (Catalog.hasColumn_addColumn s.catalog table column).mono hc⟩

/-! ### Names -/

theorem catalogTable?_delivers (name : Ident) : Delivers P (catalogTable? name) TableBound := by
  apply Delivers.catalog.bind
  intro before
  split
  · next only hfound =>
    refine .pure fun c h => ⟨only, rfl, ?_⟩
    have hmem : only ∈ before.findTables name.name := by simp [hfound]
    exact (h.2.1.hasTable_of_findTables hmem).mono h.2.2
  · exact .refuse fun _ => rfl
  · exact .refuse fun _ => rfl

theorem visibleNames_delivers (wanted : Symbol → Bool) :
    Delivers P (visibleNames wanted) fun _ _ => True :=
  .view (visibleNames_orderly wanted) fun _ _ => .pure fun _ _ => trivial

/-- Where no source is unknown, a missing name is always complained about. -/
theorem missing_delivers (wanted : Symbol → Bool) (message : String) (span : Span)
    (fix? : List String → Option String) (a : α) :
    Delivers P (do
      if !(← get).isOpaque then
        let names ← visibleNames wanted
        errorWithFix message span (fix? names)
      return a) Q := by
  refine .view (missing_orderly wanted message span fix? a) fun s hs => ?_
  rw [if_pos (by simp [hs.isOpaque])]
  exact (visibleNames_delivers wanted).bind fun _ => .refuse fun _ => rfl

theorem scopeTable?_delivers (name : Ident) : Delivers P (scopeTable? name) TableBound := by
  refine .view (scopeTable?_orderly name) fun s hs => ?_
  split
  · next symbol hfound =>
    have hwithin := Scope.within_of_lookup hs.scopes hfound
    split
    · next only honly =>
      refine .pure fun c h => ⟨only, rfl, ?_⟩
      have hmem : only ∈ symbol.tables := by simp [honly]
      exact (hwithin.tables only hmem).mono h.2
    · exact .refuse fun _ => rfl
  · exact missing_delivers _ _ _ _ _

theorem scopeColumn?_delivers (name : Ident) : Delivers P (scopeColumn? name) ColumnBound := by
  refine .view (scopeColumn?_orderly name) fun s hs => ?_
  split
  · next symbol hfound =>
    have hwithin := Scope.within_of_lookup hs.scopes hfound
    split
    · next only honly =>
      refine .pure fun c h => ⟨only, rfl, ?_⟩
      have hmem : only ∈ symbol.columns := by simp [honly]
      exact (hwithin.columns only hmem).mono h.2
    · exact Delivers.catalog.bind fun _ => .refuse fun _ => rfl
  · exact missing_delivers _ _ _ _ _

theorem tableColumn?_delivers (table : TableId) (name : Ident) :
    Delivers P (tableColumn? table name) ColumnBound := by
  apply Delivers.catalog.bind
  intro before
  dsimp only
  split
  · next only hfound =>
    refine .pure fun c h => ⟨only, rfl, ?_⟩
    have hmem : only ∈ before.findColumns table name.name := by simp [hfound]
    exact (h.2.1.hasColumn_of_findColumns hmem).mono h.2.2
  · exact .refuse fun _ => rfl
  · exact .refuse fun _ => rfl

theorem columnType_delivers (column : Option ColumnId) :
    Delivers P (columnType column) fun _ _ => True :=
  Delivers.catalog.bind fun _ => .pure fun _ _ => trivial

/-! ### Requirements and types -/

theorem requireBoolean_delivers (clause : String) (e : Expr) :
    Delivers P (requireBoolean clause e) fun _ _ => True := by
  unfold requireBoolean
  split
  · split
    · exact .complain _ _
    · exact .pure fun _ _ => trivial
  · exact .pure fun _ _ => trivial

theorem condition_delivers {resolved : Resolver Expr} (h : Delivers P resolved Expr.Bound)
    (clause : String) (span : Span) : Delivers P (condition clause span resolved) Expr.Bound := by
  refine .within (h.bind fun e => (requireBoolean_delivers clause e).bind fun _ => ?_) span
  exact .pure fun _ h => h.1.2

theorem requireInteger_delivers (e : Expr) : Delivers P (requireInteger e) fun _ _ => True := by
  unfold requireInteger
  split
  · split
    · exact .complain _ _
    · exact .pure fun _ _ => trivial
  · exact .pure fun _ _ => trivial

theorem requireMember_delivers (left element : Option SqlType) (op : BinaryOperator)
    (span : Span) : Delivers P (requireMember left element op span) fun _ _ => True := by
  unfold requireMember
  split
  · split
    · exact .complain _ _
    · exact .pure fun _ _ => trivial
  · exact .pure fun _ _ => trivial

theorem binaryType_delivers (op : BinaryOperator) (left right : Option SqlType) (span : Span) :
    Delivers P (binaryType op left right span) fun _ _ => True := by
  unfold binaryType
  split
  · dsimp only
    split
    · exact .refuse fun _ => rfl
    · exact .pure fun _ _ => trivial
  · exact .pure fun _ _ => trivial

theorem unaryType_delivers (op : UnaryOperator) (operand : Option SqlType) (span : Span) :
    Delivers P (unaryType op operand span) fun _ _ => True := by
  unfold unaryType
  split
  · dsimp only
    split
    · exact .refuse fun _ => rfl
    · exact .pure fun _ _ => trivial
  · exact .pure fun _ _ => trivial

theorem callType_delivers (function : Ident) (args : List (Option SqlType)) (star : Bool)
    (span : Span) : Delivers P (callType function args star span) fun _ _ => True := by
  unfold callType
  split
  · exact .pure fun _ _ => trivial
  · exact .refuse fun _ => rfl
  · exact .refuse fun _ => rfl
  · exact .refuse fun _ => rfl

theorem onlyColumnType_delivers (table : TableId) {message : Nat → String} {span : Span} :
    Delivers P (onlyColumnType table fun count => error (message count) span)
      fun _ _ => True := by
  apply Delivers.catalog.bind
  intro before
  split
  · exact .pure fun _ _ => trivial
  · exact .refuse fun _ => rfl

/-! ### Qualified names, sources and results -/

theorem dot_delivers (note : Note) (left : Expr) (right : Ident) :
    Delivers P (dot note left right) Expr.Bound := by
  unfold dot
  split
  · next leftNote table =>
    apply (scopeTable?_delivers table).bind
    intro found
    split
    · next id =>
      apply (tableColumn?_delivers id right).bind
      intro column
      apply (columnType_delivers column).bind
      intro type
      refine .pure fun c h => ?_
      obtain ⟨⟨⟨-, tableId, htable, hhasTable⟩, columnId, rfl, hhasColumn⟩, -⟩ := h
      obtain rfl := Option.some.inj htable
      rw [Expr.Bound]
      exact ⟨⟨columnId, rfl, hhasColumn⟩, _, table, id, rfl, rfl, hhasTable⟩
    · refine .pure fun c h => ?_
      obtain ⟨-, id, hnone, -⟩ := h
      exact nomatch hnone
  · exact .refuse fun _ => rfl

theorem addResultColumn_delivers (result : TableId) (value : Expr) (label : Option Ident) :
    Delivers P (addResultColumn result value label) fun c entry =>
      ∀ e ∈ entry, c.HasColumn e.2 := by
  unfold addResultColumn
  apply (addColumn_delivers result _).bind
  intro id
  refine .pure fun c h => ?_
  cases label <;> simp [h.2]

theorem addStar_delivers (result : TableId) (hasSource : Bool)
    (joined : List (String × TableId)) (span : Span) :
    Delivers P (addStar result hasSource joined span) fun _ _ => True := by
  have hcopy : ∀ c : Catalog,
      c.Extends (joined.foldl (fun c entry => c.copyColumns entry.2 result) c) :=
    Catalog.Extends.foldl (fun c entry => Catalog.extends_copyColumns c entry.2 result) joined
  unfold addStar
  split
  · exact (Delivers.complain _ _).bind fun _ => .modifyCatalog fun c _ => hcopy c
  · exact .modifyCatalog fun c _ => hcopy c

theorem addTableStar_delivers (result : TableId) (joined : List (String × TableId))
    (name : Ident) : Delivers P (addTableStar result joined name) fun _ _ => True := by
  unfold addTableStar
  split
  · exact .modifyCatalog fun c _ => Catalog.extends_copyColumns c _ _
  · exact .complain _ _

/-- A source that is made opaque has been complained about. -/
theorem tableSource_delivers (name : Ident) (label : Option Ident) :
    Delivers P (tableSource name label) fun c result => result.1.Bound c := by
  apply (catalogTable?_delivers name).bind
  intro found
  split
  · next table =>
    refine .bind (.bindTable _ ?_) fun _ => .pure fun c h => ?_
    · rintro c ⟨-, id, hid, hhas⟩
      exact Option.some.inj hid ▸ hhas
    · rw [Source.Bound]
      exact h.1.2
  · refine .bind (.modifyFrame (fun _ => rfl) ?_) fun _ => .pure fun c h => ?_
    · rintro c ⟨-, id, hnone, -⟩
      exact nomatch hnone
    · obtain ⟨⟨-, id, hnone, -⟩, -⟩ := h
      exact nomatch hnone

theorem bindSubquery_delivers (label : Option Ident) {table : TableId}
    (htable : ∀ c, P c → c.HasTable table) :
    Delivers P (bindSubquery label table) fun _ _ => True := by
  unfold bindSubquery
  split
  · exact .bindTable _ htable
  · exact .bindColumns table

theorem bindAliases_delivers {aliases : List (String × ColumnId)}
    (haliases : ∀ c, P c → ∀ entry ∈ aliases, c.HasColumn entry.2) :
    Delivers P (modify fun s => aliases.foldl (fun s entry => s.bindColumn entry.1 entry.2) s)
      fun _ _ => True := by
  induction aliases generalizing P with
  | nil => exact .pure fun _ _ => trivial
  | cons entry aliases ih =>
    have hfirst : Delivers P (modify fun s => s.bindColumn entry.1 entry.2) fun _ _ => True :=
      .bindColumn entry.1 fun c hc => haliases c hc entry List.mem_cons_self
    exact hfirst.bind fun _ =>
      ih fun c h other hother => haliases c h.1 other (List.mem_cons_of_mem _ hother)

/-! ### Expressions and queries -/

mutual

theorem term_delivers {P : Catalog → Prop} : (e : Expr) → Delivers P (term e) Expr.Bound
  | .constant _ _ => by
    rw [term]
    exact .pure fun _ _ => by rw [Expr.Bound]; trivial
  | .name _ ident => by
    rw [term]
    apply (scopeColumn?_delivers ident).bind
    intro column
    apply (columnType_delivers column).bind
    intro type
    refine .pure fun c h => ?_
    obtain ⟨⟨-, id, rfl, hhas⟩, -⟩ := h
    rw [Expr.Bound]
    exact ⟨id, rfl, hhas⟩
  | .dot note left right => by
    rw [term]
    exact dot_delivers note left right
  | .binary note left op right => by
    rw [term]
    apply (term_delivers left).bind
    intro left
    have hright := @term_delivers (fun c => P c ∧ left.Bound c) right
    dsimp only
    split
    · cases right with
      | subquery rightNote select =>
        apply (query_delivers "subquery" select).bind
        intro result
        apply (onlyColumnType_delivers _).bind
        intro type
        apply (requireMember_delivers _ _ _ _).bind
        intro _
        refine .pure fun c h => ?_
        obtain ⟨⟨⟨⟨-, hleft⟩, hselect, -⟩, -⟩, -⟩ := h
        rw [Expr.Bound, Expr.Bound]
        exact ⟨hleft, hselect⟩
      | list rightNote items =>
        apply (memberTerms_delivers left.type op items).bind
        intro items
        refine .pure fun c h => ?_
        obtain ⟨⟨-, hleft⟩, hitems⟩ := h
        rw [Expr.Bound, Expr.Bound]
        exact ⟨hleft, hitems⟩
      | _ =>
        apply hright.bind
        intro right
        apply (requireMember_delivers _ _ _ _).bind
        intro _
        refine .pure fun c h => ?_
        obtain ⟨⟨⟨-, hleft⟩, hright⟩, -⟩ := h
        rw [Expr.Bound]
        exact ⟨hleft, hright⟩
    · apply hright.bind
      intro right
      apply (binaryType_delivers _ _ _ _).bind
      intro type
      refine .pure fun c h => ?_
      obtain ⟨⟨⟨-, hleft⟩, hright⟩, -⟩ := h
      rw [Expr.Bound]
      exact ⟨hleft, hright⟩
  | .unary note op operand => by
    rw [term]
    apply (term_delivers operand).bind
    intro operand
    apply (unaryType_delivers _ _ _).bind
    intro type
    exact .pure fun c h => by rw [Expr.Bound]; exact h.1.2
  | .call note function args => by
    rw [term]
    apply (terms_delivers args).bind
    intro args
    apply (callType_delivers _ _ _ _).bind
    intro type
    exact .pure fun c h => by rw [Expr.Bound]; exact h.1.2
  | .callStar note function star => by
    rw [term]
    apply (callType_delivers _ _ _ _).bind
    intro type
    exact .pure fun c h => by rw [Expr.Bound]; trivial
  | .brackets note inner => by
    rw [term]
    apply (term_delivers inner).bind
    intro inner
    exact .pure fun c h => by rw [Expr.Bound]; exact h.2
  | .list note items => by
    rw [term]
    apply (terms_delivers items).bind
    intro items
    exact .pure fun c h => by rw [Expr.Bound]; exact h.2
  | .subquery note select => by
    rw [term]
    apply (query_delivers "subquery" select).bind
    intro result
    apply (onlyColumnType_delivers _).bind
    intro type
    exact .pure fun c h => by rw [Expr.Bound]; exact h.1.2.1

theorem terms_delivers {P : Catalog → Prop} : (es : List Expr) → Delivers P (terms es) ExprsBound
  | [] => by
    rw [terms]
    exact .pure fun _ _ => by rw [ExprsBound]; trivial
  | e :: es => by
    rw [terms]
    apply (term_delivers e).bind
    intro e
    apply (terms_delivers es).bind
    intro es
    exact .pure fun c h => by rw [ExprsBound]; exact ⟨h.1.2, h.2⟩

theorem memberTerms_delivers {P : Catalog → Prop} (left : Option SqlType) (op : BinaryOperator) :
    (es : List Expr) → Delivers P (memberTerms left op es) ExprsBound
  | [] => by
    rw [memberTerms]
    exact .pure fun _ _ => by rw [ExprsBound]; trivial
  | e :: es => by
    rw [memberTerms]
    apply (term_delivers e).bind
    intro e
    apply (requireMember_delivers _ _ _ _).bind
    intro _
    apply (memberTerms_delivers left op es).bind
    intro es
    exact .pure fun c h => by rw [ExprsBound]; exact ⟨h.1.1.2, h.2⟩

theorem source_delivers {P : Catalog → Prop} :
    (s : Source) → Delivers P (source s) fun c result => result.1.Bound c
  | .table name label _ => by
    rw [source]
    exact tableSource_delivers name label
  | .subquery select label span => by
    rw [source]
    apply (query_delivers (subqueryName label) select).bind
    intro result
    apply (bindSubquery_delivers label fun c h => h.2.2).bind
    intro _
    exact .pure fun c h => by rw [Source.Bound]; exact h.1.2.1

theorem joins_delivers {P : Catalog → Prop} :
    (js : List Join) → Delivers P (joins js) fun c result => JoinsBound c result.1
  | [] => by
    rw [joins]
    exact .pure fun _ _ => by rw [JoinsBound]; trivial
  | ⟨_, _, table, none, _⟩ :: rest => by
    rw [joins]
    apply (source_delivers table).bind
    intro result
    apply (joins_delivers rest).bind
    intro results
    exact .pure fun c h => by rw [JoinsBound, OptionBound]; exact ⟨h.1.2, trivial, h.2⟩
  | ⟨_, _, table, some on, _⟩ :: rest => by
    rw [joins]
    apply (source_delivers table).bind
    intro result
    apply (condition_delivers (term_delivers on) _ _).bind
    intro on
    apply (joins_delivers rest).bind
    intro results
    exact .pure fun c h => by rw [JoinsBound, OptionBound]; exact ⟨h.1.1.2, h.1.2, h.2⟩

theorem resultColumns_delivers {P : Catalog → Prop} (result : TableId) (hasSource : Bool)
    (joined : List (String × TableId)) :
    (columns : List ResultColumn) →
      Delivers P (resultColumns result hasSource joined columns) fun c result =>
        ResultColumnsBound c result.1 ∧ ∀ entry ∈ result.2, c.HasColumn entry.2
  | [] => by
    rw [resultColumns]
    exact .pure fun _ _ => by rw [ResultColumnsBound]; simp
  | .star span :: rest => by
    rw [resultColumns]
    apply (addStar_delivers _ _ _ _).bind
    intro _
    apply (resultColumns_delivers result hasSource joined rest).bind
    intro results
    exact .pure fun c h => by rw [ResultColumnsBound]; exact h.2
  | .tableStar table :: rest => by
    rw [resultColumns]
    apply (addTableStar_delivers _ _ _).bind
    intro _
    apply (resultColumns_delivers result hasSource joined rest).bind
    intro results
    exact .pure fun c h => by rw [ResultColumnsBound]; exact h.2
  | .expr value label :: rest => by
    rw [resultColumns]
    apply (term_delivers value).bind
    intro value
    apply (addResultColumn_delivers _ _ _).bind
    intro entry
    apply (resultColumns_delivers result hasSource joined rest).bind
    intro results
    refine .pure fun c h => ?_
    obtain ⟨⟨⟨-, hvalue⟩, hentry⟩, hrest, haliases⟩ := h
    rw [ResultColumnsBound]
    refine ⟨⟨hvalue, hrest⟩, List.forall_mem_append.mpr ⟨fun e he => ?_, haliases⟩⟩
    exact hentry e (Option.mem_toList.mp he)

theorem orderingTerms_delivers {P : Catalog → Prop} :
    (items : List OrderingTerm) → Delivers P (orderingTerms items) OrderingTermsBound
  | [] => by
    rw [orderingTerms]
    exact .pure fun _ _ => by rw [OrderingTermsBound]; trivial
  | ⟨expr, _, _⟩ :: rest => by
    rw [orderingTerms]
    apply (term_delivers expr).bind
    intro expr
    apply (orderingTerms_delivers rest).bind
    intro items
    exact .pure fun c h => by rw [OrderingTermsBound]; exact ⟨h.1.2, h.2⟩

theorem sources_delivers {P : Catalog → Prop} :
    (clause : Option FromClause) →
      Delivers P (sources clause) fun c result => ClauseBound c result.1
  | none => by
    rw [sources]
    exact .pure fun _ _ => by rw [ClauseBound]; trivial
  | some ⟨first, others⟩ => by
    rw [sources]
    apply (source_delivers first).bind
    intro result
    apply (joins_delivers others).bind
    intro results
    exact .pure fun c h => by rw [ClauseBound]; exact ⟨h.1.2, h.2⟩

theorem rowCondition_delivers {P : Catalog → Prop} :
    (test : Option Expr) → Delivers P (rowCondition test) OptionBound
  | none => by
    rw [rowCondition]
    exact .pure fun _ _ => by rw [OptionBound]; trivial
  | some e => by
    rw [rowCondition]
    exact (condition_delivers (term_delivers e) _ _).map fun c e he => by
      rw [OptionBound]; exact he

theorem groups_delivers {P : Catalog → Prop} :
    (clause : Option GroupBy) → Delivers P (groups clause) GroupsBound
  | none => by
    rw [groups]
    exact .pure fun _ _ => by rw [GroupsBound]; trivial
  | some ⟨exprs, none, span⟩ => by
    rw [groups]
    apply (terms_delivers exprs).bind
    intro exprs
    exact .pure fun c h => by rw [GroupsBound, OptionBound]; exact ⟨h.2, trivial⟩
  | some ⟨exprs, some having, span⟩ => by
    rw [groups]
    apply (terms_delivers exprs).bind
    intro exprs
    apply (condition_delivers (term_delivers having) _ _).bind
    intro having
    exact .pure fun c h => by rw [GroupsBound, OptionBound]; exact ⟨h.1.2, h.2⟩

theorem order_delivers {P : Catalog → Prop} {aliases : List (String × ColumnId)}
    (haliases : ∀ c, P c → ∀ entry ∈ aliases, c.HasColumn entry.2) :
    (clause : Option OrderBy) → Delivers P (order aliases clause) OrderBound
  | none => by
    rw [order]
    exact .pure fun _ _ => by rw [OrderBound]; trivial
  | some ⟨items, span⟩ => by
    rw [order]
    refine .within ((bindAliases_delivers haliases).bind fun _ => ?_) span
    apply (orderingTerms_delivers items).bind
    intro items
    exact .pure fun c h => by rw [OrderBound]; exact h.2

theorem limits_delivers {P : Catalog → Prop} :
    (clause : Option Limit) → Delivers P (limits clause) LimitBound
  | none => by
    rw [limits]
    exact .pure fun _ _ => by rw [LimitBound]; trivial
  | some ⟨count, none, span⟩ => by
    rw [limits]
    apply (term_delivers count).bind
    intro count
    apply (requireInteger_delivers count).bind
    intro _
    exact .pure fun c h => by rw [LimitBound, OptionBound]; exact ⟨h.1.2, trivial⟩
  | some ⟨count, some offset, span⟩ => by
    rw [limits]
    apply (term_delivers count).bind
    intro count
    apply (requireInteger_delivers count).bind
    intro _
    apply (term_delivers offset).bind
    intro offset
    apply (requireInteger_delivers offset).bind
    intro _
    exact .pure fun c h => by rw [LimitBound, OptionBound]; exact ⟨h.1.1.1.2, h.1.2⟩

theorem query_delivers {P : Catalog → Prop} (name : String) :
    (s : Select) → Delivers P (query name s) fun c result =>
      result.1.Bound c ∧ c.HasTable result.2
  | ⟨distinct, columns, clause, test, groupBy, orderBy, limit, span, _⟩ => by
    rw [query]
    refine .within ?_ span
    apply (sources_delivers clause).bind
    intro sources
    apply (addTable_delivers _ _).bind
    intro result
    apply (resultColumns_delivers result _ _ columns).bind
    intro entries
    apply (rowCondition_delivers test).bind
    intro test
    apply (groups_delivers groupBy).bind
    intro groupBy
    apply (order_delivers (fun c h => h.1.1.2.2) orderBy).bind
    intro orderBy
    apply (limits_delivers limit).bind
    intro limit
    refine .pure fun c h => ?_
    obtain ⟨⟨⟨⟨⟨⟨⟨-, hsources⟩, hresult⟩, hcolumns, -⟩, htest⟩, hgroup⟩, horder⟩, hlimit⟩ := h
    rw [Select.Bound]
    exact ⟨⟨hcolumns, hsources, htest, hgroup, horder, hlimit⟩, hresult⟩

end

end SqlAnalysis.Resolver
