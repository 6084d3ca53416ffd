import SqlAnalysis.Grammar.Script
import SqlAnalysis.Proofs.Resolution.QueryStages
import SqlAnalysis.Proofs.Resolution.Visibility
import SqlAnalysis.Token.Lexer

/-!
# Ambiguous columns

Two tables among the sources of a query may each have a column of one name. That name is
bound nowhere in the result of the query, and each time it stands there an error says that
it is ambiguous.
-/
namespace SqlAnalysis

/-! ### Names without a table -/

mutual

/-- The names in an expression that are not part of a qualified name, with their notes.
Queries are not entered. -/
def Expr.bareNames : Expr → List (Note × Ident)
  | .name note ident => [(note, ident)]
  | .binary _ left _ right => left.bareNames ++ right.bareNames
  | .unary _ _ operand => operand.bareNames
  | .call _ _ args => bareNamesOfList args
  | .brackets _ inner => inner.bareNames
  | .list _ items => bareNamesOfList items
  | .constant _ _ | .dot _ _ _ | .callStar _ _ _ | .subquery _ _ => []

def bareNamesOfList : List Expr → List (Note × Ident)
  | [] => []
  | e :: es => e.bareNames ++ bareNamesOfList es

end

def ResultColumn.bareNames : ResultColumn → List (Note × Ident)
  | .expr value _ => value.bareNames
  | .star _ | .tableStar _ => []

/-- The tables among the sources of a query, as far as these are resolved. -/
def Select.tables (s : Select) : List TableId :=
  s.source.toList.flatMap fun clause => clause.sources.filterMap Source.table?

/-! ### Names that are refused -/

namespace ResolverState

variable {s t : ResolverState} {column : String}

/-- The name stands for several columns in the innermost scope. -/
def Overloads (column : String) (s : ResolverState) : Prop :=
  ∃ a ∈ s.innermost.columnsNamed column, ∃ b ∈ s.innermost.columnsNamed column, a ≠ b

/-- The name is bound to nothing, and there is an error that says why. -/
structure Refused (s : ResolverState) (note : Note) (ident : Ident) : Prop where
  binding : note.binding = none
  type : note.type = none
  raised : ∃ tables : String, Diagnostic.semantic
    s!"ambiguous identifier {ident.name} (found in {tables})" (s.index.range ident.span) ∈
      s.diagnostics

/-- Of some names, those that name a column are refused. -/
def Refuses (column : String) (s : ResolverState) (names : List (Note × Ident)) : Prop :=
  ∀ entry ∈ names, entry.2.isNamed column = true → s.Refused entry.1 entry.2

theorem Refused.mono {note : Note} {ident : Ident} (h : s.Refused note ident)
    (hindex : t.index = s.index) (hdiagnostics : s.diagnostics ⊆ t.diagnostics) :
    t.Refused note ident := by
  obtain ⟨tables, htables⟩ := h.raised
  exact ⟨h.binding, h.type, tables, hindex ▸ hdiagnostics htables⟩

theorem refuses_nil : Refuses column s [] :=
  fun _ h => absurd h List.not_mem_nil

theorem Refuses.append {names names' : List (Note × Ident)} (h : Refuses column s names)
    (h' : Refuses column s names') : Refuses column s (names ++ names') :=
  List.forall_mem_append.mpr ⟨h, h'⟩

end ResolverState

namespace Resolver

open ResolverState

variable {α β : Type} {column : String} {P : ResolverState → Prop}
  {Q : ResolverState → α → Prop} {R : ResolverState → β → Prop}

/-- Whether a resolver only goes on from a state, and its result is good then and later,
where something holds from the state on. -/
def GoesOn (P : ResolverState → Prop) (r : Resolver α) (Q : ResolverState → α → Prop) : Prop :=
  ∀ s, (∀ t, s.Extends t → P t) →
    s.Extends (r.run s).2 ∧ ∀ t, (r.run s).2.Extends t → Q t (r.run s).1

namespace GoesOn

variable {r : Resolver α} {f : α → Resolver β}

theorem pure {a : α} (h : ∀ s, P s → Q s a) : GoesOn P (pure a) Q :=
  fun s hP => ⟨.refl s, fun t ht => h t (hP t ht)⟩

theorem bind (hr : GoesOn P r Q) (hf : ∀ a, GoesOn (fun s => P s ∧ Q s a) (f a) R) :
    GoesOn P (r >>= f) R := by
  intro s hP
  obtain ⟨hextends, hgood⟩ := hr s hP
  obtain ⟨hextends', hgood'⟩ := hf (r.run s).1 (r.run s).2 fun t ht =>
    ⟨hP t (hextends.trans ht), hgood t ht⟩
  exact ⟨hextends.trans hextends', hgood'⟩

theorem of_extends (h : ∀ s : ResolverState, s.Extends (r.run s).2) :
    GoesOn P r fun _ _ => True :=
  fun s _ => ⟨h s, fun _ _ => trivial⟩

theorem of_remarks (h : Remarks (fun _ => True) r) : GoesOn P r fun _ _ => True :=
  .of_extends (.of_remarks h)

theorem of_runsWithin (h : RunsWithin r) : GoesOn P r fun _ _ => True :=
  .of_extends (.of_runsWithin h)

end GoesOn

/-! ### Expressions -/

theorem scopeColumn?_overloaded {ident : Ident} {s : ResolverState}
    (h : s.Overloads ident.name) :
    ∃ tables : String, (scopeColumn? ident).run s = (none, { s with diagnostics :=
      s.diagnostics ++ [Diagnostic.semantic
        s!"ambiguous identifier {ident.name} (found in {tables})" (s.index.range ident.span)] }) := by
  obtain ⟨a, ha, b, hb, hab⟩ := h
  obtain ⟨outer, hscopes⟩ := scopes_eq s
  obtain ⟨symbol, hlookup, hcolumns⟩ := Scope.exists_lookup outer ha
  rw [← hcolumns] at ha hb
  have hmany : ∀ only, symbol.columns ≠ [only] := by
    intro only honly
    rw [honly, List.mem_singleton] at ha hb
    exact hab (ha.trans hb.symm)
  refine ⟨Text.joinWith ", " (symbol.columns.map fun id =>
    (s.catalog.table (s.catalog.column id).table).name), ?_⟩
  rw [← hscopes] at hlookup
  unfold scopeColumn?
  rw [run_bind, show (get : Resolver ResolverState).run s = (s, s) from rfl]
  dsimp only
  rw [hlookup]
  dsimp only
  split
  · next only honly => exact absurd honly (hmany only)
  · rfl

/-- A name that stands for several columns is refused. -/
theorem name_goesOn (hP : ∀ s, P s → s.Overloads column) (note : Note) (ident : Ident) :
    GoesOn P (term (.name note ident)) fun s e => s.Refuses column e.bareNames := by
  rw [term]
  intro s hs
  by_cases hident : ident.isNamed column = true
  · have hname : Text.foldCase column = Text.foldCase ident.name :=
      ((Text.sameName_iff _ _).mp hident).symm
    have hoverloads : s.Overloads ident.name := by
      obtain ⟨a, ha, b, hb, hab⟩ := hP s (hs s (.refl s))
      rw [Scope.columnsNamed_eq hname] at ha hb
      exact ⟨a, ha, b, hb, hab⟩
    obtain ⟨tables, hrun⟩ := scopeColumn?_overloaded hoverloads
    rw [run_bind, hrun]
    refine ⟨.of_innermost rfl (fun _ hd => List.mem_append_left _ hd) rfl, fun t ht => ?_⟩
    refine List.forall_mem_singleton.mpr fun _ => ⟨rfl, rfl, tables, ?_⟩
    rw [ht.index]
    exact ht.diagnostics (List.mem_append_right _ List.mem_cons_self)
  · refine ⟨.of_remarks ((scopeColumn?_remarks ident).bind fun column =>
      (columnType_remarks column).bind fun type => .pure _) s, fun t _ => ?_⟩
    exact List.forall_mem_singleton.mpr fun h => absurd h hident

theorem dot_bareNames (note : Note) (left : Expr) (right : Ident) :
    Yields (dot note left right) fun e => e.bareNames = [] := by
  intro s
  have hdot := dot_yields note left right s
  generalize ((dot note left right).run s).1 = e at hdot ⊢
  cases e with
  | dot => rfl
  | _ => exact nomatch hdot

mutual

theorem term_goesOn {P : ResolverState → Prop} (hP : ∀ s, P s → s.Overloads column) :
    (e : Expr) → GoesOn P (term e) fun s e' => s.Refuses column e'.bareNames
  | .constant _ _ => by
    rw [term]
    exact .pure fun _ _ => refuses_nil
  | .name note ident => name_goesOn hP note ident
  | .dot note left right => by
    rw [term]
    intro s _
    refine ⟨.of_remarks (dot_remarks trivial) s, fun t _ => ?_⟩
    have hnone : ((dot note left right).run s).1.bareNames = [] := dot_bareNames note left right s
    simpa only [hnone] using refuses_nil
  | .binary note left op right => by
    rw [term]
    refine (term_goesOn hP left).bind fun left => ?_
    have hright := term_goesOn (P := fun s => P s ∧ s.Refuses column left.bareNames)
      (fun s h => hP s h.1) right
    dsimp only
    split
    · cases right with
      | subquery rightNote select =>
        refine (GoesOn.of_runsWithin (query_within "subquery" select)).bind fun result => ?_
        have hcount : ∀ count : Nat, BeginsOtherwise
            s!"subquery in {op.spelling} must return exactly one column, found {count}" :=
          fun count => .append (.append (.append (.literal _ rfl) _) _) _
        refine (GoesOn.of_remarks (onlyColumnType_remarks _ hcount _)).bind fun type => ?_
        refine (GoesOn.of_remarks (requireMember_remarks _ _ _ _)).bind fun _ => ?_
        exact .pure fun s h => h.1.1.1.2.append refuses_nil
      | list rightNote items =>
        refine (memberTerms_goesOn (fun s h => hP s h.1) left.type op items).bind fun items => ?_
        exact .pure fun s h => h.1.2.append h.2
      | _ =>
        refine hright.bind fun right => ?_
        refine (GoesOn.of_remarks (requireMember_remarks _ _ _ _)).bind fun _ => ?_
        exact .pure fun s h => h.1.1.2.append h.1.2
    · refine hright.bind fun right => ?_
      refine (GoesOn.of_remarks (binaryType_remarks _ _ _ _)).bind fun type => ?_
      exact .pure fun s h => h.1.1.2.append h.1.2
  | .unary note op operand => by
    rw [term]
    refine (term_goesOn hP operand).bind fun operand => ?_
    refine (GoesOn.of_remarks (unaryType_remarks _ _ _)).bind fun type => ?_
    exact .pure fun s h => h.1.2
  | .call note function args => by
    rw [term]
    refine (terms_goesOn hP args).bind fun args => ?_
    refine (GoesOn.of_remarks (callType_remarks _ _ _ _)).bind fun type => ?_
    exact .pure fun s h => h.1.2
  | .callStar note function star => by
    rw [term]
    refine (GoesOn.of_remarks (callType_remarks _ _ _ _)).bind fun type => ?_
    exact .pure fun _ _ => refuses_nil
  | .brackets note inner => by
    rw [term]
    refine (term_goesOn hP inner).bind fun inner => ?_
    exact .pure fun s h => h.2
  | .list note items => by
    rw [term]
    refine (terms_goesOn hP items).bind fun items => ?_
    exact .pure fun s h => h.2
  | .subquery note select => by
    rw [term]
    refine (GoesOn.of_runsWithin (query_within "subquery" select)).bind fun result => ?_
    have hcount : ∀ count : Nat, BeginsOtherwise
        s!"subquery must return exactly one column, found {count}" :=
      fun count => .append (.literal _ rfl) _
    refine (GoesOn.of_remarks (onlyColumnType_remarks _ hcount _)).bind fun type => ?_
    exact .pure fun _ _ => refuses_nil

theorem terms_goesOn {P : ResolverState → Prop} (hP : ∀ s, P s → s.Overloads column) :
    (es : List Expr) → GoesOn P (terms es) fun s es' => s.Refuses column (bareNamesOfList es')
  | [] => by
    rw [terms]
    exact .pure fun _ _ => refuses_nil
  | e :: es => by
    rw [terms]
    refine (term_goesOn hP e).bind fun e => ?_
    refine (terms_goesOn (fun s h => hP s h.1) es).bind fun es => ?_
    exact .pure fun s h => h.1.2.append h.2

theorem memberTerms_goesOn {P : ResolverState → Prop} (hP : ∀ s, P s → s.Overloads column)
    (left : Option SqlType) (op : BinaryOperator) :
    (es : List Expr) → GoesOn P (memberTerms left op es) fun s es' =>
      s.Refuses column (bareNamesOfList es')
  | [] => by
    rw [memberTerms]
    exact .pure fun _ _ => refuses_nil
  | e :: es => by
    rw [memberTerms]
    refine (term_goesOn hP e).bind fun e => ?_
    refine (GoesOn.of_remarks (requireMember_remarks _ _ _ _)).bind fun _ => ?_
    refine (memberTerms_goesOn (fun s h => hP s h.1.1) left op es).bind fun es => ?_
    exact .pure fun s h => h.1.1.2.append h.2

end

/-! ### Queries -/

theorem addResultColumn_extends (result : TableId) (value : Expr) (label : Option Ident)
    (s : ResolverState) : s.Extends ((addResultColumn result value label).run s).2 :=
  .of_innermost rfl (fun _ hd => hd) rfl

theorem addStar_extends (result : TableId) (hasSource : Bool) (joined : List (String × TableId))
    (span : Span) (s : ResolverState) :
    s.Extends ((addStar result hasSource joined span).run s).2 := by
  unfold addStar
  split
  · exact .of_innermost rfl (fun _ hd => List.mem_append_left _ hd) rfl
  · exact .of_innermost rfl (fun _ hd => hd) rfl

theorem addTableStar_extends (result : TableId) (joined : List (String × TableId)) (name : Ident)
    (s : ResolverState) : s.Extends ((addTableStar result joined name).run s).2 := by
  unfold addTableStar
  split
  · exact .of_innermost rfl (fun _ hd => hd) rfl
  · exact .of_innermost rfl (fun _ hd => List.mem_append_left _ hd) rfl

theorem resultColumns_goesOn {P : ResolverState → Prop} (hP : ∀ s, P s → s.Overloads column)
    (result : TableId) (hasSource : Bool) (joined : List (String × TableId))
    (columns : List ResultColumn) :
    GoesOn P (resultColumns result hasSource joined columns) fun s results =>
      ∀ c ∈ results.1, s.Refuses column c.bareNames := by
  induction columns generalizing P with
  | nil =>
    rw [resultColumns]
    exact .pure fun _ _ _ h => absurd h List.not_mem_nil
  | cons c rest ih =>
    cases c with
    | star span =>
      rw [resultColumns]
      refine (GoesOn.of_extends (addStar_extends _ _ _ _)).bind fun _ => ?_
      refine (ih fun s h => hP s h.1).bind fun results => ?_
      exact .pure fun s h => List.forall_mem_cons.mpr ⟨refuses_nil, h.2⟩
    | tableStar table =>
      rw [resultColumns]
      refine (GoesOn.of_extends (addTableStar_extends _ _ _)).bind fun _ => ?_
      refine (ih fun s h => hP s h.1).bind fun results => ?_
      exact .pure fun s h => List.forall_mem_cons.mpr ⟨refuses_nil, h.2⟩
    | expr value label =>
      rw [resultColumns]
      refine (term_goesOn hP value).bind fun value => ?_
      refine (GoesOn.of_extends (addResultColumn_extends _ _ _)).bind fun entry => ?_
      refine (ih fun s h => hP s h.1.1).bind fun results => ?_
      exact .pure fun s h => List.forall_mem_cons.mpr ⟨h.1.1.2, h.2⟩

/-- Where the sources of a query give a name several meanings, the columns of its result
refuse it. -/
theorem columnsOfQuery_refuses (name : String) (select : Select)
    (found : Option FromClause × List (String × TableId)) {s : ResolverState}
    (hopen : s.frames ≠ []) (h : s.Overloads column) :
    let after := (columnsOfQuery name select found).run s
    ∀ c ∈ after.1.1.columns, after.2.Refuses column c.bareNames := by
  have hkeep : ∀ t, s.Extends t → t.Overloads column := by
    intro t ht
    obtain ⟨a, ha, b, hb, hab⟩ := h
    exact ⟨a, ht.columnsNamed column ha, b, ht.columnsNamed column hb, hab⟩
  have hfirst : s.Extends ((addTable name .derived).run s).2 :=
    .of_innermost rfl (fun _ hd => hd) rfl
  have hopen := (addTable_orderly name .derived s hopen).keeps.isOpen
  unfold columnsOfQuery
  rw [run_bind]
  generalize (addTable name .derived).run s = next at hfirst hopen
  obtain ⟨-, hgood⟩ := resultColumns_goesOn (P := Overloads column) (fun _ h => h) next.1
    found.1.isSome found.2 select.columns next.2 fun t ht => hkeep t (hfirst.trans ht)
  have hopen :=
    (resultColumns_orderly next.1 found.1.isSome found.2 select.columns _ hopen).keeps.isOpen
  rw [run_bind]
  generalize (resultColumns next.1 found.1.isSome found.2 select.columns).run next.2 = last
    at hgood hopen
  have hrest := restOfQuery_orderly select found.1 next.1 last.1
  obtain ⟨ds, hds⟩ := hrest.appends hopen
  have hcolumns := (restOfQuery_yields select found.1 next.1 last.1 last.2).2
  intro after c hc entry hentry hnamed
  rw [hcolumns] at hc
  refine (hgood last.2 (.refl _) c hc entry hentry hnamed).mono (hrest _ hopen).1.index ?_
  exact fun d hd => hds ▸ List.mem_append_left _ hd

/-- A table that is shown gives a name the meaning of each column that has it, also if the
column is only looked for later. -/
theorem exists_columnsNamed {s : ResolverState} {c : Catalog} {table : TableId}
    (hs : s.catalog.Indexed) (hshows : s.Shows table) (hkeeps : s.catalog.KeepsTables c)
    (h : c.findColumns table column ≠ []) :
    ∃ id ∈ s.innermost.columnsNamed column, (s.catalog.column id).table = table := by
  obtain ⟨id, hid⟩ := List.exists_mem_of_ne_nil _ h
  obtain ⟨hmem, hname⟩ := List.mem_filter.mp hid
  rw [hkeeps.table _ hshows.hasTable] at hmem
  rw [hkeeps.column _ hshows.hasTable id hmem, Text.sameName_iff] at hname
  refine ⟨id, ?_, (hs.owner_of_mem hmem).2⟩
  rw [← Scope.columnsNamed_eq hname]
  exact hshows.columns id hmem

theorem query_refuses {s : ResolverState} (hs : s.catalog.Indexed) (name : String)
    (select : Select) {a b : TableId} (hab : a ≠ b)
    (ha : a ∈ ((query name select).run s).1.1.tables)
    (hb : b ∈ ((query name select).run s).1.1.tables)
    (hcolumn : ((query name select).run s).2.catalog.findColumns a column ≠ [])
    (hcolumn' : ((query name select).run s).2.catalog.findColumns b column ≠ []) :
    ∀ c ∈ ((query name select).run s).1.1.columns,
      ((query name select).run s).2.Refuses column c.bareNames := by
  have hopen : ((sources select.source).run (s.enter select.span)).2.frames ≠ [] :=
    (sources_orderly select.source (s.enter select.span) (List.cons_ne_nil _ _)).keeps.isOpen
  obtain ⟨hunfolds, hshown⟩ := sources_unfolds select.source (s := s.enter select.span) hs
  rw [query_eq, run_within, run_bind] at ha hb hcolumn hcolumn' ⊢
  generalize (sources select.source).run (s.enter select.span) = found
    at hopen hunfolds hshown ha hb hcolumn hcolumn' ⊢
  have hsource : _ = found.1.1 := columnsOfQuery_source name select found.1 found.2
  have hkeeps := keepsTables_of_evolves hunfolds.indexed fun own =>
    columnsOfQuery_evolves own name select found.1
  have hshows : ∀ t ∈ ((columnsOfQuery name select found.1).run found.2).1.1.tables,
      found.2.Shows t := by
    intro t ht
    rw [Select.tables, hsource] at ht
    obtain ⟨clause, hclause, ht⟩ := List.mem_flatMap.mp ht
    obtain ⟨src, hsrc, ht⟩ := List.mem_filterMap.mp ht
    exact hshown clause (Option.mem_toList.mp hclause) src hsrc t ht
  simp only [leave_catalog] at hcolumn hcolumn'
  obtain ⟨id, hid, howner⟩ := exists_columnsNamed hunfolds.indexed (hshows a ha) hkeeps hcolumn
  obtain ⟨id', hid', howner'⟩ := exists_columnsNamed hunfolds.indexed (hshows b hb) hkeeps hcolumn'
  have hne : id ≠ id' := by
    rintro rfl
    exact hab (howner.symm.trans howner')
  have hrefuses := columnsOfQuery_refuses name select found.1 hopen ⟨id, hid, id', hid', hne⟩
  intro c hc entry hentry hnamed
  refine (hrefuses c hc entry hentry hnamed).mono (leave_index _) ?_
  rw [leave_diagnostics]
  exact fun _ hd => hd

/-- If two tables among the sources of a query have columns of one name, that name is left
unbound wherever it stands without a table in the columns of the result, and an error says
each time that it is ambiguous. -/
theorem query_ambiguous {s : ResolverState} (hs : s.catalog.Indexed) (name : String)
    (select : Select) {column : String} {a b : TableId} (hab : a ≠ b)
    (ha : a ∈ ((query name select).run s).1.1.tables)
    (hb : b ∈ ((query name select).run s).1.1.tables)
    (hcolumn : ((query name select).run s).2.catalog.findColumns a column ≠ [])
    (hcolumn' : ((query name select).run s).2.catalog.findColumns b column ≠ []) :
    ∃ raised, ((query name select).run s).2.diagnostics = s.diagnostics ++ raised ∧
      ∀ c ∈ ((query name select).run s).1.1.columns, ∀ entry ∈ c.bareNames,
        entry.2.isNamed column = true → entry.1.binding = none ∧ entry.1.type = none ∧
          ∃ tables : String, Diagnostic.semantic
            s!"ambiguous identifier {entry.2.name} (found in {tables})"
            (s.index.range entry.2.span) ∈ raised := by
  have hstate : { s with diagnostics := [] }.behind s.diagnostics [] = s := by
    simp [behind]
  have hrun := (query_within name select).run_behind { s with diagnostics := [] } s.diagnostics []
  rw [hstate] at hrun
  rw [hrun] at ha hb hcolumn hcolumn' ⊢
  refine ⟨_, rfl, fun c hc entry hentry hnamed => ?_⟩
  have hrefused := query_refuses (s := { s with diagnostics := [] }) hs name select hab ha hb
    hcolumn hcolumn' c hc entry hentry hnamed
  obtain ⟨tables, htables⟩ := hrefused.raised
  have hextends := Extends.of_runsWithin (query_within name select) { s with diagnostics := [] }
  rw [hextends.index] at htables
  exact ⟨hrefused.binding, hrefused.type, tables, htables⟩

/-- `SELECT id FROM t, u` over two tables with a column `id`. -/
theorem query_ambiguous_join :
    let column : ColumnDescriptor := ⟨"id", "integer", false, none, false⟩
    let catalog := Catalog.ofDescriptors
      [⟨"t", none, [column], [], none⟩, ⟨"u", none, [column], [], none⟩]
    let table (name : String) (start : Nat) : Source :=
      .table ⟨name, false, ⟨start, start + 1⟩⟩ none none
    let select : Select := ⟨false, [.expr (.name ⟨⟨7, 9⟩, none, none⟩ ⟨"id", false, ⟨7, 9⟩⟩) none],
      some ⟨table "t" 15, [⟨false, .comma, table "u" 18, none, ⟨16, 19⟩⟩]⟩, none, none, none, none,
      ⟨0, 19⟩, none⟩
    let after := (query "result" select).run (.start ⟨[], 19⟩ catalog)
    catalog.Indexed ∧ (⟨0⟩ ∈ after.1.1.tables ∧ ⟨1⟩ ∈ after.1.1.tables) ∧
      (after.2.catalog.findColumns ⟨0⟩ "ID" ≠ [] ∧ after.2.catalog.findColumns ⟨1⟩ "ID" ≠ []) ∧
      ∃ tables : String, Diagnostic.semantic s!"ambiguous identifier id (found in {tables})"
        ⟨⟨0, 7⟩, ⟨0, 9⟩⟩ ∈ after.2.diagnostics := by
  intro column catalog table select after
  have hc : catalog.Indexed := .ofDescriptors _
  have ha : ⟨0⟩ ∈ after.1.1.tables := by decide +kernel
  have hb : ⟨1⟩ ∈ after.1.1.tables := by decide +kernel
  have hcolumn : after.2.catalog.findColumns ⟨0⟩ "ID" ≠ [] := by decide +kernel
  have hcolumn' : after.2.catalog.findColumns ⟨1⟩ "ID" ≠ [] := by decide +kernel
  have hnames : after.1.1.columns.flatMap ResultColumn.bareNames =
      [(⟨⟨7, 9⟩, none, none⟩, ⟨"id", false, ⟨7, 9⟩⟩)] := by decide +kernel
  refine ⟨hc, ⟨ha, hb⟩, ⟨hcolumn, hcolumn'⟩, ?_⟩
  -- From here on the run is any one with these results: nothing below may evaluate it.
  obtain ⟨r, hr⟩ : ∃ r, r = after := ⟨after, rfl⟩
  rw [← hr] at ha hb hcolumn hcolumn' hnames ⊢
  have hrun : (query "result" select).run (.start ⟨[], 19⟩ catalog) = r := hr.symm
  clear_value select catalog
  clear hr after
  obtain ⟨raised, hraised, hrefused⟩ := @query_ambiguous (.start ⟨[], 19⟩ catalog) hc "result"
    select "ID" ⟨0⟩ ⟨1⟩ (by decide) (hrun ▸ ha) (hrun ▸ hb) (hrun ▸ hcolumn) (hrun ▸ hcolumn')
  rw [hrun] at hraised hrefused
  obtain ⟨c, hmem, hentry⟩ := List.mem_flatMap.mp (hnames ▸ List.mem_cons_self)
  obtain ⟨-, -, tables, htables⟩ := hrefused c hmem _ hentry (by decide)
  exact ⟨tables, hraised ▸ htables⟩

end Resolver

/-- A table stands twice among the sources, so that both of them have the column `id`. It
is one column all the same, to which the name is bound without a complaint. -/
theorem Resolution.ofStatements_repeated_table :
    let source := "SELECT id FROM t AS a JOIN t AS b"
    let catalog := Catalog.ofDescriptors
      [⟨"t", none, [⟨"id", "integer", false, none, false⟩], [], none⟩]
    let r := Resolution.ofStatements (LineIndex.ofText source) catalog
      (Script.ofTokens (Lexed.ofText source).tokens).statements
    let queries := r.statements.filterMap fun s => match s.body with
      | .select query => some query
      | _ => none
    let sources := queries.flatMap fun query => query.source.toList.flatMap FromClause.sources
    let names := queries.flatMap fun query => query.columns.flatMap ResultColumn.bareNames
    sources.map Source.table? = [some ⟨0⟩, some ⟨0⟩] ∧ catalog.findColumns ⟨0⟩ "id" = [⟨0⟩] ∧
      names.map (fun entry => (entry.2.name, entry.1.binding)) = [("id", some (.column ⟨0⟩))] ∧
      r.raised = [] := by decide +kernel

end SqlAnalysis
