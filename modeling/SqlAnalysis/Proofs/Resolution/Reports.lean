import SqlAnalysis.Proofs.Resolution.Complaints

/-!
# Over which catalogs resolvers complain

What is complained about while something is resolved is complained about over a
catalog on the way: edits lead to it from the first catalog, and from it to the last.
So whatever edits keep holds of each catalog in which a name is looked up.
-/
namespace SqlAnalysis.Resolver

open Catalog ResolverState

variable {α β : Type} {N : Expr → Prop} {P P' : Catalog → Prop} {Q Q' : Catalog → α → Prop}
  {R : Catalog → β → Prop}

/-- A diagnostic is raised between two catalogs. -/
def RaisedBetween (N : Expr → Prop) (index : LineIndex) (first last : Catalog)
    (d : Diagnostic) : Prop :=
  ∃ c, Edits .all first c ∧ Edits .all c last ∧ Complaint N index c d

/-- A run edits the catalog and raises what may be complained about on the way. -/
structure ReportsAt (N : Expr → Prop) (s : ResolverState) (r : Resolver α)
    (Q : Catalog → α → Prop) : Prop where
  evolves : EvolvesAt .all s r Q
  index : (r.run s).2.index = s.index
  raised : ∃ ds, (r.run s).2.diagnostics = s.diagnostics ++ ds ∧
    ∀ d ∈ ds, RaisedBetween N s.index s.catalog (r.run s).2.catalog d

/-- Every run does where something holds of the catalog and of all that edits make of it. -/
def Reports (N : Expr → Prop) (P : Catalog → Prop) (r : Resolver α)
    (Q : Catalog → α → Prop) : Prop :=
  ∀ s, s.catalog.Indexed → (∀ c, Edits .all s.catalog c → P c) → ReportsAt N s r Q

theorem RaisedBetween.widen {index : LineIndex} {a b c d : Catalog} {x : Diagnostic}
    (h : RaisedBetween N index b c x) (hbefore : Edits .all a b) (hafter : Edits .all c d) :
    RaisedBetween N index a d x := by
  obtain ⟨m, hm, hm', hx⟩ := h
  exact ⟨m, hbefore.trans hm, hm'.trans hafter, hx⟩

namespace ReportsAt

variable {s : ResolverState} {r : Resolver α} {f : α → Resolver β}

theorem of_remarks (h : EvolvesAt .all s r Q) (hremarks : RemarksAt N s r) :
    ReportsAt N s r Q := by
  obtain ⟨ds, hds, hrun⟩ := hremarks
  refine ⟨h, by rw [hrun], ds, by rw [hrun], fun d hd => ⟨s.catalog, .refl, ?_, hds d hd⟩⟩
  exact h.edits

theorem silent (h : EvolvesAt .all s r Q) (hindex : (r.run s).2.index = s.index)
    (hdiagnostics : (r.run s).2.diagnostics = s.diagnostics) : ReportsAt N s r Q :=
  ⟨h, hindex, [], by simpa using hdiagnostics, fun _ hd => absurd hd List.not_mem_nil⟩

theorem bind (hr : ReportsAt N s r Q) (hf : ReportsAt N (r.run s).2 (f (r.run s).1) R) :
    ReportsAt N s (r >>= f) R := by
  obtain ⟨ds, hrun, hds⟩ := hr.raised
  obtain ⟨ds', hrun', hds'⟩ := hf.raised
  refine ⟨hr.evolves.bind hf.evolves, hf.index.trans hr.index, ds ++ ds', ?_, fun d hd => ?_⟩
  · rw [run_bind, hrun', hrun, List.append_assoc]
  · rcases List.mem_append.mp hd with hd | hd
    · exact (hds d hd).widen .refl hf.evolves.edits
    · have hlater := hds' d hd
      rw [hr.index] at hlater
      exact hlater.widen hr.evolves.edits .refl

/-- What a resolver sees of the catalog is the catalog that it starts with. -/
theorem view {f : Catalog → Resolver α} (h : ReportsAt N s (f s.catalog) Q) :
    ReportsAt N s (catalog >>= f) Q :=
  ⟨.view h.evolves, h.index, h.raised⟩

theorem weaken (h : ReportsAt N s r Q) (hQ : ∀ c a, Q c a → Q' c a) : ReportsAt N s r Q' :=
  ⟨⟨h.evolves.edits, fun c hc => hQ c _ (h.evolves.good c hc)⟩, h.index, h.raised⟩

end ReportsAt

namespace Reports

variable {r : Resolver α} {f : α → Resolver β}

theorem of_remarks (h : Evolves .all P r Q) (hremarks : Remarks N r) : Reports N P r Q :=
  fun s hs hP => .of_remarks (h s ⟨hs, fun _ _ => trivial⟩ hP) (hremarks s)

theorem remarks (h : Remarks N r) : Reports N P r fun _ _ => True := by
  refine of_remarks (.quiet fun s => ?_) h
  obtain ⟨ds, -, hrun⟩ := h s
  rw [hrun]

theorem silent (h : Evolves .all P r Q) (hrun : ∀ s, (r.run s).2.index = s.index ∧
    (r.run s).2.diagnostics = s.diagnostics) : Reports N P r Q :=
  fun s hs hP => .silent (h s ⟨hs, fun _ _ => trivial⟩ hP) (hrun s).1 (hrun s).2

theorem modifyFrame (f : ResolverState → Frame → Frame) :
    Reports N P (modify fun s => s.modifyFrame (f s)) fun _ _ => True := by
  refine silent (.quiet (.modifyFrame f)) fun s => ?_
  show (s.modifyFrame (f s)).index = s.index ∧ (s.modifyFrame (f s)).diagnostics = s.diagnostics
  unfold ResolverState.modifyFrame
  split <;> exact ⟨rfl, rfl⟩

theorem pure {a : α} (h : ∀ c, P c → Q c a) : Reports N P (pure a) Q :=
  of_remarks (.pure h) (.pure a)

theorem weaken (hr : Reports N P r Q) (hP : ∀ c, P' c → P c) (hQ : ∀ c a, Q c a → Q' c a) :
    Reports N P' r Q' := by
  intro s hs hP'
  exact (hr s hs fun c hc => hP c (hP' c hc)).weaken hQ

theorem bind (hr : Reports N P r Q) (hf : ∀ a, Reports N (fun c => P c ∧ Q c a) (f a) R) :
    Reports N P (r >>= f) R := by
  intro s hs hP
  have hrun := hr s hs hP
  refine hrun.bind (hf _ _ (hrun.evolves.edits.indexed hs) fun c hc => ⟨?_, ?_⟩)
  · exact hP c (hrun.evolves.edits.trans hc)
  · exact hrun.evolves.good c hc

/-- A run from a state of which nothing needs to be known. -/
theorem runsAt (hr : Reports N (fun _ => True) r Q) {s : ResolverState} (hs : s.catalog.Indexed) :
    ReportsAt N s r Q :=
  hr s hs fun _ _ => trivial

/-- Of most results nothing needs to be known. -/
theorem andThen (hr : Reports N P r fun _ _ => True) (hf : ∀ a, Reports N P (f a) R) :
    Reports N P (r >>= f) R :=
  hr.bind fun a => (hf a).weaken (fun _ h => h.1) fun _ _ h => h

theorem done {a : α} : Reports N P (Pure.pure a) fun _ _ => True :=
  pure fun _ _ => trivial

theorem map (hr : Reports N P r fun _ _ => True) (g : α → β) :
    Reports N P (g <$> r) fun _ _ => True :=
  hr.andThen fun _ => done

theorem within (hr : Reports N P r Q) (span : Span) : Reports N P (within span r) Q := by
  intro s hs hP
  have hrun := hr (s.enter span) hs hP
  obtain ⟨ds, hds, hraised⟩ := hrun.raised
  have hleave : ∀ s : ResolverState, s.leave.index = s.index := by
    intro s
    unfold ResolverState.leave ResolverState.modifyFrame
    split
    · dsimp only
      split <;> rfl
    · rfl
  refine ⟨⟨?_, ?_⟩, ?_, ds, ?_, ?_⟩
  · rw [run_within, leave_catalog]
    exact hrun.evolves.edits
  · rw [run_within, leave_catalog]
    exact hrun.evolves.good
  · rw [run_within, hleave]
    exact hrun.index
  · rw [run_within, leave_diagnostics]
    exact hds
  · rw [run_within, leave_catalog]
    exact hraised

theorem mapM (as : List α) (hf : ∀ a ∈ as, Reports N P (f a) fun _ _ => True) :
    Reports N P (as.mapM f) fun _ _ => True := by
  induction as with
  | nil => exact done
  | cons a as ih =>
    obtain ⟨ha, has⟩ := List.forall_mem_cons.mp hf
    rw [List.mapM_cons]
    exact ha.andThen fun b => (ih has).andThen fun bs => done

theorem forM (as : List α) {f : α → Resolver Unit}
    (hf : ∀ a ∈ as, Reports N P (f a) fun _ _ => True) :
    Reports N P (as.forM f) fun _ _ => True := by
  induction as with
  | nil => exact done
  | cons a as ih =>
    obtain ⟨ha, has⟩ := List.forall_mem_cons.mp hf
    exact ha.andThen fun _ => ih has

end Reports

/-! ### Expressions and queries -/

theorem bindTable_reports (name : String) (table : TableId) :
    Reports N P (modify fun s => s.bindTable name table) fun _ _ => True := by
  refine .silent (.quiet (.bindTable name table)) fun s => ?_
  show (s.bindTable name table).index = s.index ∧ (s.bindTable name table).diagnostics = _
  unfold ResolverState.bindTable ResolverState.bindColumns ResolverState.modifyFrame
  split <;> dsimp only <;> split <;> exact ⟨rfl, rfl⟩

theorem tableSource_reports (name : Ident) (label : Option Ident) :
    Reports N P (tableSource name label) fun _ _ => True := by
  refine (Reports.remarks (catalogTable?_remarks name)).andThen fun table? => ?_
  split
  · exact (bindTable_reports _ _).andThen fun _ => .done
  · exact (Reports.modifyFrame _).andThen fun _ => .done

theorem bindSubquery_reports (label : Option Ident) (table : TableId) :
    Reports N P (bindSubquery label table) fun _ _ => True := by
  unfold bindSubquery
  split
  · exact bindTable_reports _ _
  · exact .modifyFrame _

theorem bindAliases_reports (aliases : List (String × ColumnId)) :
    Reports N P (modify fun s => aliases.foldl (fun s entry => s.bindColumn entry.1 entry.2) s)
      fun _ _ => True := by
  refine .silent (.quiet (bindAliases_quiet aliases)) fun s => ?_
  show (aliases.foldl (fun s entry => s.bindColumn entry.1 entry.2) s).index = s.index ∧
    (aliases.foldl (fun s entry => s.bindColumn entry.1 entry.2) s).diagnostics = s.diagnostics
  induction aliases generalizing s with
  | nil => exact ⟨rfl, rfl⟩
  | cons entry aliases ih =>
    obtain ⟨hindex, hdiagnostics⟩ := ih (s.bindColumn entry.1 entry.2)
    refine ⟨hindex.trans ?_, hdiagnostics.trans (modifyFrame_diagnostics _ _)⟩
    unfold ResolverState.bindColumn ResolverState.modifyFrame
    split <;> rfl

theorem addStar_reports {result : TableId} (hresult : ∀ c, P c → IsResult .all result c)
    (hasSource : Bool) (joined : List (String × TableId)) (span : Span) :
    Reports N P (addStar result hasSource joined span) fun _ _ => True := by
  intro s hs hP
  have hevolves := addStar_evolves hresult hasSource joined span s ⟨hs, fun _ _ => trivial⟩ hP
  cases hasSource with
  | true => exact .silent hevolves rfl rfl
  | false =>
    refine ⟨hevolves, rfl, [_], rfl, List.forall_mem_singleton.mpr ?_⟩
    refine ⟨s.catalog, .refl, hevolves.edits, .other ?_⟩
    exact (BeginsOtherwise.literal "'*' requires a FROM clause" rfl).not_isAmbiguity

theorem addTableStar_reports {result : TableId} (hresult : ∀ c, P c → IsResult .all result c)
    (joined : List (String × TableId)) (name : Ident) :
    Reports N P (addTableStar result joined name) fun _ _ => True := by
  intro s hs hP
  have hevolves := addTableStar_evolves hresult joined name s ⟨hs, fun _ _ => trivial⟩ hP
  revert hevolves
  unfold addTableStar
  split
  · exact fun hevolves => .silent hevolves rfl rfl
  · refine fun hevolves => .of_remarks hevolves (Remarks.errorWithFix ?_ _ _ s)
    exact BeginsOtherwise.not_isAmbiguity (.append (.literal _ rfl) _)

theorem condition_reports {resolved : Resolver Expr}
    (h : Reports N P resolved fun _ _ => True) {clause : String}
    (hclause : BeginsOtherwise clause) (span : Span) :
    Reports N P (condition clause span resolved) fun _ _ => True := by
  refine .within (h.andThen fun e => ?_) span
  exact (Reports.remarks (requireBoolean_remarks hclause e)).andThen fun _ => .done

mutual

theorem term_reports {P : Catalog → Prop} :
    (e : Expr) → (∀ x ∈ e.allNodes, N x) → Reports N P (term e) fun _ _ => True
  | .constant _ _, _ => by
    rw [term]
    exact .done
  | .name _ ident, _ => by
    rw [term]
    refine .remarks ((scopeColumn?_remarks ident).bind fun column => ?_)
    exact (columnType_remarks column).bind fun type => .pure _
  | .dot note left right, h => by
    rw [term]
    exact .remarks (dot_remarks (h _ (Expr.self_mem_allNodes _)))
  | .binary note left op right, h => by
    simp only [Expr.allNodes, List.forall_mem_cons, List.forall_mem_append] at h
    rw [term]
    apply (term_reports left h.2.1).andThen
    intro left
    have hright := @term_reports P right h.2.2
    dsimp only
    split
    · cases right with
      | subquery rightNote select =>
        simp only [Expr.allNodes, List.forall_mem_cons] at h
        apply (query_reports "subquery" select h.2.2.2).andThen
        intro result
        refine .remarks ((onlyColumnType_remarks _ (fun count => ?_) _).bind fun type => ?_)
        · exact .append (.append (.append (.literal _ rfl) _) _) _
        · exact (requireMember_remarks _ _ _ _).bind fun _ => .pure _
      | list rightNote items =>
        simp only [Expr.allNodes, List.forall_mem_cons] at h
        exact (memberTerms_reports left.type op items h.2.2.2).andThen fun items => .done
      | _ =>
        apply hright.andThen
        intro right
        exact .remarks ((requireMember_remarks _ _ _ _).bind fun _ => .pure _)
    · apply hright.andThen
      intro right
      exact .remarks ((binaryType_remarks _ _ _ _).bind fun type => .pure _)
  | .unary note op operand, h => by
    simp only [Expr.allNodes, List.forall_mem_cons] at h
    rw [term]
    apply (term_reports operand h.2).andThen
    intro operand
    exact .remarks ((unaryType_remarks _ _ _).bind fun type => .pure _)
  | .call note function args, h => by
    simp only [Expr.allNodes, List.forall_mem_cons] at h
    rw [term]
    apply (terms_reports args h.2).andThen
    intro args
    exact .remarks ((callType_remarks _ _ _ _).bind fun type => .pure _)
  | .callStar note function star, _ => by
    rw [term]
    exact .remarks ((callType_remarks _ _ _ _).bind fun type => .pure _)
  | .brackets note inner, h => by
    simp only [Expr.allNodes, List.forall_mem_cons] at h
    rw [term]
    exact (term_reports inner h.2).andThen fun inner => .done
  | .list note items, h => by
    simp only [Expr.allNodes, List.forall_mem_cons] at h
    rw [term]
    exact (terms_reports items h.2).andThen fun items => .done
  | .subquery note select, h => by
    simp only [Expr.allNodes, List.forall_mem_cons] at h
    rw [term]
    apply (query_reports "subquery" select h.2).andThen
    intro result
    refine .remarks ((onlyColumnType_remarks _ (fun count => ?_) _).bind fun type => .pure _)
    exact .append (.literal _ rfl) _

theorem terms_reports {P : Catalog → Prop} :
    (es : List Expr) → (∀ x ∈ exprNodes es, N x) → Reports N P (terms es) fun _ _ => True
  | [], _ => by
    rw [terms]
    exact .done
  | e :: es, h => by
    rw [exprNodes, List.forall_mem_append] at h
    rw [terms]
    apply (term_reports e h.1).andThen
    intro e
    exact (terms_reports es h.2).andThen fun es => .done

theorem memberTerms_reports {P : Catalog → Prop} (left : Option SqlType) (op : BinaryOperator) :
    (es : List Expr) → (∀ x ∈ exprNodes es, N x) →
      Reports N P (memberTerms left op es) fun _ _ => True
  | [], _ => by
    rw [memberTerms]
    exact .done
  | e :: es, h => by
    rw [exprNodes, List.forall_mem_append] at h
    rw [memberTerms]
    apply (term_reports e h.1).andThen
    intro e
    apply (Reports.remarks (requireMember_remarks _ _ _ _)).andThen
    intro _
    exact (memberTerms_reports left op es h.2).andThen fun es => .done

theorem source_reports {P : Catalog → Prop} :
    (s : Source) → (∀ x ∈ s.allNodes, N x) → Reports N P (source s) fun _ _ => True
  | .table name label _, _ => by
    rw [source]
    exact tableSource_reports name label
  | .subquery select label span, h => by
    rw [Source.allNodes] at h
    rw [source]
    apply (query_reports (subqueryName label) select h).andThen
    intro result
    exact (bindSubquery_reports label _).andThen fun _ => .done

theorem joins_reports {P : Catalog → Prop} :
    (js : List Join) → (∀ x ∈ joinNodes js, N x) → Reports N P (joins js) fun _ _ => True
  | [], _ => by
    rw [joins]
    exact .done
  | ⟨_, _, table, none, _⟩ :: rest, h => by
    rw [joinNodes, List.forall_mem_append] at h
    rw [joins]
    apply (source_reports table h.1).andThen
    intro result
    exact (joins_reports rest h.2).andThen fun results => .done
  | ⟨_, _, table, some on, _⟩ :: rest, h => by
    rw [joinNodes, List.forall_mem_append, List.forall_mem_append] at h
    rw [joins]
    apply (source_reports table h.1.1).andThen
    intro result
    apply (condition_reports (term_reports on h.1.2) (.literal _ rfl) _).andThen
    intro on
    exact (joins_reports rest h.2).andThen fun results => .done

theorem resultColumns_reports {P : Catalog → Prop} {result : TableId}
    (hresult : ∀ c, P c → IsResult .all result c) (hasSource : Bool)
    (joined : List (String × TableId)) :
    (columns : List ResultColumn) → (∀ x ∈ columnNodes columns, N x) →
      Reports N P (resultColumns result hasSource joined columns) fun _ _ => True
  | [], _ => by
    rw [resultColumns]
    exact .done
  | .star span :: rest, h => by
    rw [columnNodes] at h
    rw [resultColumns]
    apply (addStar_reports hresult _ _ _).andThen
    intro _
    exact (resultColumns_reports hresult hasSource joined rest h).andThen fun results => .done
  | .tableStar table :: rest, h => by
    rw [columnNodes] at h
    rw [resultColumns]
    apply (addTableStar_reports hresult _ _).andThen
    intro _
    exact (resultColumns_reports hresult hasSource joined rest h).andThen fun results => .done
  | .expr value label :: rest, h => by
    rw [columnNodes, List.forall_mem_append] at h
    rw [resultColumns]
    apply (term_reports value h.1).andThen
    intro value
    apply (Reports.silent (addResultColumn_evolves hresult value label) fun s => ⟨rfl, rfl⟩).andThen
    intro entry
    exact (resultColumns_reports hresult hasSource joined rest h.2).andThen fun results => .done

theorem orderingTerms_reports {P : Catalog → Prop} :
    (items : List OrderingTerm) → (∀ x ∈ termNodes items, N x) →
      Reports N P (orderingTerms items) fun _ _ => True
  | [], _ => by
    rw [orderingTerms]
    exact .done
  | ⟨expr, _, _⟩ :: rest, h => by
    rw [termNodes, List.forall_mem_append] at h
    rw [orderingTerms]
    apply (term_reports expr h.1).andThen
    intro expr
    exact (orderingTerms_reports rest h.2).andThen fun items => .done

theorem sources_reports {P : Catalog → Prop} :
    (clause : Option FromClause) → (∀ x ∈ sourceNodes clause, N x) →
      Reports N P (sources clause) fun _ _ => True
  | none, _ => by
    rw [sources]
    exact .done
  | some ⟨first, others⟩, h => by
    rw [sourceNodes, List.forall_mem_append] at h
    rw [sources]
    apply (source_reports first h.1).andThen
    intro result
    exact (joins_reports others h.2).andThen fun results => .done

theorem rowCondition_reports {P : Catalog → Prop} :
    (test : Option Expr) → (∀ x ∈ optionNodes test, N x) →
      Reports N P (rowCondition test) fun _ _ => True
  | none, _ => by
    rw [rowCondition]
    exact .done
  | some e, h => by
    rw [optionNodes] at h
    rw [rowCondition]
    exact (condition_reports (term_reports e h) (.literal _ rfl) _).map some

theorem groups_reports {P : Catalog → Prop} :
    (clause : Option GroupBy) → (∀ x ∈ groupNodes clause, N x) →
      Reports N P (groups clause) fun _ _ => True
  | none, _ => by
    rw [groups]
    exact .done
  | some ⟨exprs, none, span⟩, h => by
    rw [groupNodes, List.forall_mem_append] at h
    rw [groups]
    exact (terms_reports exprs h.1).andThen fun exprs => .done
  | some ⟨exprs, some having, span⟩, h => by
    rw [groupNodes, List.forall_mem_append, optionNodes] at h
    rw [groups]
    apply (terms_reports exprs h.1).andThen
    intro exprs
    exact (condition_reports (term_reports having h.2) (.literal _ rfl) _).andThen
      fun having => .done

theorem order_reports {P : Catalog → Prop} (aliases : List (String × ColumnId)) :
    (clause : Option OrderBy) → (∀ x ∈ orderNodes clause, N x) →
      Reports N P (order aliases clause) fun _ _ => True
  | none, _ => by
    rw [order]
    exact .done
  | some ⟨items, span⟩, h => by
    rw [orderNodes] at h
    rw [order]
    refine .within ((bindAliases_reports aliases).andThen fun _ => ?_) span
    exact (orderingTerms_reports items h).andThen fun items => .done

theorem limits_reports {P : Catalog → Prop} :
    (clause : Option Limit) → (∀ x ∈ limitNodes clause, N x) →
      Reports N P (limits clause) fun _ _ => True
  | none, _ => by
    rw [limits]
    exact .done
  | some ⟨count, none, span⟩, h => by
    rw [limitNodes, List.forall_mem_append] at h
    rw [limits]
    apply (term_reports count h.1).andThen
    intro count
    exact .remarks ((requireInteger_remarks count).bind fun _ => .pure _)
  | some ⟨count, some offset, span⟩, h => by
    rw [limitNodes, List.forall_mem_append, optionNodes] at h
    rw [limits]
    apply (term_reports count h.1).andThen
    intro count
    apply (Reports.remarks (requireInteger_remarks count)).andThen
    intro _
    apply (term_reports offset h.2).andThen
    intro offset
    exact .remarks ((requireInteger_remarks offset).bind fun _ => .pure _)

theorem query_reports {P : Catalog → Prop} (name : String) :
    (s : Select) → (∀ x ∈ s.allNodes, N x) → Reports N P (query name s) fun _ _ => True
  | ⟨distinct, columns, clause, test, groupBy, orderBy, limit, span, _⟩, h => by
    simp only [Select.allNodes, List.forall_mem_append] at h
    obtain ⟨⟨⟨⟨⟨hcolumns, hclause⟩, htest⟩, hgroupBy⟩, horderBy⟩, hlimit⟩ := h
    rw [query]
    refine .within ?_ span
    apply (sources_reports clause hclause).andThen
    intro sources
    apply (Reports.silent (addResult_evolves name) fun s => ⟨rfl, rfl⟩).bind
    intro result
    apply (resultColumns_reports (fun c h => h.2) _ _ columns hcolumns).andThen
    intro entries
    apply (rowCondition_reports test htest).andThen
    intro test
    apply (groups_reports groupBy hgroupBy).andThen
    intro groupBy
    apply (order_reports _ orderBy horderBy).andThen
    intro orderBy
    exact (limits_reports limit hlimit).andThen fun limit => .done

end

end SqlAnalysis.Resolver
