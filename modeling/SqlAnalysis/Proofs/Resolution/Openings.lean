import SqlAnalysis.Proofs.Resolution.Complaints
import SqlAnalysis.Proofs.Scope.Lookup
import SqlAnalysis.Proofs.Syntax.Regions

/-!
# Which scopes are opened

A scope is opened for each region of a statement that resolving comes to. As regions
nest, a scope gets the whole range of its region, and it becomes part of the scope of the
region around it.
-/
namespace SqlAnalysis

/-! ### Scopes and regions -/

/-- Whether a tree of scopes has the range of a region, with nothing cut off, and those
inside it come in their order from some of the regions inside. -/
inductive Grown (index : LineIndex) : Outline → ScopeTree → Prop
  | mk {span : Span} {parts opened : List Outline} {scope : Scope} {children : List ScopeTree} :
      scope.range = index.range span → opened.Sublist parts →
      List.Forall₂ (Grown index) opened children →
      Grown index (.node span parts) (.node scope children)

/-- Whether trees come in their order from some of the regions given. -/
def GrownFrom (index : LineIndex) (regions : List Outline) (trees : List ScopeTree) : Prop :=
  ∃ opened, opened.Sublist regions ∧ List.Forall₂ (Grown index) opened trees

variable {index : LineIndex}

theorem Grown.range_eq {o : Outline} {t : ScopeTree} : Grown index o t →
    t.scope.range = index.range o.span
  | .mk hrange _ _ => hrange

/-- Whether regions nest and lie within a range. -/
def Range.Holds (index : LineIndex) (range : Range) (regions : List Outline) : Prop :=
  ∀ o ∈ regions, o.Nests ∧ range.encloses (index.range o.span) = true

theorem Range.Holds.append_iff {range : Range} {xs ys : List Outline} :
    range.Holds index (xs ++ ys) ↔ range.Holds index xs ∧ range.Holds index ys :=
  List.forall_mem_append

/-- Scopes from regions within a scope nest inside it. -/
theorem ScopeTree.Nests.of_grown {scope : Scope} {opened : List Outline}
    {children : List ScopeTree} (hholds : scope.range.Holds index opened)
    (hgrown : List.Forall₂ (Grown index) opened children)
    (hnests : ∀ o ∈ opened, ∀ t, Grown index o t → t.Nests) : (node scope children).Nests := by
  refine .mk (fun child hmem => ?_) fun child hmem => ?_
  · obtain ⟨o, ho, hchild⟩ := exists_of_mem_right hgrown hmem
    obtain ⟨hregion, hencloses⟩ := hholds o ho
    rw [hchild.range_eq]
    exact ⟨index.range_ordered hregion.ordered, hencloses⟩
  · obtain ⟨o, ho, hchild⟩ := exists_of_mem_right hgrown hmem
    exact hnests o ho child hchild

/-- Scopes nest as the regions do. -/
theorem Grown.nests : ∀ (o : Outline) {t : ScopeTree}, o.Nests → Grown index o t → t.Nests
  | .node span parts, _, .mk _ hinside hparts, .mk hrange hsub hchildren => by
    refine .of_grown (fun o ho => ?_) hchildren fun o ho t => ?_
    · have hmem := hsub.subset ho
      rw [hrange]
      exact ⟨hparts o hmem, index.range_encloses (hinside o hmem)⟩
    · have hmem := hsub.subset ho
      exact Grown.nests o (hparts o hmem)

namespace GrownFrom

variable {xs ys : List Outline} {ts us : List ScopeTree}

theorem nil (index : LineIndex) (xs : List Outline) : GrownFrom index xs [] :=
  ⟨[], List.nil_sublist xs, .nil⟩

theorem append (h : GrownFrom index xs ts) (h' : GrownFrom index ys us) :
    GrownFrom index (xs ++ ys) (ts ++ us) := by
  obtain ⟨opened, hsub, hopened⟩ := h
  obtain ⟨opened', hsub', hopened'⟩ := h'
  exact ⟨opened ++ opened', hsub.append hsub', List.rel_append hopened hopened'⟩

end GrownFrom

/-- What becomes of an open scope, besides names that are bound in it: it stays where it
is and gets scopes from regions. -/
structure Frame.Gains (index : LineIndex) (regions : List Outline) (f f' : Frame) : Prop where
  range : f'.scope.range = f.scope.range
  children : ∃ trees, f'.children = f.children ++ trees ∧ GrownFrom index regions trees

namespace Resolver

open ResolverState

variable {α β : Type}

/-- A resolver puts scopes from regions into the innermost one and leaves the scopes around
that one alone, provided that the regions nest and lie within the innermost scope. -/
def Opens (r : Resolver α) (regions : List Outline) : Prop :=
  ∀ ⦃s : ResolverState⦄ ⦃frame outer⦄, s.frames = frame :: outer →
    frame.scope.range.Holds s.index regions →
      ∃ frame', (r.run s).2.frames = frame' :: outer ∧ (r.run s).2.index = s.index ∧
        frame.Gains s.index regions frame'

namespace Opens

variable {r : Resolver α} {f : α → Resolver β} {xs ys : List Outline} {Q : α → Prop}

theorem still (h : ∀ s, (r.run s).2.frames = s.frames ∧ (r.run s).2.index = s.index) :
    Opens r xs := by
  intro s frame outer hframes _
  exact ⟨frame, (h s).1.trans hframes, (h s).2, rfl, [], (List.append_nil _).symm, .nil _ _⟩

theorem remarks (h : Remarks (fun _ => True) r) : Opens r xs := by
  refine still fun s => ?_
  obtain ⟨ds, -, hrun⟩ := h s
  rw [hrun]
  exact ⟨rfl, rfl⟩

theorem done {a : α} : Opens (pure a) xs :=
  still fun _ => ⟨rfl, rfl⟩

/-- Names bound in the innermost scope change neither its range nor what is inside it. -/
theorem modifyFrame {g : ResolverState → Frame → Frame}
    (hg : ∀ s frame, (g s frame).scope.range = frame.scope.range ∧
      (g s frame).children = frame.children) :
    Opens (modify fun s => s.modifyFrame (g s)) xs := by
  intro s frame outer hframes _
  have hrun : s.modifyFrame (g s) = { s with frames := g s frame :: outer } := by
    unfold ResolverState.modifyFrame
    rw [hframes]
  refine ⟨g s frame, congrArg ResolverState.frames hrun,
    (congrArg ResolverState.index hrun).trans rfl, (hg s frame).1, [], ?_, .nil _ _⟩
  rw [(hg s frame).2, List.append_nil]

/-- A sequence whose second part may rely on something about the result of the first. -/
theorem bindOf (hr : Opens r xs) (hQ : ∀ s, Q (r.run s).1) (hf : ∀ a, Q a → Opens (f a) ys) :
    Opens (r >>= f) (xs ++ ys) := by
  intro s frame outer hframes hholds
  obtain ⟨hxs, hys⟩ := Range.Holds.append_iff.mp hholds
  obtain ⟨middle, hmiddle, hindex, hrange, trees, hchildren, hgrown⟩ := hr hframes hxs
  rw [← hrange, ← hindex] at hys
  obtain ⟨last, hlast, hindex', hrange', trees', hchildren', hgrown'⟩ := hf _ (hQ s) hmiddle hys
  rw [hindex] at hindex' hgrown'
  refine ⟨last, hlast, hindex', hrange'.trans hrange, trees ++ trees', ?_, hgrown.append hgrown'⟩
  rw [hchildren', hchildren, List.append_assoc]

theorem bind (hr : Opens r xs) (hf : ∀ a, Opens (f a) ys) : Opens (r >>= f) (xs ++ ys) :=
  hr.bindOf (Q := fun _ => True) (fun _ => trivial) fun a _ => hf a

/-- The first part opens nothing. -/
theorem andThen (hr : Opens r []) (hf : ∀ a, Opens (f a) ys) : Opens (r >>= f) ys :=
  hr.bind hf

/-- The second part opens nothing. -/
theorem finish (hr : Opens r xs) (hf : ∀ a, Opens (f a) []) : Opens (r >>= f) xs := by
  have h := hr.bind hf
  rwa [List.append_nil] at h

theorem map (hr : Opens r xs) (g : α → β) : Opens (g <$> r) xs :=
  hr.finish fun _ => done

/-- Run in a scope that was opened for a region, a resolver makes it one grown from the
region, in the whole range of the region. -/
theorem grows (hr : Opens r xs) {s : ResolverState} {span : Span}
    (hholds : (s.frames.headD s.root).scope.range.Holds s.index [.node span xs]) :
    ∃ inner, (r.run (s.enter span)).2.frames = inner :: s.frames ∧
      (r.run (s.enter span)).2.index = s.index ∧
        Grown s.index (.node span xs) inner.toTree := by
  obtain ⟨hnests, hencloses⟩ := hholds _ (List.mem_singleton_self _)
  cases hnests with
  | mk hordered hinside hparts =>
    have hclip : (s.frames.headD s.root).scope.clip (s.index.range span) = s.index.range span :=
      Scope.clip_eq _ (s.index.range_ordered hordered) hencloses
    have henter : (s.enter span).frames =
        { scope := { range := s.index.range span } } :: s.frames := by
      rw [enter, hclip]
    obtain ⟨inner, hframes, hindex, hrange, trees, hchildren, opened, hsub, hopened⟩ :=
      hr henter fun o ho => ⟨hparts o ho, s.index.range_encloses (hinside o ho)⟩
    rw [List.nil_append] at hchildren
    exact ⟨inner, hframes, hindex, .mk hrange hsub (hchildren ▸ hopened)⟩

/-- A scope of its own becomes part of the scope around it. -/
theorem within {span : Span} (hr : Opens r xs) : Opens (within span r) [.node span xs] := by
  intro s frame outer hframes hholds
  have hholds : (s.frames.headD s.root).scope.range.Holds s.index [.node span xs] := by
    rwa [hframes]
  obtain ⟨inner, hinner, hindex, hgrown⟩ := hr.grows hholds
  rw [hframes] at hinner
  refine ⟨{ frame with children := frame.children ++ [inner.toTree] }, ?_, ?_, rfl,
    [inner.toTree], rfl, [.node span xs], .refl _, .cons hgrown .nil⟩
  · rw [run_within, leave, hinner]
    rfl
  · rw [run_within, leave, hinner]
    exact hindex

theorem mapM {g : α → List Outline} (as : List α) (hf : ∀ a ∈ as, Opens (f a) (g a)) :
    Opens (as.mapM f) (as.flatMap g) := by
  induction as with
  | nil => exact done
  | cons a as ih =>
    obtain ⟨ha, has⟩ := List.forall_mem_cons.mp hf
    rw [List.mapM_cons, List.flatMap_cons]
    exact ha.bind fun b => (ih has).finish fun bs => done

theorem forM (as : List α) {f : α → Resolver Unit} (hf : ∀ a ∈ as, Opens (f a) []) :
    Opens (as.forM f) [] := by
  induction as with
  | nil => exact done
  | cons a as ih =>
    obtain ⟨ha, has⟩ := List.forall_mem_cons.mp hf
    exact ha.andThen fun _ => ih has

end Opens

/-! ### Names -/

variable {xs : List Outline}

theorem bindColumns_opens (table : TableId) :
    Opens (modify fun s => s.bindColumns table) xs := by
  refine Opens.modifyFrame fun s frame => ⟨?_, rfl⟩
  dsimp only
  generalize (s.catalog.table table).columns = columns
  induction columns generalizing frame with
  | nil => rfl
  | cons id columns ih =>
    exact ih { frame with scope := frame.scope.bindColumn (s.catalog.column id).name id }

theorem bindTable_opens (name : String) (table : TableId) :
    Opens (modify fun s => s.bindTable name table) xs := by
  have hname : Opens (modify fun s => s.modifyFrame fun f =>
      { f with scope := f.scope.bindTable name table }) [] := .modifyFrame fun _ _ => ⟨rfl, rfl⟩
  exact hname.andThen fun _ => bindColumns_opens table

theorem bindColumn_opens (name : String) (column : ColumnId) :
    Opens (modify fun s => s.bindColumn name column) xs :=
  .modifyFrame fun _ _ => ⟨rfl, rfl⟩

theorem bindAliases_opens (aliases : List (String × ColumnId)) :
    Opens (modify fun s => aliases.foldl (fun s entry => s.bindColumn entry.1 entry.2) s) [] := by
  induction aliases with
  | nil => exact .still fun _ => ⟨rfl, rfl⟩
  | cons entry aliases ih => exact (bindColumn_opens entry.1 entry.2).andThen fun _ => ih

theorem tableSource_opens (name : Ident) (label : Option Ident) :
    Opens (tableSource name label) xs := by
  refine (Opens.remarks (catalogTable?_remarks name)).andThen fun table? => ?_
  split
  · exact (bindTable_opens _ _).andThen fun _ => .done
  · refine Opens.andThen (.modifyFrame fun _ _ => ?_) fun _ => .done
    exact ⟨rfl, rfl⟩

theorem bindSubquery_opens (label : Option Ident) (table : TableId) :
    Opens (bindSubquery label table) xs := by
  unfold bindSubquery
  split
  · exact bindTable_opens _ _
  · exact bindColumns_opens _

/-! ### Expressions and queries -/

theorem addStar_opens (result : TableId) (hasSource : Bool) (joined : List (String × TableId))
    (span : Span) : Opens (addStar result hasSource joined span) xs := by
  cases hasSource <;> exact .still fun _ => ⟨rfl, rfl⟩

theorem addTableStar_opens (result : TableId) (joined : List (String × TableId)) (name : Ident) :
    Opens (addTableStar result joined name) xs := by
  unfold addTableStar
  split <;> exact .still fun _ => ⟨rfl, rfl⟩

theorem condition_opens {resolved : Resolver Expr} (h : Opens resolved xs) {clause : String}
    (hclause : BeginsOtherwise clause) (span : Span) :
    Opens (condition clause span resolved) [.node span xs] := by
  refine .within (h.finish fun e => ?_)
  exact .remarks ((requireBoolean_remarks hclause e).bind fun _ => .pure _)

mutual

theorem term_opens : (e : Expr) → Opens (term e) e.regions
  | .constant _ _ => by
    rw [term]
    exact .done
  | .name _ ident => by
    rw [term]
    refine .remarks ((scopeColumn?_remarks ident).bind fun column => ?_)
    exact (columnType_remarks column).bind fun type => .pure _
  | .dot note left right => by
    rw [term]
    exact .remarks (dot_remarks trivial)
  | .binary note left op right => by
    rw [term, Expr.regions]
    apply (term_opens left).bind
    intro left
    have hright := term_opens right
    dsimp only
    split
    · cases right with
      | subquery rightNote select =>
        apply (query_opens "subquery" select).finish
        intro result
        refine .remarks ((onlyColumnType_remarks _ (fun count => ?_) _).bind fun type => ?_)
        · exact .append (.append (.append (.literal _ rfl) _) _) _
        · exact (requireMember_remarks _ _ _ _).bind fun _ => .pure _
      | list rightNote items =>
        exact (memberTerms_opens left.type op items).finish fun items => .done
      | _ =>
        apply hright.finish
        intro right
        exact .remarks ((requireMember_remarks _ _ _ _).bind fun _ => .pure _)
    · apply hright.finish
      intro right
      exact .remarks ((binaryType_remarks _ _ _ _).bind fun type => .pure _)
  | .unary note op operand => by
    rw [term]
    apply (term_opens operand).finish
    intro operand
    exact .remarks ((unaryType_remarks _ _ _).bind fun type => .pure _)
  | .call note function args => by
    rw [term]
    apply (terms_opens args).finish
    intro args
    exact .remarks ((callType_remarks _ _ _ _).bind fun type => .pure _)
  | .callStar note function star => by
    rw [term]
    exact .remarks ((callType_remarks _ _ _ _).bind fun type => .pure _)
  | .brackets note inner => by
    rw [term]
    exact (term_opens inner).finish fun inner => .done
  | .list note items => by
    rw [term]
    exact (terms_opens items).finish fun items => .done
  | .subquery note select => by
    rw [term]
    apply (query_opens "subquery" select).finish
    intro result
    refine .remarks ((onlyColumnType_remarks _ (fun count => ?_) _).bind fun type => .pure _)
    exact .append (.literal _ rfl) _

theorem terms_opens : (es : List Expr) → Opens (terms es) (exprRegions es)
  | [] => by
    rw [terms]
    exact .done
  | e :: es => by
    rw [terms, exprRegions]
    apply (term_opens e).bind
    intro e
    exact (terms_opens es).finish fun es => .done

theorem memberTerms_opens (left : Option SqlType) (op : BinaryOperator) :
    (es : List Expr) → Opens (memberTerms left op es) (exprRegions es)
  | [] => by
    rw [memberTerms]
    exact .done
  | e :: es => by
    rw [memberTerms, exprRegions]
    apply (term_opens e).bind
    intro e
    apply (Opens.remarks (requireMember_remarks _ _ _ _)).andThen
    intro _
    exact (memberTerms_opens left op es).finish fun es => .done

theorem source_opens : (s : Source) → Opens (source s) s.regions
  | .table name label _ => by
    rw [source]
    exact tableSource_opens name label
  | .subquery select label span => by
    rw [source]
    apply (query_opens (subqueryName label) select).finish
    intro result
    exact (bindSubquery_opens label _).andThen fun _ => .done

theorem joins_opens : (js : List Join) → Opens (joins js) (joinRegions js)
  | [] => by
    rw [joins]
    exact .done
  | ⟨_, _, table, none, _⟩ :: rest => by
    rw [joins, joinRegions]
    apply (source_opens table).bind
    intro result
    exact (joins_opens rest).finish fun results => .done
  | ⟨_, _, table, some on, _⟩ :: rest => by
    rw [joins, joinRegions]
    apply (source_opens table).bind
    intro result
    apply (condition_opens (term_opens on) (.literal _ rfl) _).bind
    intro on
    exact (joins_opens rest).finish fun results => .done

theorem resultColumns_opens (result : TableId) (hasSource : Bool)
    (joined : List (String × TableId)) : (columns : List ResultColumn) →
      Opens (resultColumns result hasSource joined columns) (columnRegions columns)
  | [] => by
    rw [resultColumns]
    exact .done
  | .star span :: rest => by
    rw [resultColumns, columnRegions]
    apply (addStar_opens _ _ _ _).andThen
    intro _
    exact (resultColumns_opens result hasSource joined rest).finish fun results => .done
  | .tableStar table :: rest => by
    rw [resultColumns, columnRegions]
    apply (addTableStar_opens _ _ _).andThen
    intro _
    exact (resultColumns_opens result hasSource joined rest).finish fun results => .done
  | .expr value label :: rest => by
    rw [resultColumns, columnRegions]
    apply (term_opens value).bind
    intro value
    apply Opens.andThen (r := addResultColumn result value label) (.still fun _ => ⟨rfl, rfl⟩)
    intro entry
    exact (resultColumns_opens result hasSource joined rest).finish fun results => .done

theorem orderingTerms_opens : (items : List OrderingTerm) →
    Opens (orderingTerms items) (termRegions items)
  | [] => by
    rw [orderingTerms]
    exact .done
  | ⟨expr, _, _⟩ :: rest => by
    rw [orderingTerms, termRegions]
    apply (term_opens expr).bind
    intro expr
    exact (orderingTerms_opens rest).finish fun items => .done

theorem sources_opens : (clause : Option FromClause) →
    Opens (sources clause) (sourceRegions clause)
  | none => by
    rw [sources]
    exact .done
  | some ⟨first, others⟩ => by
    rw [sources, sourceRegions]
    apply (source_opens first).bind
    intro result
    exact (joins_opens others).finish fun results => .done

theorem rowCondition_opens : (test : Option Expr) →
    Opens (rowCondition test) (conditionRegions test)
  | none => by
    rw [rowCondition]
    exact .done
  | some e => by
    rw [rowCondition, conditionRegions]
    exact (condition_opens (term_opens e) (.literal _ rfl) _).map some

theorem groups_opens : (clause : Option GroupBy) → Opens (groups clause) (groupRegions clause)
  | none => by
    rw [groups]
    exact .done
  | some ⟨exprs, none, span⟩ => by
    rw [groups, groupRegions]
    exact (terms_opens exprs).bind fun exprs => .done
  | some ⟨exprs, some having, span⟩ => by
    rw [groups, groupRegions]
    apply (terms_opens exprs).bind
    intro exprs
    exact (condition_opens (term_opens having) (.literal _ rfl) _).finish fun having => .done

theorem order_opens (aliases : List (String × ColumnId)) : (clause : Option OrderBy) →
    Opens (order aliases clause) (orderRegions clause)
  | none => by
    rw [order]
    exact .done
  | some ⟨items, span⟩ => by
    rw [order, orderRegions]
    refine .within ((bindAliases_opens aliases).andThen fun _ => ?_)
    exact (orderingTerms_opens items).finish fun items => .done

theorem limits_opens : (clause : Option Limit) → Opens (limits clause) (limitRegions clause)
  | none => by
    rw [limits]
    exact .done
  | some ⟨count, none, span⟩ => by
    rw [limits, limitRegions]
    apply (term_opens count).bind
    intro count
    exact .remarks ((requireInteger_remarks count).bind fun _ => .pure _)
  | some ⟨count, some offset, span⟩ => by
    rw [limits, limitRegions]
    apply (term_opens count).bind
    intro count
    apply (Opens.remarks (requireInteger_remarks count)).andThen
    intro _
    apply (term_opens offset).finish
    intro offset
    exact .remarks ((requireInteger_remarks offset).bind fun _ => .pure _)

theorem query_opens (name : String) : (s : Select) → Opens (query name s) [s.region]
  | ⟨distinct, columns, clause, test, groupBy, orderBy, limit, span, _⟩ => by
    rw [query, Select.region]
    refine .within ?_
    apply (sources_opens clause).bind
    intro sources
    apply Opens.andThen (r := addTable name .derived) (.still fun _ => ⟨rfl, rfl⟩)
    intro result
    apply (resultColumns_opens _ _ _ columns).bind
    intro entries
    apply (rowCondition_opens test).bind
    intro test
    apply (groups_opens groupBy).bind
    intro groupBy
    apply (order_opens _ orderBy).bind
    intro orderBy
    exact (limits_opens limit).finish fun limit => .done

end

end Resolver
end SqlAnalysis
