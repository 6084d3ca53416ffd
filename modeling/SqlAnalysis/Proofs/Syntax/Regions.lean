import SqlAnalysis.Proofs.Syntax.Outlines

/-!
# Regions of names

The parts of a statement in which names are bound apart from what is around: the
statement, each query, each condition, each order of rows and all the rows of an
insertion. Where the spans of a statement nest, those of its regions do.
-/
namespace SqlAnalysis

/-! ### Nested spans -/

/-- Whether every span of an outline encloses those inside it. -/
inductive Outline.Nests : Outline → Prop
  | mk {s : Span} {os : List Outline} :
      s.start ≤ s.stop → (∀ o ∈ os, s.Encloses o.span) → (∀ o ∈ os, Nests o) → Nests (.node s os)

theorem Outline.Nests.ordered {o : Outline} : o.Nests → o.span.start ≤ o.span.stop
  | .mk hordered _ _ => hordered

theorem Outline.Nests.of_isPlaced {ts : List Token} :
    ∀ o : Outline, (∀ x ∈ o.all, x.IsPlaced ts) → o.Nests
  | .node s os, h => by
    have hself := h _ List.mem_cons_self
    have hmem : ∀ o ∈ os, ∀ x ∈ o.all, x ∈ (Outline.node s os).all := fun o ho x hx =>
      List.mem_cons_of_mem _ (Outline.mem_allOfList.mpr ⟨o, ho, hx⟩)
    exact .mk hself.ordered (fun o ho => hself.encloses o (hmem o ho o o.self_mem_all))
      fun o ho => of_isPlaced o fun x hx => h x (hmem o ho x hx)

/-- Whether outlines nest and lie within a span. -/
def Within (outer : Span) (os : List Outline) : Prop :=
  ∀ o ∈ os, outer.Encloses o.span ∧ o.Nests

namespace Within

variable {outer inner s : Span} {os ps : List Outline} {o : Outline}

theorem nil (outer : Span) : Within outer [] :=
  fun _ h => absurd h List.not_mem_nil

theorem append_iff : Within outer (os ++ ps) ↔ Within outer os ∧ Within outer ps :=
  List.forall_mem_append

theorem cons_iff : Within outer (o :: os) ↔ Within outer [o] ∧ Within outer os := by
  rw [← List.singleton_append, append_iff]

theorem mono (h : Within inner os) (houter : outer.Encloses inner) : Within outer os :=
  fun o ho => ⟨houter.trans (h o ho).1, (h o ho).2⟩

theorem ordered (h : Within outer [.node s os]) : s.start ≤ s.stop := by
  cases (h _ (List.mem_singleton_self _)).2 with
  | mk hs _ _ => exact hs

theorem encloses (h : Within outer [.node s os]) : outer.Encloses s :=
  (h _ (List.mem_singleton_self _)).1

/-- What an outline is made of lies within its span. -/
theorem parts (h : Within outer [.node s os]) : Within s os := by
  cases (h _ (List.mem_singleton_self _)).2 with
  | mk _ hos hnests => exact fun o ho => ⟨hos o ho, hnests o ho⟩

theorem node (h : outer.Encloses s) (hs : s.start ≤ s.stop) (hos : Within s os) :
    Within outer [.node s os] := by
  intro o ho
  obtain rfl := List.mem_singleton.mp ho
  exact ⟨h, .mk hs (fun o ho => (hos o ho).1) fun o ho => (hos o ho).2⟩

/-- What is made of what lies within an outline lies there too. -/
theorem renode (h : Within outer [.node s os]) (hps : Within s os → Within s ps) :
    Within outer [.node s ps] :=
  node h.encloses h.ordered (hps h.parts)

theorem inside (h : Within outer [.node s os]) : Within outer os :=
  h.parts.mono h.encloses

end Within

/-! ### Regions of queries -/

mutual

/-- The outermost regions in an expression. -/
def Expr.regions : Expr → List Outline
  | .constant _ _ | .name _ _ | .dot _ _ _ | .callStar _ _ _ => []
  | .binary _ left _ right => left.regions ++ right.regions
  | .unary _ _ operand => operand.regions
  | .call _ _ args => exprRegions args
  | .brackets _ inner => inner.regions
  | .list _ items => exprRegions items
  | .subquery _ select => [select.region]

def exprRegions : List Expr → List Outline
  | [] => []
  | e :: es => e.regions ++ exprRegions es

def columnRegions : List ResultColumn → List Outline
  | [] => []
  | .expr value _ :: columns => value.regions ++ columnRegions columns
  | .star _ :: columns | .tableStar _ :: columns => columnRegions columns

def Source.regions : Source → List Outline
  | .table _ _ _ => []
  | .subquery select _ _ => [select.region]

def conditionRegions : Option Expr → List Outline
  | none => []
  | some e => [.node e.span e.regions]

def joinRegions : List Join → List Outline
  | [] => []
  | ⟨_, _, source, on, _⟩ :: joins =>
    source.regions ++ (conditionRegions on ++ joinRegions joins)

def termRegions : List OrderingTerm → List Outline
  | [] => []
  | ⟨expr, _, _⟩ :: terms => expr.regions ++ termRegions terms

def sourceRegions : Option FromClause → List Outline
  | none => []
  | some ⟨first, joins⟩ => first.regions ++ joinRegions joins

def groupRegions : Option GroupBy → List Outline
  | none => []
  | some ⟨exprs, having, _⟩ => exprRegions exprs ++ conditionRegions having

def orderRegions : Option OrderBy → List Outline
  | none => []
  | some ⟨terms, span⟩ => [.node span (termRegions terms)]

def offsetRegions : Option Expr → List Outline
  | none => []
  | some e => e.regions

def limitRegions : Option Limit → List Outline
  | none => []
  | some ⟨count, offset, _⟩ => count.regions ++ offsetRegions offset

/-- The region of a query, with those inside it in the order in which they are resolved. -/
def Select.region : Select → Outline
  | ⟨_, columns, source, condition, groupBy, orderBy, limit, span, _⟩ =>
    .node span (sourceRegions source ++ (columnRegions columns ++ (conditionRegions condition ++
      (groupRegions groupBy ++ (orderRegions orderBy ++ limitRegions limit)))))

end

/-! ### Regions of statements -/

/-- The rows of an insertion are one region, from the first to the last. -/
def rowsRegions : List ValueRow → List Outline
  | [] => []
  | first :: rest =>
    [.node (rest.foldl (fun span row => span.merge row.span) first.span)
      ((first :: rest).flatMap fun row => exprRegions row.values)]

def ColumnRule.regions : ColumnRule → List Outline
  | .default value => value.regions
  | .check condition => conditionRegions (some condition)
  | .notNull | .null | .primaryKey _ _ | .unique | .references _ | .collate _ => []

def constraintRegions (constraints : List ColumnConstraint) : List Outline :=
  constraints.flatMap fun c => c.rule.regions

def TableRule.regions : TableRule → List Outline
  | .check condition => conditionRegions (some condition)
  | .primaryKey _ | .unique _ | .foreignKey _ _ => []

def AlterAction.regions : AlterAction → List Outline
  | .addColumn definition => constraintRegions definition.constraints
  | .dropColumn _ | .renameColumn _ _ | .renameTo _ => []

def StatementBody.regions : StatementBody → List Outline
  | .select s => [s.region]
  | .insert i => rowsRegions i.rows
  | .update u => (u.assignments.flatMap fun a => a.value.regions) ++ conditionRegions u.condition
  | .delete d => conditionRegions d.condition
  | .createTable t =>
    (t.columns.flatMap fun d => constraintRegions d.constraints) ++
      t.constraints.flatMap fun c => c.rule.regions
  | .alterTable t => t.action.regions
  | .dropTable _ => []

def Statement.region (s : Statement) : Outline :=
  .node s.span s.body.regions

/-! ### Regions lie within outlines -/

mutual

theorem Expr.regions_within {outer : Span} :
    (e : Expr) → Within outer [e.outline] → Within outer e.regions
  | .constant _ _, _ | .name _ _, _ | .dot _ _ _, _ | .callStar _ _ _, _ => .nil outer
  | .binary _ left _ right, h => by
    obtain ⟨hleft, hright⟩ := Within.cons_iff.mp h.inside
    exact Within.append_iff.mpr ⟨left.regions_within hleft, right.regions_within hright⟩
  | .unary _ _ operand, h => operand.regions_within h.inside
  | .call _ _ args, h => exprRegions_within args (Within.cons_iff.mp h.inside).2
  | .brackets _ inner, h => inner.regions_within h.inside
  | .list _ items, h => exprRegions_within items h.inside
  | .subquery _ select, h => select.region_within h.inside

theorem exprRegions_within {outer : Span} :
    (es : List Expr) → Within outer (exprOutlines es) → Within outer (exprRegions es)
  | [], _ => .nil outer
  | e :: es, h => by
    obtain ⟨he, hes⟩ := Within.cons_iff.mp h
    exact Within.append_iff.mpr ⟨e.regions_within he, exprRegions_within es hes⟩

theorem columnRegions_within {outer : Span} :
    (columns : List ResultColumn) → Within outer (columnOutlines columns) →
      Within outer (columnRegions columns)
  | [], _ => .nil outer
  | .expr value label :: columns, h => by
    obtain ⟨hvalue, hrest⟩ := Within.cons_iff.mp h
    exact Within.append_iff.mpr ⟨value.regions_within hvalue,
      columnRegions_within columns (Within.append_iff.mp hrest).2⟩
  | .star _ :: columns, h => columnRegions_within columns (Within.cons_iff.mp h).2
  | .tableStar _ :: columns, h => columnRegions_within columns (Within.cons_iff.mp h).2

theorem Source.regions_within {outer : Span} :
    (source : Source) → Within outer source.outlines → Within outer source.regions
  | .table _ _ _, _ => .nil outer
  | .subquery select _ _, h => select.region_within (Within.cons_iff.mp h).1.inside

theorem conditionRegions_within {outer : Span} :
    (o : Option Expr) → Within outer (optionOutlines o) → Within outer (conditionRegions o)
  | none, _ => .nil outer
  | some e, h => by
    rw [optionOutlines, ← e.outline.eta, e.span_outline] at h
    refine h.renode fun hparts => ?_
    have hself : Within e.span [e.outline] := by
      rw [← e.outline.eta, e.span_outline]
      exact .node ⟨Nat.le_refl _, Nat.le_refl _⟩ h.ordered hparts
    exact e.regions_within hself

theorem joinRegions_within {outer : Span} :
    (joins : List Join) → Within outer (joinOutlines joins) → Within outer (joinRegions joins)
  | [], _ => .nil outer
  | ⟨_, _, source, on, _⟩ :: joins, h => by
    obtain ⟨hjoin, hjoins⟩ := Within.cons_iff.mp h
    obtain ⟨hsource, hon⟩ := Within.append_iff.mp hjoin.inside
    exact Within.append_iff.mpr ⟨source.regions_within hsource, Within.append_iff.mpr
      ⟨conditionRegions_within on hon, joinRegions_within joins hjoins⟩⟩

theorem termRegions_within {outer : Span} :
    (terms : List OrderingTerm) → Within outer (termOutlines terms) →
      Within outer (termRegions terms)
  | [], _ => .nil outer
  | ⟨expr, _, _⟩ :: terms, h => by
    obtain ⟨hexpr, hterms⟩ := Within.cons_iff.mp h
    exact Within.append_iff.mpr ⟨expr.regions_within hexpr, termRegions_within terms hterms⟩

theorem sourceRegions_within {outer : Span} :
    (clause : Option FromClause) → Within outer (sourceOutlines clause) →
      Within outer (sourceRegions clause)
  | none, _ => .nil outer
  | some ⟨first, joins⟩, h => by
    obtain ⟨hfirst, hjoins⟩ := Within.append_iff.mp h
    exact Within.append_iff.mpr ⟨first.regions_within hfirst, joinRegions_within joins hjoins⟩

theorem groupRegions_within {outer : Span} :
    (clause : Option GroupBy) → Within outer (groupOutlines clause) →
      Within outer (groupRegions clause)
  | none, _ => .nil outer
  | some ⟨exprs, having, _⟩, h => by
    obtain ⟨hexprs, hhaving⟩ := Within.append_iff.mp h.inside
    exact Within.append_iff.mpr
      ⟨exprRegions_within exprs hexprs, conditionRegions_within having hhaving⟩

theorem orderRegions_within {outer : Span} :
    (clause : Option OrderBy) → Within outer (orderOutlines clause) →
      Within outer (orderRegions clause)
  | none, _ => .nil outer
  | some ⟨terms, _⟩, h => h.renode (termRegions_within terms)

theorem offsetRegions_within {outer : Span} :
    (offset : Option Expr) → Within outer (optionOutlines offset) →
      Within outer (offsetRegions offset)
  | none, _ => .nil outer
  | some e, h => e.regions_within h

theorem limitRegions_within {outer : Span} :
    (clause : Option Limit) → Within outer (limitOutlines clause) →
      Within outer (limitRegions clause)
  | none, _ => .nil outer
  | some ⟨count, offset, _⟩, h => by
    obtain ⟨hcount, hoffset⟩ := Within.cons_iff.mp h.inside
    exact Within.append_iff.mpr
      ⟨count.regions_within hcount, offsetRegions_within offset hoffset⟩

theorem Select.region_within {outer : Span} :
    (s : Select) → Within outer [s.outline] → Within outer [s.region]
  | ⟨_, columns, source, condition, groupBy, orderBy, limit, _, _⟩, h => by
    refine h.renode fun hparts => ?_
    simp only [Within.append_iff] at hparts ⊢
    obtain ⟨⟨⟨⟨⟨hcolumns, hsource⟩, hcondition⟩, hgroupBy⟩, horderBy⟩, hlimit⟩ := hparts
    exact ⟨sourceRegions_within source hsource, columnRegions_within columns hcolumns,
      conditionRegions_within condition hcondition, groupRegions_within groupBy hgroupBy,
      orderRegions_within orderBy horderBy, limitRegions_within limit hlimit⟩

end

variable {outer : Span}

/-- The regions of parts lie where the outlines of the parts do. -/
theorem flatMap_within {α : Type} {as : List α} {f g : α → List Outline}
    (hfg : ∀ a, Within outer (f a) → Within outer (g a)) (h : Within outer (as.flatMap f)) :
    Within outer (as.flatMap g) := by
  intro o ho
  obtain ⟨a, ha, ho⟩ := List.mem_flatMap.mp ho
  exact hfg a (fun p hp => h p (List.mem_flatMap.mpr ⟨a, ha, hp⟩)) o ho

/-- The span of all rows encloses each of them, and lies where all of them do. -/
theorem merged_encloses (rest : List ValueRow) : ∀ start : Span,
    (∀ s, s = start ∨ s ∈ rest.map ValueRow.span →
      (rest.foldl (fun span row => span.merge row.span) start).Encloses s) ∧
    (outer.Encloses start → (∀ row ∈ rest, outer.Encloses row.span) →
      outer.Encloses (rest.foldl (fun span row => span.merge row.span) start)) := by
  induction rest with
  | nil => exact fun start => ⟨by simp [Span.Encloses], fun h _ => h⟩
  | cons row rest ih =>
    intro start
    obtain ⟨hall, hin⟩ := ih (start.merge row.span)
    have hmerge : (start.merge row.span).Encloses start ∧
        (start.merge row.span).Encloses row.span := by
      simp only [Span.Encloses, Span.merge]
      omega
    constructor
    · intro s hs
      have hmerged := hall _ (.inl rfl)
      simp only [List.map_cons, List.mem_cons] at hs
      rcases hs with rfl | rfl | hs
      · exact hmerged.trans hmerge.1
      · exact hmerged.trans hmerge.2
      · exact hall s (.inr hs)
    · intro hstart hrest
      obtain ⟨hrow, hrest⟩ := List.forall_mem_cons.mp hrest
      refine hin ?_ hrest
      simp only [Span.Encloses, Span.merge] at *
      omega

theorem rowsRegions_within (rows : List ValueRow) (h : Within outer (rows.map ValueRow.outline)) :
    Within outer (rowsRegions rows) := by
  cases rows with
  | nil => exact .nil outer
  | cons first rest =>
    obtain ⟨hall, hin⟩ := @merged_encloses outer rest first.span
    have hrow : ∀ row ∈ first :: rest, Within outer [row.outline] := fun row hmem o ho =>
      h o (List.mem_singleton.mp ho ▸ List.mem_map_of_mem hmem)
    have hfirst := hrow first List.mem_cons_self
    refine .node (hin hfirst.encloses fun row hmem => ?_) ?_ ?_
    · exact (hrow row (List.mem_cons_of_mem _ hmem)).encloses
    · have hself := hall first.span (.inl rfl)
      exact Nat.le_trans hself.1 (Nat.le_trans hfirst.ordered hself.2)
    · intro o ho
      obtain ⟨row, hmem, ho⟩ := List.mem_flatMap.mp ho
      refine (exprRegions_within row.values ?_) o ho
      refine (hrow row hmem).parts.mono (hall row.span ?_)
      rcases List.mem_cons.mp hmem with rfl | hmem
      · exact .inl rfl
      · exact .inr (List.mem_map_of_mem hmem)

theorem ColumnRule.regions_within (rule : ColumnRule) (h : Within outer rule.outlines) :
    Within outer rule.regions := by
  cases rule with
  | default value => exact value.regions_within h
  | check condition => exact conditionRegions_within (some condition) h
  | _ => exact .nil outer

theorem constraintRegions_within (constraints : List ColumnConstraint)
    (h : Within outer (constraints.map ColumnConstraint.outline)) :
    Within outer (constraintRegions constraints) := by
  rw [List.map_eq_flatMap] at h
  refine flatMap_within (fun c hc => c.rule.regions_within ?_) h
  exact (Within.append_iff.mp (Within.inside hc)).2

theorem ColumnDef.regions_within (d : ColumnDef) (h : Within outer [d.outline]) :
    Within outer (constraintRegions d.constraints) :=
  constraintRegions_within d.constraints
    (Within.append_iff.mp (Within.cons_iff.mp (Within.inside h)).2).2

theorem TableRule.regions_within (rule : TableRule) (h : Within outer rule.outlines) :
    Within outer rule.regions := by
  cases rule with
  | check condition => exact conditionRegions_within (some condition) h
  | _ => exact .nil outer

theorem AlterAction.regions_within (action : AlterAction) (h : Within outer action.outlines) :
    Within outer action.regions := by
  cases action with
  | addColumn d => exact d.regions_within h
  | _ => exact .nil outer

theorem StatementBody.regions_within (body : StatementBody) (h : Within outer body.outlines) :
    Within outer body.regions := by
  cases body with
  | select s => exact s.region_within h
  | insert i =>
    exact rowsRegions_within i.rows (Within.append_iff.mp (Within.cons_iff.mp h).2).2
  | update u =>
    obtain ⟨hassign, hcondition⟩ := Within.append_iff.mp (Within.cons_iff.mp h).2
    refine Within.append_iff.mpr ⟨?_, conditionRegions_within u.condition hcondition⟩
    exact flatMap_within (fun a ha => a.value.regions_within (Within.cons_iff.mp ha).2) hassign
  | delete d => exact conditionRegions_within d.condition (Within.cons_iff.mp h).2
  | createTable t =>
    obtain ⟨hcolumns, hconstraints⟩ := Within.append_iff.mp (Within.cons_iff.mp h).2
    rw [List.map_eq_flatMap] at hcolumns hconstraints
    refine Within.append_iff.mpr ⟨flatMap_within (fun d => d.regions_within) hcolumns, ?_⟩
    refine flatMap_within (fun c hc => c.rule.regions_within ?_) hconstraints
    exact (Within.append_iff.mp (Within.inside hc)).2
  | alterTable t => exact t.action.regions_within (Within.cons_iff.mp h).2
  | dropTable d => exact .nil outer

theorem Statement.region_within (s : Statement) (h : Within outer [s.outline]) :
    Within outer [s.region] :=
  Within.renode h s.body.regions_within

end SqlAnalysis
