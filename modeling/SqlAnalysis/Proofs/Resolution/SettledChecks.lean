import SqlAnalysis.Proofs.Resolution.SettledTypes
import SqlAnalysis.Proofs.Resolution.StatementScopes
import SqlAnalysis.Proofs.Syntax.Checks

/-!
# Checks that nothing is said about

A check in the definition of a table may be known to be a truth value. Then nothing is said
about it: without it the catalog and the complaints are the same, and with `TRUE` in its place
the scopes are too.
-/
namespace SqlAnalysis

/-- The constant that stands where an expression stands. -/
def Expr.trueAt (span : Span) : Expr :=
  .constant { span := span } (.boolean true)

namespace Resolver

open ResolverState

variable {α β γ δ : Type} {look : ResolverState → ResolverState} {K : ResolverState → Prop}
  {name : String} {t : SqlType}

/-! ### Resolvers that end in states that look the same -/

/-- Whether no resolver tells states apart that look the same. -/
structure Blurs (look : ResolverState → ResolverState) : Prop where
  run : ∀ {α : Type} {r : Resolver α}, Orderly r → ∀ s s', s.frames ≠ [] → look s' = look s →
    look (r.run s').2 = look (r.run s).2
  leave : ∀ s s', look s' = look s → look s'.leave = look s.leave

theorem blurs_id : Blurs id :=
  ⟨fun _ _ _ _ h => by rw [id, id] at h; rw [h], fun _ _ h => congrArg ResolverState.leave h⟩

theorem blurs_forgetLeft : Blurs forgetLeft where
  run hr s s' hs h := by
    have hs' : s'.frames ≠ [] := fun hnil =>
      forgetLeft_ne_nil hs (h ▸ by rw [forgetLeft, hnil, List.map_nil])
    rw [← (hr s hs).forgetLeft, ← (hr s' hs').forgetLeft, h]
  leave s s' h := by rw [← s.forgetLeft_leave, ← s'.forgetLeft_leave, h]

/-- From states that look the same, the first one of some kind, two resolvers end in states that
look the same. The first one is again of the kind, and its result is as stated. -/
def Agrees (look : ResolverState → ResolverState) (K : ResolverState → Prop) (r : Resolver α)
    (r' : Resolver β) (R : α → Prop) : Prop :=
  ∀ s s', K s → look s' = look s →
    R (r.run s).1 ∧ look (r'.run s').2 = look (r.run s).2 ∧ K (r.run s).2

namespace Agrees

variable {r : Resolver α} {r' : Resolver β} {R : α → Prop} {S : γ → Prop}

theorem pure {a : α} {b : β} (h : R a) : Agrees look K (pure a) (pure b) R :=
  fun _ _ hs hlook => ⟨h, hlook, hs⟩

theorem bind {f : α → Resolver γ} {g : β → Resolver δ} (h : Agrees look K r r' R)
    (hfg : ∀ a b, R a → Agrees look K (f a) (g b) S) : Agrees look K (r >>= f) (r' >>= g) S := by
  intro s s' hs hlook
  obtain ⟨hresult, hstate, hkept⟩ := h s s' hs hlook
  rw [run_bind, run_bind]
  exact hfg _ _ hresult _ _ hkept hstate

/-- The same is made of both results, if the second is not left out. -/
theorem wrap {ε ζ : Type} {edited : Option β} {inner : β → Resolver δ} {put : β → ε}
    {outer : ε → Resolver ζ} {f : α → γ} {g : δ → ζ} (h : Agrees look K r (edited.mapM inner) R)
    (houter : ∀ b, outer (put b) = inner b >>= fun d => Pure.pure (g d))
    (hf : ∀ a, R a → S (f a)) :
    Agrees look K (r >>= fun a => Pure.pure (f a)) ((edited.map put).mapM outer) S := by
  have hedited : (edited.map put).mapM outer =
      edited.mapM inner >>= fun d => Pure.pure (d.map g) := by
    cases edited with
    | none => rfl
    | some b => exact congrArg (some <$> ·) (houter b)
  rw [hedited]
  exact h.bind fun a _ ha => .pure (hf a ha)

/-- The second resolver goes through a list from which some entries may be left out. -/
theorem mapM {f : α → Resolver γ} {g : β → Resolver δ} {edit : α → Option β} {as : List α}
    {T : α → γ → Prop} (h : ∀ a ∈ as, Agrees look K (f a) ((edit a).mapM g) (T a)) :
    Agrees look K (as.mapM f) ((as.filterMap edit).mapM g) fun cs => List.Forall₂ T as cs := by
  induction as with
  | nil => exact .pure .nil
  | cons a as ih =>
    obtain ⟨hfirst, hrest⟩ := List.forall_mem_cons.mp h
    have hpair : Agrees look K (f a >>= fun c => as.mapM f >>= fun cs => Pure.pure (c :: cs))
        ((edit a).mapM g >>= fun d => (as.filterMap edit).mapM g >>= fun ds =>
          Pure.pure (d.toList ++ ds)) fun cs => List.Forall₂ T (a :: as) cs :=
      hfirst.bind fun c _ hc => (ih hrest).bind fun cs _ hcs => .pure (.cons hc hcs)
    rw [List.mapM_cons, List.filterMap_cons]
    cases hedit : edit a with
    | none => rwa [hedit] at hpair
    | some b =>
      dsimp only
      rw [hedit] at hpair
      rwa [List.mapM_cons]

end Agrees

/-! ### Checks -/

/-- A condition that has the type of a truth value is resolved without a complaint. -/
theorem condition_run_of_types {P : ResolverState → Prop} {e : Expr}
    (h : Types P e (some (SqlType.plain .boolean))) (clause : String) (span : Span)
    {s : ResolverState} (hs : P (s.enter span)) :
    ∃ e', (condition clause span (term e)).run s = (e', (s.enter span).leave) ∧
      e'.type = some (SqlType.plain .boolean) := by
  obtain ⟨e', hrun, htype⟩ := h _ hs
  refine ⟨e', ?_, htype⟩
  have hboolean : (requireBoolean clause e').run (s.enter span) = ((), s.enter span) := by
    rw [requireBoolean, htype]
    rfl
  rw [condition, run_within, run_bind, hrun, run_bind, hboolean]
  rfl

/-- What has the skeleton of a model is resolved to a truth value. -/
def SettledLike (model e e' : Expr) : Prop :=
  e.skeleton = model.skeleton → e'.type = some (SqlType.plain .boolean)

/-- An expression stays as it is, unless it has the skeleton of a model. Then `TRUE` may stand in
its place, and nothing may where a scope that was left does not count. -/
def TrustsIn (look : ResolverState → ResolverState) (model : Expr) (f : Expr → Option Expr)
    (e : Expr) : Prop :=
  f e = some e ∨ e.skeleton = model.skeleton ∧ (f e = some (.trueAt e.span) ∨
    f e = none ∧ ∀ s : ResolverState, look (s.enter e.span).leave = look s)

/-- Where a scope is open, the name stands for a column of the type. -/
def Knows (name : String) (t : SqlType) (s : ResolverState) : Prop :=
  s.frames ≠ [] ∧ s.Means name t

theorem Knows.of_run {s : ResolverState} {r : Resolver α} {Q : Catalog → α → Prop}
    (h : Knows name t s) (hr : Orderly r) (hsteady : Steady r)
    (hevolves : Evolves .all (fun _ => True) r Q) : Knows name t (r.run s).2 :=
  ⟨(hr s h.1).keeps.isOpen, h.2.of_run hsteady hevolves⟩

section

variable {model : Expr} {f : Expr → Option Expr} (hblurs : Blurs look)
  (hmodel : Settles (Sees name t) model (some (SqlType.plain .boolean)))

include hblurs

/-- What stays as it is ends alike. -/
theorem agrees_of_orderly {r : Resolver α} {R : α → Prop} (hr : Orderly r)
    (hkept : ∀ s, Knows name t s → Knows name t (r.run s).2) (hresult : ∀ s, R (r.run s).1) :
    Agrees look (Knows name t) r (some <$> r) R :=
  fun s s' hs hlook => ⟨hresult _, hblurs.run hr s s' hs.1 hlook, hkept s hs⟩

include hmodel

theorem condition_agrees {e : Expr} (hcleared : e.cleared = e) (hf : TrustsIn look model f e) :
    Agrees look (Knows name t) (condition "CHECK" e.span (term e))
      ((f e).mapM fun e => condition "CHECK" e.span (term e)) (SettledLike model e) := by
  intro s s' hs hlook
  have horderly (e : Expr) : Orderly (condition "CHECK" e.span (term e)) :=
    condition_orderly (term_orderly e) "CHECK" e.span
  have hkept : Knows name t ((condition "CHECK" e.span (term e)).run s).2 :=
    hs.of_run (horderly e) (condition_steady "CHECK" e)
      (condition_evolves (term_evolves e) "CHECK" e.span)
  have hsettled (h : e.skeleton = model.skeleton) :=
    condition_run_of_types (hmodel e hcleared h) "CHECK" e.span (hs.2.sees_enter e.span)
  refine ⟨fun h => ?_, ?_, hkept⟩
  · obtain ⟨e', hrun, htype⟩ := hsettled h
    rwa [hrun]
  · rcases hf with hf | ⟨h, hf | ⟨hf, hleave⟩⟩
    · rw [hf]
      exact hblurs.run (horderly e) s s' hs.1 hlook
    · obtain ⟨e', hrun, -⟩ := hsettled h
      have htrue : Types (Sees name t) (.trueAt e.span) (some (SqlType.plain .boolean)) :=
        .constant (.boolean true)
      obtain ⟨e'', hrun', -⟩ := condition_run_of_types htrue "CHECK" e.span (hs.2.sees_enter e.span)
      have hlook' := hblurs.run (horderly (.trueAt e.span)) s s' hs.1 hlook
      rw [show (Expr.trueAt e.span).span = e.span from rfl, hrun'] at hlook'
      rw [hf, hrun]
      exact hlook'
    · obtain ⟨e', hrun, -⟩ := hsettled h
      rw [hf, hrun, hleave]
      exact hlook

theorem columnRule_agrees (ident : Ident) (column : ColumnId) {rule : ColumnRule}
    (hcleared : ∀ e ∈ rule.checks, e.cleared = e)
    (hf : ∀ e ∈ rule.checks, TrustsIn look model f e) :
    Agrees look (Knows name t) (columnRule ident column rule)
      ((rule.editCheck? f).mapM (columnRule ident column))
        fun rule' => List.Forall₂ (SettledLike model) rule.checks rule'.checks := by
  have hkept (s : ResolverState) (hs : Knows name t s) :
      Knows name t ((columnRule ident column rule).run s).2 :=
    hs.of_run (columnRule_orderly ident column rule) (columnRule_steady ident column rule)
      (columnRule_evolves ident (fun _ _ => trivial) rule)
  cases rule with
  | check e =>
    have hcondition := condition_agrees hblurs hmodel (hcleared e (List.mem_singleton_self e))
      (hf e (List.mem_singleton_self e))
    exact hcondition.wrap (fun _ => rfl) fun e' he => .cons he .nil
  | _ => exact agrees_of_orderly hblurs (columnRule_orderly ident column _) hkept fun _ => .nil

theorem tableRule_agrees (table : TableId) {rule : TableRule}
    (hcleared : ∀ e ∈ rule.checks, e.cleared = e)
    (hf : ∀ e ∈ rule.checks, TrustsIn look model f e) :
    Agrees look (Knows name t) (tableRule table rule) ((rule.editCheck? f).mapM (tableRule table))
      fun rule' => List.Forall₂ (SettledLike model) rule.checks rule'.checks := by
  have hkept (s : ResolverState) (hs : Knows name t s) :
      Knows name t ((tableRule table rule).run s).2 :=
    hs.of_run (tableRule_orderly table rule) (tableRule_steady table rule)
      (tableRule_evolves trivial rule)
  cases rule with
  | check e =>
    have hcondition := condition_agrees hblurs hmodel (hcleared e (List.mem_singleton_self e))
      (hf e (List.mem_singleton_self e))
    exact hcondition.wrap (fun _ => rfl) fun e' he => .cons he .nil
  | _ => exact agrees_of_orderly hblurs (tableRule_orderly table _) hkept fun _ => .nil

theorem columnRules_agrees {d : ColumnDef} (hbound : d.binding ≠ none)
    (hcleared : ∀ e ∈ d.checks, e.cleared = e) (hf : ∀ e ∈ d.checks, TrustsIn look model f e) :
    Agrees look (Knows name t) (columnRules d) (columnRules (d.editChecks f))
      fun d' => List.Forall₂ (SettledLike model) d.checks d'.checks := by
  obtain ⟨column, hcolumn⟩ := Option.ne_none_iff_exists'.mp hbound
  have hcolumn' : (d.editChecks f).binding = some column := hcolumn
  unfold columnRules
  rw [hcolumn, hcolumn']
  refine Agrees.bind (.mapM (T := fun c c' => List.Forall₂ (SettledLike model) c.rule.checks
    c'.rule.checks) fun c hc => ?_) fun cs _ hcs => .pure (List.rel_flatMap hcs fun _ _ h => h)
  have hrule {e : Expr} (he : e ∈ c.rule.checks) : e ∈ d.checks :=
    List.mem_flatMap.mpr ⟨c, hc, he⟩
  have hagrees := columnRule_agrees hblurs hmodel d.name column
    (fun e he => hcleared e (hrule he)) fun e he => hf e (hrule he)
  exact hagrees.wrap (g := fun rule => { c with rule := rule }) (fun _ => rfl) fun _ h => h

end

/-! ### Definitions with other checks -/

theorem applyRules_editChecks (f : Expr → Option Expr) (constraints : List ColumnConstraint) :
    ∀ column, (constraints.filterMap (ColumnConstraint.editCheck? f)).foldl
        (fun column c => applyRule column c.rule) column =
      constraints.foldl (fun column c => applyRule column c.rule) column := by
  induction constraints with
  | nil => exact fun _ => rfl
  | cons c constraints ih =>
    intro column
    obtain ⟨constraintName, rule, span⟩ := c
    cases rule with
    | check e =>
      rw [List.filterMap_cons, ColumnConstraint.editCheck?, ColumnRule.editCheck?]
      cases f e <;> exact ih column
    | _ => exact ih _

/-- A column is added without a look at its checks. -/
theorem defineColumn_editChecks (f : Expr → Option Expr) (table : TableId) (d : ColumnDef)
    (s : ResolverState) :
    (defineColumn table (d.editChecks f)).run s =
      ((((defineColumn table d).run s).1.1.editChecks f, ((defineColumn table d).run s).1.2),
        ((defineColumn table d).run s).2) := by
  have hcolumn (column : Column) :
      (d.editChecks f).constraints.foldl (fun column c => applyRule column c.rule) column =
        d.constraints.foldl (fun column c => applyRule column c.rule) column :=
    applyRules_editChecks f d.constraints column
  unfold defineColumn
  simp only [hcolumn]
  rfl

theorem defineColumns_editChecks (f : Expr → Option Expr) (table : TableId)
    (ds : List ColumnDef) :
    ∀ seen s, (defineColumns table seen (ds.map (.editChecks f))).run s =
      (((defineColumns table seen ds).run s).1.map (.editChecks f),
        ((defineColumns table seen ds).run s).2) := by
  induction ds with
  | nil => exact fun _ _ => rfl
  | cons d ds ih =>
    intro seen s
    rw [List.map_cons, defineColumns, defineColumns,
      show (d.editChecks f).name = d.name from rfl]
    dsimp only
    split
    · rw [run_bind, run_bind, run_bind, run_bind, ih]
      rfl
    · rw [run_bind, run_bind, run_bind, run_bind, defineColumn_editChecks, ih]
      rfl

/-- No column is left out where all have different names. -/
theorem defineColumns_bound (table : TableId) (ds : List ColumnDef) :
    ∀ seen s, (ds.map fun d => Text.foldCase d.name.name).Nodup →
      (∀ d ∈ ds, Text.foldCase d.name.name ∉ seen) →
      ∀ d ∈ ((defineColumns table seen ds).run s).1, d.binding ≠ none := by
  induction ds with
  | nil => exact fun _ _ _ _ d hd => absurd hd List.not_mem_nil
  | cons first ds ih =>
    intro seen s hnodup hseen
    obtain ⟨hfirst, hnodup⟩ := List.nodup_cons.mp hnodup
    obtain ⟨hnew, hseen⟩ := List.forall_mem_cons.mp hseen
    rw [defineColumns]
    dsimp only
    rw [if_neg (by simpa using hnew), run_bind, run_bind]
    refine List.forall_mem_cons.mpr ⟨Option.some_ne_none _, ih _ _ hnodup fun d hd => ?_⟩
    refine List.not_mem_cons_of_ne_of_not_mem (fun heq => hfirst ?_) (hseen d hd)
    exact List.mem_map.mpr ⟨d, hd, heq⟩

/-- Keys are marked without a look at the checks. -/
theorem markPrimaryKeys_editChecks (f : Expr → Option Expr) (table : TableId)
    (constraints : List TableConstraint) :
    ((constraints.filterMap (TableConstraint.editCheck? f)).forM fun c =>
        markPrimaryKey table c.rule) =
      constraints.forM fun c => markPrimaryKey table c.rule := by
  induction constraints with
  | nil => rfl
  | cons c constraints ih =>
    obtain ⟨constraintName, rule, span⟩ := c
    cases rule with
    | check e =>
      rw [List.filterMap_cons, TableConstraint.editCheck?, TableRule.editCheck?]
      cases f e with
      | none => exact ih
      | some e' => exact congrArg (fun rest => pure () >>= fun _ => rest) ih
    | _ => exact congrArg (fun rest => markPrimaryKey table _ >>= fun _ => rest) ih

theorem startTable_editChecks (f : Expr → Option Expr) (t : CreateTable) (s : ResolverState) :
    (startTable (t.editChecks f)).run s =
      ((((startTable t).run s).1.1, ((startTable t).run s).1.2.map (.editChecks f)),
        ((startTable t).run s).2) := by
  unfold startTable
  simp only [CreateTable.editChecks, markPrimaryKeys_editChecks, run_bind, defineColumns_editChecks]
  rfl

theorem startTable_orderly (t : CreateTable) : Orderly (startTable t) :=
  (addTable_orderly _ _).bind fun table => (defineColumns_orderly table _ _).bind fun _ =>
    (forM_orderly (fun c : TableConstraint => markPrimaryKey_orderly table c.rule) _).bind fun _ =>
      (Orderly.bindTable _ table).bind fun _ => .pure _

theorem startTable_columns (t : CreateTable) (s : ResolverState)
    (hnodup : (t.columns.map fun d => Text.foldCase d.name.name).Nodup) :
    (((startTable t).run s).1.2.map ColumnDef.constraints = t.columns.map ColumnDef.constraints) ∧
      ∀ d ∈ ((startTable t).run s).1.2, d.binding ≠ none :=
  ⟨defineColumns_constraints _ t.columns _ _,
    defineColumns_bound _ t.columns [] _ hnodup fun _ _ => List.not_mem_nil⟩

/-! ### Tables -/

section

variable {model : Expr} {f : Expr → Option Expr} {table : CreateTable} (hblurs : Blurs look)
  (hmodel : Settles (Sees name t) model (some (SqlType.plain .boolean)))

include hblurs hmodel

theorem finishTable_agrees {started : TableId × List ColumnDef}
    (hconstraints : started.2.map ColumnDef.constraints = table.columns.map ColumnDef.constraints)
    (hbound : ∀ d ∈ started.2, d.binding ≠ none) (hcleared : ∀ e ∈ table.checks, e.cleared = e)
    (hf : ∀ e ∈ table.checks, TrustsIn look model f e) :
    Agrees look (Knows name t) (finishTable table started)
      (finishTable (table.editChecks f) (started.1, started.2.map (.editChecks f)))
        fun table' => List.Forall₂ (SettledLike model) table.checks table'.checks := by
  have hchecks : started.2.flatMap ColumnDef.checks = table.columns.flatMap ColumnDef.checks := by
    have hflat (ds : List ColumnDef) : ds.flatMap ColumnDef.checks =
        (ds.map ColumnDef.constraints).flatMap fun cs => cs.flatMap fun c => c.rule.checks := by
      rw [List.flatMap_map]
      rfl
    rw [hflat, hflat, hconstraints]
  have hcolumn {d : ColumnDef} (hd : d ∈ started.2) {e : Expr} (he : e ∈ d.checks) :
      e ∈ table.checks :=
    List.mem_append_left _ (hchecks ▸ List.mem_flatMap.mpr ⟨d, hd, he⟩)
  have hrule {c : TableConstraint} (hc : c ∈ table.constraints) {e : Expr}
      (he : e ∈ c.rule.checks) : e ∈ table.checks :=
    List.mem_append_right _ (List.mem_flatMap.mpr ⟨c, hc, he⟩)
  unfold finishTable
  rw [← List.filterMap_eq_map]
  refine Agrees.bind (.mapM (T := fun d d' => List.Forall₂ (SettledLike model) d.checks d'.checks)
    fun d hd => ?_) fun ds _ hds => ?_
  · exact columnRules_agrees hblurs hmodel (hbound d hd) (fun e he => hcleared e (hcolumn hd he))
      fun e he => hf e (hcolumn hd he)
  refine Agrees.bind (.mapM (T := fun c c' => List.Forall₂ (SettledLike model) c.rule.checks
    c'.rule.checks) fun c hc => ?_) fun cs _ hcs => .pure ?_
  · have hagrees := tableRule_agrees hblurs hmodel started.1
      (fun e he => hcleared e (hrule hc he)) fun e he => hf e (hrule hc he)
    exact hagrees.wrap (g := fun rule => { c with rule := rule }) (fun _ => rfl) fun _ h => h
  · rw [CreateTable.checks, ← hchecks]
    exact List.rel_append (List.rel_flatMap hds fun _ _ h => h)
      (List.rel_flatMap hcs fun _ _ h => h)

/-- Where the name of a column stands for it, checks that are known to be truth values are
resolved to truth values, and without them the statement ends alike. -/
theorem statement_agrees {s : ResolverState} (hs : s.catalog.Indexed) {statement : Statement}
    (hbody : statement.body = .createTable table)
    (hfree : s.catalog.findTables table.name.name = [])
    (hnodup : (table.columns.map fun d => Text.foldCase d.name.name).Nodup) {d : ColumnDef}
    (hd : d ∈ table.columns) (hname : d.name.isNamed name = true)
    (htype : d.writtenType? = some t) (hcleared : ∀ e ∈ table.checks, e.cleared = e)
    (hf : ∀ e ∈ table.checks, TrustsIn look model f e) :
    (∃ table', ((Resolver.statement statement).run s).1.body = .createTable table' ∧
      List.Forall₂ (SettledLike model) table.checks table'.checks) ∧
    look ((Resolver.statement { statement with
        body := .createTable (table.editChecks f) }).run s).2 =
      look ((Resolver.statement statement).run s).2 := by
  obtain ⟨body, span, comment⟩ := statement
  obtain rfl : body = .createTable table := hbody
  have hrun (table : CreateTable) : (Resolver.statement ⟨.createTable table, span, comment⟩).run s =
      (⟨.createTable ((createTable table).run (s.enter span)).1, span, comment⟩,
        ((createTable table).run (s.enter span)).2.leave) := rfl
  have hmeans : ((startTable table).run (s.enter span)).2.Means name t :=
    (startTable_means (s := s.enter span) hs (fun _ => rfl) hnodup hd htype).congr
      ((Text.sameName_iff _ _).mp hname).symm
  have hstarted : Knows name t ((startTable table).run (s.enter span)).2 :=
    ⟨(startTable_orderly table _ (List.cons_ne_nil _ _)).keeps.isOpen, hmeans⟩
  obtain ⟨hcolumns, hbound⟩ := startTable_columns table (s.enter span) hnodup
  obtain ⟨hresult, hstate, -⟩ :=
    finishTable_agrees hblurs hmodel hcolumns hbound hcleared hf _ _ hstarted rfl
  have hfree' : (s.enter span).catalog.findTables table.name.name = [] := hfree
  rw [hrun, hrun, createTable_startTable table hfree',
    createTable_startTable (table.editChecks f) hfree', run_bind, run_bind, startTable_editChecks]
  exact ⟨⟨_, rfl, hresult⟩, hblurs.leave _ _ hstate⟩

end

end Resolver
end SqlAnalysis
