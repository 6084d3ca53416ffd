import SqlAnalysis.Proofs.Resolution.Batches
import SqlAnalysis.Proofs.Resolution.BoundQueries

/-!
# Names in accepted statements

A statement that is resolved without an error has its target and all of its names
bound. The only one that is left as it was written is the creation of a table that
exists already and may do so.
-/
namespace SqlAnalysis

namespace Resolver

open ResolverState

variable {α β : Type} {P : Catalog → Prop}

/-! ### Lists -/

theorem mapM_delivers_of {f : α → Resolver β} {S : Catalog → α → Prop}
    {R : Catalog → β → Prop}
    (hf : ∀ (P : Catalog → Prop) a, (∀ c, P c → S c a) → Delivers P (f a) R) (as : List α) :
    ∀ P : Catalog → Prop, (∀ c, P c → ∀ a ∈ as, S c a) →
      Delivers P (as.mapM f) fun c bs => ∀ b ∈ bs, R c b := by
  induction as with
  | nil => exact fun P _ => .pure fun _ _ _ hb => absurd hb List.not_mem_nil
  | cons a as ih =>
    intro P hP
    rw [List.mapM_cons]
    apply (hf P a fun c hc => hP c hc a List.mem_cons_self).bind
    intro b
    apply (ih _ fun c h a ha => hP c h.1 a (List.mem_cons_of_mem _ ha)).bind
    intro bs
    exact .pure fun c h => List.forall_mem_cons.mpr ⟨h.1.2, h.2⟩

theorem mapM_delivers {f : α → Resolver β} {R : Catalog → β → Prop}
    (hf : ∀ (P : Catalog → Prop) a, Delivers P (f a) R) (as : List α) (P : Catalog → Prop) :
    Delivers P (as.mapM f) fun c bs => ∀ b ∈ bs, R c b :=
  mapM_delivers_of (S := fun _ _ => True) (fun P a _ => hf P a) as P fun _ _ _ _ => trivial

theorem forM_delivers {f : α → Resolver Unit}
    (hf : ∀ (P : Catalog → Prop) a, Delivers P (f a) fun _ _ => True) (as : List α) :
    ∀ P : Catalog → Prop, Delivers P (as.forM f) fun _ _ => True := by
  induction as with
  | nil => exact fun P => .pure fun _ _ => trivial
  | cons a as ih => exact fun P => (hf P a).bind fun _ => ih _

/-! ### Rows -/

theorem requireStorable_delivers (value : Expr) (column : ColumnId) :
    Delivers P (requireStorable value column) fun _ _ => True := by
  apply Delivers.catalog.bind
  intro before
  dsimp only
  split
  · exact .pure fun _ _ => trivial
  · split
    · split
      · exact .complain _ _
      · exact .pure fun _ _ => trivial
    · split
      · split
        · exact .complain _ _
        · exact .pure fun _ _ => trivial
      · exact .pure fun _ _ => trivial

theorem target?_delivers (name : Ident) : Delivers P (target? name) TableBound := by
  apply (catalogTable?_delivers name).bind
  intro found
  split
  · next table =>
    refine .bind (.bindTable _ ?_) fun _ => .pure fun c h => h.1.2
    rintro c ⟨-, id, hid, hhas⟩
    exact Option.some.inj hid ▸ hhas
  · exact .pure fun c h => h.2

theorem requireUnlisted_delivers (seen : List String) (ident : Ident) :
    Delivers P (requireUnlisted seen ident) fun _ _ => True := by
  unfold requireUnlisted
  split
  · exact .complain _ _
  · exact .pure fun _ _ => trivial

theorem listedColumns_delivers (table : TableId) (idents : List Ident) :
    ∀ (P : Catalog → Prop) seen, Delivers P (listedColumns table seen idents) fun c result =>
      ∀ id ∈ result.1, c.HasColumn id := by
  induction idents with
  | nil => exact fun P seen => .pure fun _ _ _ hid => absurd hid List.not_mem_nil
  | cons ident idents ih =>
    intro P seen
    rw [listedColumns]
    apply (requireUnlisted_delivers seen ident).bind
    intro _
    apply (tableColumn?_delivers table ident).bind
    intro column
    apply (ih _ _).bind
    intro rest
    refine .pure fun c h => ?_
    obtain ⟨⟨-, id, rfl, hhas⟩, hrest⟩ := h
    exact List.forall_mem_cons.mpr ⟨hhas, hrest⟩

theorem storedTerms_delivers (es : List Expr) :
    ∀ (P : Catalog → Prop) columns, Delivers P (storedTerms columns es) ExprsBound := by
  induction es with
  | nil =>
    intro P columns
    cases columns <;> exact .pure fun _ _ => by rw [ExprsBound]; trivial
  | cons e es ih =>
    intro P columns
    cases columns with
    | nil =>
      rw [storedTerms]
      apply (term_delivers e).bind
      intro e
      apply (ih _ []).bind
      intro es
      exact .pure fun c h => by rw [ExprsBound]; exact ⟨h.1.2, h.2⟩
    | cons column columns =>
      rw [storedTerms]
      apply (term_delivers e).bind
      intro e
      apply (requireStorable_delivers e column).bind
      intro _
      apply (ih _ columns).bind
      intro es
      exact .pure fun c h => by rw [ExprsBound]; exact ⟨h.1.1.2, h.2⟩

theorem requireLength_delivers (targets : List ColumnId) (row : ValueRow) :
    Delivers P (requireLength targets row) fun _ _ => True := by
  unfold requireLength
  split
  · exact .complain _ _
  · exact .pure fun _ _ => trivial

theorem valueRow_delivers (targets : List ColumnId) (complete : Bool) (row : ValueRow) :
    Delivers P (valueRow targets complete row) ValueRow.Bound := by
  unfold valueRow
  split
  · apply (requireLength_delivers targets row).bind
    intro _
    apply (storedTerms_delivers row.values _ targets).bind
    intro values
    exact .pure fun c h => h.2
  · apply (storedTerms_delivers row.values _ []).bind
    intro values
    exact .pure fun c h => h.2

theorem insertTargets_delivers (table : TableId) (columns : List Ident) :
    Delivers P (insertTargets table columns) fun c result =>
      ∀ id ∈ result.1, c.HasColumn id := by
  unfold insertTargets
  split
  · apply Delivers.catalog.bind
    intro before
    exact .pure fun c h id hid => (h.2.1.hasColumn_of_table hid).mono h.2.2
  · exact listedColumns_delivers table columns P []

theorem insertRows_delivers (targets : List ColumnId) (complete : Bool) (rows : List ValueRow) :
    Delivers P (insertRows targets complete rows) fun c rows => ∀ row ∈ rows, row.Bound c := by
  cases rows with
  | nil => exact .pure fun _ _ _ hrow => absurd hrow List.not_mem_nil
  | cons first rest =>
    exact .within (mapM_delivers (fun _ => valueRow_delivers targets complete) _ P) _

theorem insert_delivers (s : Insert) : Delivers P (insert s) Insert.Bound := by
  apply (target?_delivers s.table).bind
  intro found
  split
  · refine .pure fun c h => ?_
    obtain ⟨-, id, hnone, -⟩ := h
    exact nomatch hnone
  · apply (insertTargets_delivers _ s.columns).bind
    intro targets
    apply (insertRows_delivers _ _ s.rows).bind
    intro rows
    refine .pure fun c h => ?_
    obtain ⟨⟨⟨-, htable⟩, htargets⟩, hrows⟩ := h
    exact ⟨htable, htargets, hrows⟩

theorem assignment_delivers (table : TableId) (a : Assignment) :
    Delivers P (assignment table a) Assignment.Bound := by
  apply (tableColumn?_delivers table a.column).bind
  intro column
  apply (term_delivers a.value).bind
  intro value
  split
  · apply (requireStorable_delivers _ _).bind
    intro _
    exact .pure fun c h => ⟨h.1.1.2, h.1.2⟩
  · exact .pure fun c h => ⟨h.1.2, h.2⟩

theorem update_delivers (s : Update) : Delivers P (update s) Update.Bound := by
  apply (target?_delivers s.table).bind
  intro found
  split
  · refine .pure fun c h => ?_
    obtain ⟨-, id, hnone, -⟩ := h
    exact nomatch hnone
  · apply (mapM_delivers (fun _ => assignment_delivers _) s.assignments _).bind
    intro assignments
    apply (rowCondition_delivers s.condition).bind
    intro condition
    refine .pure fun c h => ?_
    obtain ⟨⟨⟨-, htable⟩, hassignments⟩, hcondition⟩ := h
    exact ⟨htable, hassignments, hcondition⟩

theorem delete_delivers (s : Delete) : Delivers P (delete s) Delete.Bound := by
  apply (target?_delivers s.table).bind
  intro found
  split
  · refine .pure fun c h => ?_
    obtain ⟨-, id, hnone, -⟩ := h
    exact nomatch hnone
  · apply (rowCondition_delivers s.condition).bind
    intro condition
    exact .pure fun c h => ⟨h.1.2, h.2⟩

/-! ### Tables -/

theorem declaredType?_delivers (typeName : Option TypeName) :
    Delivers P (declaredType? typeName) fun _ _ => True := by
  unfold declaredType?
  split
  · exact .pure fun _ _ => trivial
  · split
    · exact .pure fun _ _ => trivial
    · exact .refuse fun _ => rfl

/-- The definition keeps its rules and is bound to the column that is added. -/
theorem defineColumn_delivers (table : TableId) (d : ColumnDef) :
    Delivers P (defineColumn table d) fun c result =>
      result.1.binding = some result.2 ∧ c.HasColumn result.2 := by
  apply (declaredType?_delivers d.typeName).bind
  intro type
  apply (addColumn_delivers table _).bind
  intro id
  exact .pure fun c h => ⟨rfl, h.2⟩

theorem keyTargets?_delivers (table : TableId) (clause : ForeignKeyClause) :
    Delivers P (keyTargets? table clause) fun _ _ => True := by
  unfold keyTargets?
  split
  · apply Delivers.catalog.bind
    intro before
    split
    · exact .pure fun _ _ => trivial
    · exact .refuse fun _ => rfl
  · refine (mapM_delivers (R := fun _ _ => True) (fun P ident => ?_) _ _).bind fun targets =>
      .pure fun _ _ => trivial
    exact (tableColumn?_delivers table ident).bind fun column => .pure fun _ _ => trivial

theorem requireKey_delivers (referenced : Column) (place : Span) :
    Delivers P (requireKey referenced place) fun _ _ => True := by
  unfold requireKey
  split
  · exact .complain _ _
  · exact .pure fun _ _ => trivial

theorem requireReferable_delivers (name : Ident) (column referenced : Column) :
    Delivers P (requireReferable name column referenced) fun _ _ => True := by
  unfold requireReferable
  split
  · split
    · exact .complain _ _
    · exact .pure fun _ _ => trivial
  · exact .pure fun _ _ => trivial

theorem linkColumn_delivers (source : Ident × Option ColumnId)
    (target : Option ColumnId × Span) : Delivers P (linkColumn source target) fun _ _ => True := by
  unfold linkColumn
  split
  · apply Delivers.catalog.bind
    intro before
    apply (requireKey_delivers _ _).bind
    intro _
    apply (requireReferable_delivers _ _ _).bind
    intro _
    exact .modifyCatalog fun c _ => Catalog.extends_modifyColumn c _ _
  · exact .pure fun _ _ => trivial

theorem foreignKey_delivers (sources : List (Ident × Option ColumnId))
    (clause : ForeignKeyClause) : Delivers P (foreignKey sources clause) fun _ _ => True := by
  apply (catalogTable?_delivers clause.table).bind
  intro found
  split
  · apply (keyTargets?_delivers _ clause).bind
    intro targets?
    split
    · split
      · exact .complain _ _
      · refine forM_delivers ?_ _ _
        rintro P ⟨source, target⟩
        exact linkColumn_delivers source target
    · exact .pure fun _ _ => trivial
  · exact .pure fun _ _ => trivial

theorem columnRule_delivers (name : Ident) (column : ColumnId) (rule : ColumnRule) :
    Delivers P (columnRule name column rule) ColumnRule.Bound := by
  cases rule with
  | default value =>
    apply (term_delivers value).bind
    intro value
    apply (requireStorable_delivers value column).bind
    intro _
    exact .pure fun c h => h.1.2
  | check e =>
    apply (condition_delivers (term_delivers e) _ _).bind
    intro e
    exact .pure fun c h => h.2
  | references clause =>
    apply (foreignKey_delivers _ clause).bind
    intro _
    exact .pure fun _ _ => trivial
  | _ => exact .pure fun _ _ => trivial

theorem columnRules_delivers {d : ColumnDef} (hd : ∀ c, P c → ColumnBound c d.binding) :
    Delivers P (columnRules d) ColumnDef.Bound := by
  unfold columnRules
  split
  · next hnone =>
    refine .pure fun c hc => ?_
    obtain ⟨id, hid, -⟩ := hd c hc
    rw [hnone] at hid
    exact nomatch hid
  · next column hcolumn =>
    have hrules : ∀ (P : Catalog → Prop) (k : ColumnConstraint),
        Delivers P (do return { k with rule := ← columnRule d.name column k.rule })
          fun c k => k.rule.Bound c := fun P k =>
      (columnRule_delivers d.name column k.rule).bind fun rule => .pure fun c h => h.2
    apply (mapM_delivers hrules d.constraints P).bind
    intro constraints
    exact .pure fun c h => ⟨hd c h.1, h.2⟩

/-- All columns are added, for a name that is listed twice is an error. -/
theorem defineColumns_delivers (table : TableId) (ds : List ColumnDef) :
    ∀ (P : Catalog → Prop) seen, Delivers P (defineColumns table seen ds) fun c ds =>
      ∀ d ∈ ds, ColumnBound c d.binding := by
  induction ds with
  | nil => exact fun P seen => .pure fun _ _ _ hd => absurd hd List.not_mem_nil
  | cons d ds ih =>
    intro P seen
    rw [defineColumns]
    dsimp only
    split
    · apply (Delivers.error (fun _ => rfl) (Q := fun _ _ => False)).bind
      intro _
      apply (ih _ seen).bind
      intro ds
      exact .pure fun c h => h.1.2.elim
    · apply (defineColumn_delivers table d).bind
      intro result
      apply (ih _ _).bind
      intro ds
      refine .pure fun c h => ?_
      obtain ⟨⟨-, hbinding, hhas⟩, hds⟩ := h
      exact List.forall_mem_cons.mpr ⟨⟨_, hbinding, hhas⟩, hds⟩

theorem markPrimaryKey_delivers (table : TableId) (rule : TableRule) :
    Delivers P (markPrimaryKey table rule) fun _ _ => True := by
  unfold markPrimaryKey
  split
  · refine forM_delivers (fun P ident => ?_) _ P
    apply (tableColumn?_delivers table ident).bind
    intro column
    split
    · exact .modifyCatalog fun c _ => Catalog.extends_modifyColumn c _ _
    · exact .pure fun _ _ => trivial
  · exact .pure fun _ _ => trivial

theorem tableRule_delivers (table : TableId) (rule : TableRule) :
    Delivers P (tableRule table rule) TableRule.Bound := by
  cases rule with
  | primaryKey columns => exact .pure fun _ _ => trivial
  | unique columns =>
    refine (forM_delivers (fun P ident => ?_) columns P).bind fun _ => .pure fun _ _ => trivial
    exact (tableColumn?_delivers table ident).bind fun column => .pure fun _ _ => trivial
  | check e =>
    apply (condition_delivers (term_delivers e) _ _).bind
    intro e
    exact .pure fun c h => h.2
  | foreignKey columns clause =>
    refine (mapM_delivers (R := fun _ _ => True) (fun P ident => ?_) columns P).bind
      fun sources => ?_
    · exact (tableColumn?_delivers table ident).bind fun column => .pure fun _ _ => trivial
    · exact (foreignKey_delivers sources clause).bind fun _ => .pure fun _ _ => trivial

theorem run_catalog_ite {p : Catalog → Prop} [DecidablePred p] {f g : Catalog → Resolver α}
    {s : ResolverState} (h : ¬ p s.catalog) :
    (catalog >>= fun c => if p c then f c else g c).run s = (g s.catalog).run s := by
  show (if p s.catalog then f s.catalog else g s.catalog).run s = _
  rw [if_neg h]

/-- A table that does not exist yet is created with all that belongs to it. -/
theorem createTable_run_of_fresh (t : CreateTable) {s : ResolverState} (hopen : s.frames ≠ [])
    (hs : s.Fine) (hfresh : s.catalog.findTables t.name.name = []) :
    ((createTable t).run s).2.Failed ∨ Done s CreateTable.Bound ((createTable t).run s) := by
  unfold createTable
  rw [run_catalog_ite (by simp [hfresh])]
  refine Delivers.run (P := fun _ => True) ?_ s hopen hs fun _ _ => trivial
  apply (addTable_delivers _ _).bind
  intro table
  apply (defineColumns_delivers table t.columns _ []).bind
  intro columns
  apply (forM_delivers (fun P (k : TableConstraint) => markPrimaryKey_delivers table k.rule)
    t.constraints _).bind
  intro _
  apply (Delivers.bindTable _ fun c h => h.1.1.2).bind
  intro _
  apply (mapM_delivers_of (fun P d hd => columnRules_delivers hd) columns _
    fun c h => h.1.1.2).bind
  intro columns
  have hrules : ∀ (P : Catalog → Prop) (k : TableConstraint),
      Delivers P (do return { k with rule := ← tableRule table k.rule })
        fun c k => k.rule.Bound c := fun P k =>
    (tableRule_delivers table k.rule).bind fun rule => .pure fun c h => h.2
  apply (mapM_delivers hrules t.constraints _).bind
  intro constraints
  refine .pure fun c h => ?_
  obtain ⟨⟨⟨⟨⟨⟨-, htable⟩, -⟩, -⟩, -⟩, hcolumns⟩, hconstraints⟩ := h
  exact ⟨⟨table, rfl, htable⟩, hcolumns, hconstraints⟩

theorem alterAction_delivers {table : TableId} (htable : ∀ c, P c → c.HasTable table)
    (action : AlterAction) : Delivers P (alterAction table action) AlterAction.Bound := by
  cases action with
  | addColumn d =>
    apply Delivers.catalog.bind
    intro before
    split
    · exact .refuse fun _ => rfl
    · apply (defineColumn_delivers table d).bind
      intro result
      apply (Delivers.bindColumn _ fun c h => h.2.2).bind
      intro _
      apply (columnRules_delivers fun c h => ⟨_, h.1.2⟩).bind
      intro d
      exact .pure fun c h => h.2
  | dropColumn ident =>
    apply (tableColumn?_delivers table ident).bind
    intro column
    split
    · exact (Delivers.modifyCatalog fun c _ => Catalog.extends_removeColumn c _).bind fun _ =>
        .pure fun _ _ => trivial
    · exact .pure fun _ _ => trivial
  | renameColumn ident newName =>
    apply (tableColumn?_delivers table ident).bind
    intro column
    split
    · apply Delivers.catalog.bind
      intro before
      split
      · exact .refuse fun _ => rfl
      · exact (Delivers.modifyCatalog fun c _ => Catalog.extends_modifyColumn c _ _).bind
          fun _ => .pure fun _ _ => trivial
    · exact .pure fun _ _ => trivial
  | renameTo newName =>
    apply Delivers.catalog.bind
    intro before
    split
    · exact .refuse fun _ => rfl
    · exact (Delivers.modifyCatalog fun c h =>
        Catalog.extends_renameTable (htable c h.1) _).bind fun _ => .pure fun _ _ => trivial

theorem alterTable_delivers (s : AlterTable) : Delivers P (alterTable s) AlterTable.Bound := by
  apply (target?_delivers s.table).bind
  intro found
  split
  · refine .pure fun c h => ?_
    obtain ⟨-, id, hnone, -⟩ := h
    exact nomatch hnone
  · next table =>
    refine (alterAction_delivers ?_ s.action).bind fun action => .pure fun c h => ⟨h.1.2, h.2⟩
    rintro c ⟨-, id, hid, hhas⟩
    exact Option.some.inj hid ▸ hhas

theorem dropTable_delivers (s : DropTable) : Delivers P (dropTable s) fun _ _ => True := by
  apply Delivers.catalog.bind
  intro before
  split
  · exact .pure fun _ _ => trivial
  · apply (catalogTable?_delivers s.table).bind
    intro found
    split
    · exact .pure fun _ _ => trivial
    · exact (Delivers.modifyCatalog fun c _ => Catalog.extends_dropTable c _).bind fun _ =>
        .pure fun _ _ => trivial

end Resolver

/-! ### Batches -/

/-- Whether the statement creates a table only if there is none, and there is one. -/
def Statement.IsRedundant (c : Catalog) (s : Statement) : Prop :=
  ∃ t, s.body = .createTable t ∧ t.ifNotExists = true ∧ c.findTables t.name.name ≠ []

namespace Resolver

open ResolverState

theorem createTable_run (t : CreateTable) {s : ResolverState} (hopen : s.frames ≠ [])
    (hs : s.Fine) :
    ((createTable t).run s).2.Failed ∨
      Done s (fun c resolved => (t.ifNotExists = true ∧ s.catalog.findTables t.name.name ≠ []) ∨
        resolved.Bound c) ((createTable t).run s) := by
  by_cases hfresh : s.catalog.findTables t.name.name = []
  · rcases createTable_run_of_fresh t hopen hs hfresh with hfailed | hdone
    · exact .inl hfailed
    · exact .inr ⟨hdone.fine, hdone.grows, fun c hc => .inr (hdone.good c hc)⟩
  · -- The branch for a table that exists: an error unless the statement allows for it.
    have hrefused : (createTable t).run s = (do
        if !t.ifNotExists then
          error s!"table {t.name.name} already exists" t.name.span
        return t : Resolver CreateTable).run s := by
      show (if (!(s.catalog.findTables t.name.name).isEmpty) = true then _ else _ :
        Resolver CreateTable).run s = _
      rw [if_pos (by simp [hfresh])]
    rw [hrefused]
    cases hallowed : t.ifNotExists with
    | true => exact .inr ⟨hs, .refl _, fun _ _ => .inl ⟨rfl, hfresh⟩⟩
    | false =>
      have hrefuse : Delivers (fun _ => True) (do
          error s!"table {t.name.name} already exists" t.name.span
          return t) fun _ _ => False := .refuse fun _ => rfl
      rcases hrefuse.run s hopen hs fun _ _ => trivial with hfailed | hdone
      · exact .inl hfailed
      · exact (hdone.good _ (.refl _)).elim

theorem statementBody_run (statement : Statement) {s : ResolverState} (hopen : s.frames ≠ [])
    (hs : s.Fine) :
    ((statementBody statement.body).run s).2.Failed ∨
      Done s (fun c body => statement.IsRedundant s.catalog ∨ body.Bound c)
        ((statementBody statement.body).run s) := by
  have hdelivers : ∀ {r : Resolver StatementBody},
      Delivers (fun _ => True) r StatementBody.Bound → (r.run s).2.Failed ∨
        Done s (fun c body => statement.IsRedundant s.catalog ∨ body.Bound c) (r.run s) :=
    fun hr => (hr.weaken (fun _ h => h) fun _ _ h => .inr h).run s hopen hs fun _ _ => trivial
  cases hbody : statement.body with
  | select b =>
    exact hdelivers ((query_delivers "result" b).bind fun result => .pure fun c h => h.2.1)
  | insert b => exact hdelivers ((insert_delivers b).bind fun b => .pure fun c h => h.2)
  | update b => exact hdelivers ((update_delivers b).bind fun b => .pure fun c h => h.2)
  | delete b => exact hdelivers ((delete_delivers b).bind fun b => .pure fun c h => h.2)
  | createTable t =>
    rcases createTable_run t hopen hs with hfailed | hdone
    · exact .inl hfailed
    · refine .inr ⟨hdone.fine, hdone.grows, fun c hc => ?_⟩
      rcases hdone.good c hc with hexists | hbound
      · exact .inl ⟨t, hbody, hexists⟩
      · exact .inr hbound
  | alterTable b => exact hdelivers ((alterTable_delivers b).bind fun b => .pure fun c h => h.2)
  | dropTable b =>
    exact hdelivers ((dropTable_delivers b).bind fun b => .pure fun _ _ => trivial)

theorem statement_run (statement : Statement) {s : ResolverState} (hs : s.Fine) :
    ((Resolver.statement statement).run s).2.Failed ∨
      Done s (fun c resolved => statement.IsRedundant s.catalog ∨ resolved.Bound c)
        ((Resolver.statement statement).run s) := by
  apply run_within_done
  rcases statementBody_run statement (List.cons_ne_nil _ _) (hs.enter statement.span) with
    hfailed | hdone
  · exact .inl hfailed
  · exact .inr ⟨hdone.fine, hdone.grows, hdone.good⟩

/-- The catalog of a batch before the statement with a number. -/
def catalogBefore (statements : List Statement) (s : ResolverState) (i : Nat) : Catalog :=
  (((statements.take i).mapM Resolver.statement).run s).2.catalog

theorem statements_run (statements : List Statement) :
    ∀ {s : ResolverState}, s.frames = [] → s.Fine →
      ((statements.mapM Resolver.statement).run s).2.Failed ∨
        Done s (fun c (resolved : List Statement) => ∀ (i : Nat) (statement : Statement),
          statements[i]? = some statement → ∃ result : Statement, resolved[i]? = some result ∧
            (statement.IsRedundant (catalogBefore statements s i) ∨ result.Bound c))
          ((statements.mapM Resolver.statement).run s) := by
  induction statements with
  | nil => exact fun _ hs => .inr ⟨hs, .refl _, by simp⟩
  | cons first rest ih =>
    intro s hframes hs
    obtain ⟨hsettled, -⟩ := statement_settles first hframes
    rw [run_statements_cons]
    rcases statement_run first hs with hfailed | hdone
    · exact .inl (statements_failed rest hsettled.frames hfailed)
    · rcases ih hsettled.frames hdone.fine with hfailed | hdone'
      · exact .inl hfailed
      · refine .inr ⟨hdone'.fine, hdone.grows.trans hdone'.grows, fun c hc i statement hi => ?_⟩
        cases i with
        | zero =>
          obtain rfl : first = statement := by simpa using hi
          exact ⟨_, rfl, hdone.good c (hdone'.grows.trans hc)⟩
        | succ i =>
          obtain ⟨result, hresult, hbound⟩ := hdone'.good c hc i statement (by simpa using hi)
          refine ⟨result, by simpa using hresult, ?_⟩
          unfold catalogBefore at hbound ⊢
          rw [List.take_succ_cons, List.mapM_cons]
          exact hbound

end Resolver

namespace Resolution

/-- In a batch that is accepted every name is bound to a table or column of the final
catalog. Only a table that is not created because it exists keeps its names unbound. -/
theorem ofStatements_bound (descriptors : List TableDescriptor) (index : LineIndex)
    (statements : List Statement) (window : Nat)
    (haccepted : ∀ d ∈ ((ofStatements index (.ofDescriptors descriptors) statements).sink
      window).items, d.isError = false) :
    ∀ (i : Nat) (statement : Statement), statements[i]? = some statement →
      ∃ resolved : Statement,
        (ofStatements index (.ofDescriptors descriptors) statements).statements[i]? =
          some resolved ∧
        (statement.IsRedundant
            (ofStatements index (.ofDescriptors descriptors) (statements.take i)).catalog ∨
          resolved.Bound (ofStatements index (.ofDescriptors descriptors) statements).catalog) := by
  have hfine := ResolverState.start_fine index (Catalog.closed_ofDescriptors descriptors)
  rcases Resolver.statements_run statements rfl hfine with ⟨d, hd, herror⟩ | hdone
  · have hany : (ofStatements index (.ofDescriptors descriptors) statements).raised.any
        Diagnostic.isError = true := List.any_eq_true.mpr ⟨d, hd, herror⟩
    rw [← Sink.hasErrors_ofList window] at hany
    obtain ⟨shown, hshown, hshownError⟩ := List.any_eq_true.mp hany
    have hno := haccepted shown hshown
    rw [hshownError] at hno
    exact nomatch hno
  · exact hdone.good _ (.refl _)

/-- `SELECT a FROM t`, where the schema has a table `t` with a column `a`. -/
theorem ofStatements_bound_select :
    let descriptors : List TableDescriptor :=
      [⟨"t", none, [⟨"a", "integer", false, none, false⟩], [], none⟩]
    let a : Expr := .name ⟨⟨7, 8⟩, none, none⟩ ⟨"a", false, ⟨7, 8⟩⟩
    let t : Source := .table ⟨"t", false, ⟨14, 15⟩⟩ none none
    let select : Statement := ⟨.select ⟨false, [.expr a none], some ⟨t, []⟩, none, none, none, none,
      ⟨0, 15⟩, none⟩, ⟨0, 15⟩, none⟩
    let r := ofStatements ⟨[], 15⟩ (.ofDescriptors descriptors) [select]
    (∀ d ∈ (r.sink 0).items, d.isError = false) ∧ [select][0]? = some select ∧
      ∃ resolved : Statement, r.statements[0]? = some resolved ∧
        (select.IsRedundant
            (ofStatements ⟨[], 15⟩ (.ofDescriptors descriptors) ([select].take 0)).catalog ∨
          resolved.Bound r.catalog) := by
  intro descriptors a t select r
  have haccepted : ∀ d ∈ (r.sink 0).items, d.isError = false := by decide
  exact ⟨haccepted, rfl, ofStatements_bound descriptors ⟨[], 15⟩ [select] 0 haccepted 0 select rfl⟩

end Resolution
end SqlAnalysis
