import SqlAnalysis.Proofs.Catalog.Frames
import SqlAnalysis.Proofs.Grammar.Segments
import SqlAnalysis.Proofs.Resolution.StatementEdits

/-!
# What a statement changes

A statement about rows adds results of queries and nothing else. One that defines a
table changes the records of that table and of its columns at most, and none at all if
it is refused. So what is known of other tables stays known over a whole batch.
-/
namespace SqlAnalysis

/-! ### Statements and their targets -/

/-- Nothing is done to a table, as a name is not there or is taken. -/
def AlterAction.IsRefused (c : Catalog) (table : TableId) : AlterAction → Prop
  | .addColumn d => c.findColumns table d.name.name ≠ []
  | .dropColumn column => ∀ id, c.findColumns table column.name ≠ [id]
  | .renameColumn column newName =>
    (∀ id, c.findColumns table column.name ≠ [id]) ∨ c.findColumns table newName.name ≠ []
  | .renameTo newName => c.findTables newName.name ≠ []

/-- A definition that cannot be carried out: it creates a table whose name is taken, or
is about a table that is unknown, or is refused by the table. -/
def StatementBody.IsRefused (c : Catalog) : StatementBody → Prop
  | .createTable t => c.findTables t.name.name ≠ []
  | .alterTable t =>
    ∀ table, c.findTables t.table.name = [table] → t.action.IsRefused c table
  | .dropTable t => ∀ table, c.findTables t.table.name ≠ [table]
  | _ => False

/-- What a statement may make of a catalog. -/
def StatementBody.ChangesOnlyTarget (c c' : Catalog) : StatementBody → Prop
  | .createTable _ => c.KeepsOutside (fun _ => False) c'
  | .alterTable t => c.KeepsOutside (fun id => c.findTables t.table.name = [id]) c'
  | .dropTable t => c.KeepsOutside (fun id => c.findTables t.table.name = [id]) c'
  | _ => c.KeepsOutside (fun _ => False) c' ∧ c.OnlyAddsResults c'

namespace Resolver

open Catalog ResolverState

variable {s : ResolverState}

/-! ### Refused statements -/

theorem createTable_refused {t : CreateTable} (h : s.catalog.findTables t.name.name ≠ []) :
    ((createTable t).run s).2.catalog = s.catalog := by
  unfold createTable
  rw [run_catalog_bind]
  split
  · split <;> rfl
  · next hfree => exact absurd (by simpa using hfree) h

theorem alterAction_refused {table : TableId} {action : AlterAction}
    (h : action.IsRefused s.catalog table) :
    ((alterAction table action).run s).2.catalog = s.catalog := by
  cases action with
  | addColumn d =>
    rw [alterAction, run_catalog_bind]
    split
    · rfl
    · next hfree => exact absurd (by simpa using hfree) h
  | dropColumn ident =>
    rw [alterAction, run_bind]
    rcases tableColumn?_run table ident s with ⟨id, hfound, -⟩ | ⟨hnone, -⟩
    · exact absurd hfound (h id)
    · rw [hnone]
      exact tableColumn?_quiet table ident s
  | renameColumn ident newName =>
    rw [alterAction, run_bind]
    rcases tableColumn?_run table ident s with ⟨id, hfound, hrun⟩ | ⟨hnone, -⟩
    · have htaken := h.resolve_left fun hunknown => hunknown id hfound
      rw [hrun]
      dsimp only
      rw [run_catalog_bind]
      split
      · rfl
      · next hfree => exact absurd (by simpa using hfree) htaken
    · rw [hnone]
      exact tableColumn?_quiet table ident s
  | renameTo newName =>
    rw [alterAction, run_catalog_bind]
    split
    · rfl
    · next hfree => exact absurd (by simpa using hfree) h

/-- The table that a statement is about is the only one with its name. -/
theorem target?_run (name : Ident) (s : ResolverState) :
    (∃ id, s.catalog.findTables name.name = [id] ∧ ((target? name).run s).1 = some id) ∨
      (∀ id, s.catalog.findTables name.name ≠ [id]) ∧ ((target? name).run s).1 = none := by
  unfold target? catalogTable?
  rw [run_bind, run_catalog_bind]
  generalize s.catalog.findTables name.name = found
  match found with
  | [] => exact .inr ⟨nofun, rfl⟩
  | [id] => exact .inl ⟨id, rfl, rfl⟩
  | _ :: _ :: _ => exact .inr ⟨nofun, rfl⟩

theorem alterTable_refused {t : AlterTable}
    (h : (StatementBody.alterTable t).IsRefused s.catalog) :
    ((alterTable t).run s).2.catalog = s.catalog := by
  have hcatalog : ((target? t.table).run s).2.catalog = s.catalog := target?_quiet t.table s
  unfold alterTable
  rw [run_bind]
  rcases target?_run t.table s with ⟨id, hfound, htarget⟩ | ⟨-, htarget⟩
  · rw [htarget]
    exact (alterAction_refused (hcatalog ▸ h id hfound)).trans hcatalog
  · rw [htarget]
    exact hcatalog

theorem dropTable_refused {t : DropTable} (h : (StatementBody.dropTable t).IsRefused s.catalog) :
    ((dropTable t).run s).2.catalog = s.catalog := by
  unfold dropTable
  rw [run_catalog_bind]
  split
  · rfl
  · rw [run_bind]
    rcases catalogTable?_run t.table s with ⟨id, hfound, -⟩ | ⟨hnone, -⟩
    · exact absurd hfound (h id)
    · rw [hnone]
      exact catalogTable?_quiet t.table s

theorem statementBody_refused {body : StatementBody} (h : body.IsRefused s.catalog) :
    ((statementBody body).run s).2.catalog = s.catalog := by
  cases body with
  | createTable t => exact createTable_refused h
  | alterTable t => exact alterTable_refused h
  | dropTable t => exact dropTable_refused h
  | _ => exact False.elim h

/-! ### Targets -/

/-- What may be done for a statement to the catalog `c`: new tables are filled, and the
target of a definition is changed. -/
def rightsOf (c : Catalog) : StatementBody → Rights
  | .createTable _ => ⟨fun id => False ∨ ¬c.HasTable id, True⟩
  | .alterTable t => ⟨fun id => c.findTables t.table.name = [id] ∨ ¬c.HasTable id, True⟩
  | .dropTable t => ⟨fun id => c.findTables t.table.name = [id] ∨ ¬c.HasTable id, True⟩
  | _ => ⟨fun id => False ∨ ¬c.HasTable id, False⟩

theorem statementBody_edits (body : StatementBody) (hs : s.catalog.Indexed)
    (hunbound : body.IsUnbound) :
    Edits (rightsOf s.catalog body) s.catalog ((statementBody body).run s).2.catalog := by
  have hfresh : s.catalog.Editable (rightsOf s.catalog body) :=
    ⟨hs, fun id hid => by cases body <;> exact .inr hid⟩
  have hmay : MayEdit (rightsOf s.catalog body) s.catalog body →
      Edits (rightsOf s.catalog body) s.catalog ((statementBody body).run s).2.catalog :=
    fun h => (statementBody_evolvesAt body hfresh h).edits
  cases body with
  | createTable t =>
    exact hmay ⟨trivial, fun d hd id hid => absurd ((hunbound d hd).binding.symm.trans hid) nofun⟩
  | alterTable t =>
    by_cases hone : ∃ id, s.catalog.findTables t.table.name = [id]
    · obtain ⟨id, hfound⟩ := hone
      refine hmay ⟨trivial, fun other hother => .inl ?_⟩
      rw [hfound, List.mem_singleton] at hother
      rw [hfound, hother]
    · have hrefused : (StatementBody.alterTable t).IsRefused s.catalog :=
        fun id hid => absurd ⟨id, hid⟩ hone
      rw [statementBody_refused hrefused]
  | dropTable t =>
    by_cases hone : ∃ id, s.catalog.findTables t.table.name = [id]
    · obtain ⟨id, hfound⟩ := hone
      refine hmay ⟨trivial, fun other hother => .inl ?_⟩
      rw [hfound, List.mem_singleton] at hother
      rw [hfound, hother]
    · have hrefused : (StatementBody.dropTable t).IsRefused s.catalog :=
        fun id hid => hone ⟨id, hid⟩
      rw [statementBody_refused hrefused]
  | _ => exact hmay trivial

theorem statementBody_changesOnlyTarget (body : StatementBody) (hs : s.catalog.Indexed)
    (howned : s.catalog.Owned) (hunbound : body.IsUnbound) :
    body.ChangesOnlyTarget s.catalog ((statementBody body).run s).2.catalog ∧
      s.catalog.Preserves ((statementBody body).run s).2.catalog := by
  have hedits := statementBody_edits body hs hunbound
  refine ⟨?_, hedits.preserves⟩
  cases body with
  | createTable t => exact hedits.keepsOutside.of_new howned
  | alterTable t => exact hedits.keepsOutside.of_new howned
  | dropTable t => exact hedits.keepsOutside.of_new howned
  | _ => exact ⟨hedits.keepsOutside.of_new howned, hedits.onlyAddsResults not_false⟩

end Resolver

namespace Resolution

open Catalog

/-- The catalog after one statement more. -/
theorem catalog_ofStatements_append (index : LineIndex) (catalog : Catalog)
    (before : List Statement) (statement : Statement) :
    ∃ s : ResolverState, s.catalog = (ofStatements index catalog before).catalog ∧
      (ofStatements index catalog (before ++ [statement])).catalog =
        ((Resolver.statementBody statement.body).run s).2.catalog := by
  have hrun : (ofStatements index catalog (before ++ [statement])).catalog =
      ((Resolver.statement statement).run ((before.mapM Resolver.statement).run
        (ResolverState.start index catalog)).2).2.catalog := by
    simp only [ofStatements, List.mapM_append]
    rfl
  refine ⟨(((before.mapM Resolver.statement).run
    (ResolverState.start index catalog)).2).enter statement.span, rfl, ?_⟩
  rw [hrun]
  unfold Resolver.statement
  rw [Resolver.run_within, ResolverState.leave_catalog]
  rfl

/-- Over every catalog that a batch leads to, a statement changes its own target at most,
and nothing if it is refused. No column that exists gets another type or owner. -/
theorem ofStatements_changesOnlyTarget (index : LineIndex) (descriptors : List TableDescriptor)
    (before : List Statement) {tokens : List Token} {statement : Statement}
    (h : statement ∈ (Script.ofTokens tokens).statements) :
    let c := (ofStatements index (.ofDescriptors descriptors) before).catalog
    let c' := (ofStatements index (.ofDescriptors descriptors) (before ++ [statement])).catalog
    statement.body.ChangesOnlyTarget c c' ∧ c.Preserves c' ∧
      (statement.body.IsRefused c → c' = c) := by
  intro c c'
  have hschema := Indexed.ofDescriptors descriptors
  have hedits : Edits .all (.ofDescriptors descriptors) c :=
    edits_ofStatements index hschema before
  obtain ⟨s, hbefore, hafter⟩ :=
    catalog_ofStatements_append index (.ofDescriptors descriptors) before statement
  have hs : s.catalog.Indexed := hbefore ▸ hedits.indexed hschema
  have howned : s.catalog.Owned := hbefore ▸ hedits.owned (.ofDescriptors descriptors)
  have hchanges := Resolver.statementBody_changesOnlyTarget statement.body hs howned
    (Script.isUnbound_of_mem h)
  rw [← hafter, hbefore] at hchanges
  refine ⟨hchanges.1, hchanges.2, fun hrefused => ?_⟩
  have hrefused : statement.body.IsRefused s.catalog := by rwa [hbefore]
  exact hafter.trans ((Resolver.statementBody_refused hrefused).trans hbefore)

theorem ofStatements_changesOnlyTarget_create :
    let source := "CREATE TABLE t (a integer PRIMARY KEY, b text REFERENCES u (c))"
    let index := LineIndex.ofText source
    let before := (ofStatements index (.ofDescriptors [⟨"u", none, [], [], none⟩]) []).catalog
    ∃ statement ∈ (Script.ofTokens (Lexed.ofText source).tokens).statements,
      let after := (ofStatements index (.ofDescriptors [⟨"u", none, [], [], none⟩])
        ([] ++ [statement])).catalog
      statement.body.ChangesOnlyTarget before after ∧ before.Preserves after ∧
        (statement.body.IsRefused before → after = before) := by
  intro source index before
  have hne : (Script.ofTokens (Lexed.ofText source).tokens).statements ≠ [] := by decide +kernel
  have hmem := List.head_mem hne
  exact ⟨_, hmem, ofStatements_changesOnlyTarget index _ [] hmem⟩

end Resolution
end SqlAnalysis
