import SqlAnalysis.Compilation.Basic
import SqlAnalysis.Proofs.Grammar.Segments
import SqlAnalysis.Proofs.Resolution.StatementScopes

/-!
# Scopes of a text

The statements of a text have regions that nest, so the scopes of the text do too, and a
position in no statement is in no scope but that of the whole text.
-/
namespace SqlAnalysis

theorem Script.region_nests {source : String} :
    ∀ statement ∈ (ofTokens (Lexed.ofText source).tokens).statements,
      statement.region.Nests := by
  intro statement hmem
  obtain ⟨piece, hpiece, hfills⟩ := exists_piece source hmem
  have hnests : statement.outline.Nests :=
    .of_isPlaced _ (hfills.all_isPlaced ((Lexed.inOrder_words source).sublist hpiece))
  have hwithin : Within statement.span [statement.outline] :=
    List.forall_mem_singleton.mpr ⟨⟨Nat.le_refl _, Nat.le_refl _⟩, hnests⟩
  exact (statement.region_within hwithin _ (List.mem_singleton_self _)).2

namespace Compilation

variable {options : CompileOptions} (source : String) (schema : List TableDescriptor)

theorem resolution_ofText (h : options.resolve = true) :
    (ofText source (some schema) options).resolution =
      some (Resolution.ofStatements (LineIndex.ofText source) (Catalog.ofDescriptors schema)
        (Script.ofTokens (Lexed.ofText source).tokens).statements) :=
  if_pos h

theorem statementRanges_ofText (h : options.resolve = true) :
    (ofText source (some schema) options).statementRanges =
      (Script.ofTokens (Lexed.ofText source).tokens).statements.map fun s =>
        (LineIndex.ofText source).range s.span := by
  have hstatements : (ofText source (some schema) options).statements =
      (Resolution.ofStatements (LineIndex.ofText source) (Catalog.ofDescriptors schema)
        (Script.ofTokens (Lexed.ofText source).tokens).statements).statements := by
    simp only [ofText, h, if_true]
  have hspans := Resolver.statements_span (Script.ofTokens (Lexed.ofText source).tokens).statements
    (.start (LineIndex.ofText source) (Catalog.ofDescriptors schema))
  rw [statementRanges, hstatements]
  have hranges := congrArg (List.map (LineIndex.ofText source).range) hspans
  rwa [List.map_map, List.map_map] at hranges

/-- Every text has a tree of scopes over every schema. They nest, and each has the whole
range of its region, so nothing was cut off when it was opened. None is open between
statements. A position that no statement touches is in the scope of the whole text only, and
one in a statement is in a scope of that statement of which no part touches it. -/
theorem scopes_ofText (h : options.resolve = true) :
    let c := ofText source (some schema) options
    let statements := (Script.ofTokens c.tokens).statements
    ∃ tree, c.scopes? = some tree ∧
      (∀ path outer, tree.get? path = some outer → ∀ inner ∈ outer.children,
        inner.scope.range.start ≤ inner.scope.range.stop ∧
          outer.scope.range.encloses inner.scope.range = true) ∧
      List.Forall₂ (Grown c.index) (statements.map Statement.region) tree.children ∧
      (∀ n, (((statements.take n).mapM Resolver.statement).run
        (.start c.index (.ofDescriptors schema))).2.frames = []) ∧
      ∀ p, ∃ found, tree.get? (tree.pathAt p) = some found ∧ c.scopeAt? p = some found.scope ∧
        (tree.pathAt p = [] ↔ ∀ range ∈ c.statementRanges, range.touches p = false) ∧
        (tree.pathAt p ≠ [] → found.scope.range.touches p = true ∧
          (∃ range ∈ c.statementRanges, range.touches p = true ∧
            range.encloses found.scope.range = true) ∧
          ∀ child ∈ found.children, child.scope.range.touches p = false) := by
  intro c statements
  have hscopes : c.scopes? = some (Resolution.ofStatements c.index (.ofDescriptors schema)
      statements).scopes :=
    congrArg (Option.map Resolution.scopes) (resolution_ofText source schema h)
  have hregions : ∀ statement ∈ statements, statement.region.Nests := Script.region_nests
  obtain ⟨hgrown, hnests⟩ :=
    Resolution.grown_ofStatements c.index (.ofDescriptors schema) hregions
  generalize (Resolution.ofStatements _ _ _).scopes = tree at hscopes hgrown hnests
  -- The outermost scopes inside the root are those of the statements.
  have hranges : c.statementRanges = tree.children.map fun t => t.scope.range := by
    rw [statementRanges_ofText source schema h, ← List.forall₂_eq_eq_eq,
      List.forall₂_map_left_iff, List.forall₂_map_right_iff]
    exact (List.forall₂_map_left_iff.mp hgrown).imp fun _ _ h => h.range_eq.symm
  refine ⟨tree, hscopes, fun path outer houter => (hnests.get? houter).1.inside, hgrown,
    fun n => (Resolver.statements_settle _ rfl).1.frames, fun p => ?_⟩
  obtain ⟨found, hfound, hhead, htouches, hinner⟩ := hnests.exists_chainAt p
  refine ⟨found, hfound, ?_, ?_, fun hne => ⟨(htouches hne).1, ?_, hinner⟩⟩
  · rw [scopeAt?, scopesAt, hscopes]
    exact hhead
  · rw [hranges, List.forall_mem_map]
    exact ScopeTree.pathAt_eq_nil_iff
  · rw [hranges]
    obtain ⟨-, child, hmem, hchild, hencloses⟩ := htouches hne
    exact ⟨_, List.mem_map_of_mem hmem, hchild, hencloses⟩

/-- `SELECT a FROM (SELECT b AS a FROM t WHERE b > 1) AS s ORDER BY a;` and `DROP TABLE t`:
a condition lies in a query, both in a statement. The end of a range still counts as
inside, and what stands between the statements belongs to none. -/
theorem scopes_ofText_subquery :
    let schema : List TableDescriptor :=
      [⟨"t", none, [⟨"b", "integer", false, none, false⟩], [], none⟩]
    let source := "SELECT a FROM (SELECT b AS a FROM t WHERE b > 1) AS s ORDER BY a;  DROP TABLE t"
    let c := ofText source (some schema) {}
    ∃ tree, c.scopes? = some tree ∧
      tree.children.map (fun t => (t.scope.range.stop.column, t.children.length)) =
        [(64, 1), (79, 0)] ∧
      tree.pathAt ⟨0, 47⟩ = [0, 0, 0, 0] ∧ tree.pathAt ⟨0, 66⟩ = [] ∧
      List.Forall₂ (Grown c.index)
        ((Script.ofTokens c.tokens).statements.map Statement.region) tree.children := by
  intro schema source c
  have hresolve : ({} : CompileOptions).resolve = true := rfl
  obtain ⟨tree, htree, -, hgrown, -⟩ := scopes_ofText source schema hresolve
  have hshape : c.scopes?.map (fun tree => (tree.children.map fun t =>
      (t.scope.range.stop.column, t.children.length), tree.pathAt ⟨0, 47⟩, tree.pathAt ⟨0, 66⟩)) =
        some ([(64, 1), (79, 0)], [0, 0, 0, 0], []) := by decide +kernel
  rw [htree, Option.map_some, Option.some.injEq, Prod.mk.injEq, Prod.mk.injEq] at hshape
  exact ⟨tree, htree, hshape.1, hshape.2.1, hshape.2.2, hgrown⟩

end Compilation
end SqlAnalysis
