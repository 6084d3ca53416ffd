import SqlAnalysis.Proofs.Compilation.Errors
import SqlAnalysis.Proofs.Resolution.TwinStatements

/-!
# Forgetting types

A schema may declare columns with texts that are no types. Less is checked then, and
nothing that was fine before becomes an error.
-/
namespace SqlAnalysis

/-- If types are forgotten in a catalog, a batch that is accepted stays so. Its statements
stay the same, except that some of their types may be unknown. -/
theorem Resolution.ofStatements_forgetting {catalog catalog' : Catalog}
    (h : catalog.Like True catalog') (index : LineIndex) (statements : List Statement)
    (haccepted : ¬∃ d ∈ (ofStatements index catalog statements).raised, d.isError = true) :
    (¬∃ d ∈ (ofStatements index catalog' statements).raised, d.isError = true) ∧
      List.Forall₂ (Statement.Like True) (ofStatements index catalog statements).statements
        (ofStatements index catalog' statements).statements := by
  rcases ofStatements_like h index (Std.Refl.refl statements) with ⟨-, hfailed⟩ | hlike
  · exact absurd hfailed haccepted
  · refine ⟨?_, hlike.statements⟩
    rintro ⟨d', hd', herror⟩
    obtain ⟨d, hd, hdd'⟩ := exists_of_mem_right hlike.raised hd'
    exact haccepted ⟨d, hd, hdd'.isError_eq.trans herror⟩

namespace Compilation

theorem hasErrors_eq_false_iff (source : String) (schema : Option (List TableDescriptor))
    (options : CompileOptions) :
    (ofText source schema options).hasErrors = false ↔ ¬Raises source schema options.resolve := by
  rw [← hasErrors_iff_raises, Bool.not_eq_true]

/-- If a source is accepted, it is accepted when declared types are forgotten too. Its
statements stay the same, except that some of their types may be unknown. -/
theorem hasErrors_of_forgets (source : String) {schema schema' : Option (List TableDescriptor)}
    (h : Option.Rel (List.Forall₂ TableDescriptor.Forgets) schema schema')
    (options : CompileOptions)
    (haccepted : (ofText source schema options).hasErrors = false) :
    (ofText source schema' options).hasErrors = false ∧
      List.Forall₂ (Statement.Like True) (ofText source schema options).statements
        (ofText source schema' options).statements := by
  rw [hasErrors_eq_false_iff] at haccepted ⊢
  cases h with
  | none => exact ⟨haccepted, Std.Refl.refl _⟩
  | @some tables tables' htables =>
    cases hresolve : options.resolve with
    | false =>
      have hraises : Raises source (some tables') false → Raises source (some tables) false := by
        simp [Raises]
      have hstatements : (ofText source (some tables) options).statements =
          (ofText source (some tables') options).statements := by
        simp [ofText, hresolve]
      rw [hresolve] at haccepted
      rw [hstatements]
      exact ⟨mt hraises haccepted, Std.Refl.refl _⟩
    | true =>
      rw [hresolve] at haccepted
      simp only [Raises, not_or] at haccepted ⊢
      obtain ⟨hlexical, hgrammatical, hsemantic⟩ := haccepted
      obtain ⟨hraised, hstatements⟩ := Resolution.ofStatements_forgetting
        (Catalog.Like.ofDescriptors htables) (LineIndex.ofText source)
        (Script.ofTokens (Lexed.ofText source).tokens).statements (by simpa using hsemantic)
      refine ⟨⟨hlexical, hgrammatical, by simpa using hraised⟩, ?_⟩
      simpa [ofText, hresolve] using hstatements

/-- The column `a` is compared with a number, and its type is forgotten. -/
theorem hasErrors_of_forgets_comparison :
    let column : ColumnDescriptor := ⟨"a", "integer", false, none, false⟩
    let table : TableDescriptor := ⟨"t", none, [column], [], none⟩
    let schema : List TableDescriptor := [table]
    let schema' : List TableDescriptor :=
      [{ table with columns := [{ column with declaredType := "money" }] }]
    let source := "SELECT a FROM t WHERE a > 1"
    Option.Rel (List.Forall₂ TableDescriptor.Forgets) (some schema) (some schema') ∧
      (ofText source (some schema) {}).hasErrors = false ∧
      (ofText source (some schema') {}).hasErrors = false ∧
        List.Forall₂ (Statement.Like True) (ofText source (some schema) {}).statements
          (ofText source (some schema') {}).statements := by
  intro column table schema schema' source
  have hcolumn : column.Forgets { column with declaredType := "money" } :=
    .inr ⟨"money", .unknown "money", by decide, rfl⟩
  have hforgets : Option.Rel (List.Forall₂ TableDescriptor.Forgets) (some schema) (some schema') :=
    .some (.cons ⟨_, .cons hcolumn .nil, rfl⟩ .nil)
  have haccepted : (ofText source (some schema) {}).hasErrors = false := by decide +kernel
  exact ⟨hforgets, haccepted, hasErrors_of_forgets source hforgets {} haccepted⟩

end Compilation
end SqlAnalysis
