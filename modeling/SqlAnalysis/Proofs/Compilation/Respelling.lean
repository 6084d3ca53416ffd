import SqlAnalysis.Compilation.Basic
import SqlAnalysis.Proofs.Grammar.RespelledStatements
import SqlAnalysis.Proofs.Resolution.TwinStatements

/-!
# Respelled sources

Names are matched whatever the case of their letters, everywhere. If the keywords and
names of a source are spelled in another case, the analysis finds the same.
-/
namespace SqlAnalysis.Compilation

theorem inOrder_like {ds ds' : List Diagnostic} (h : List.Forall₂ Diagnostic.Like ds ds') :
    List.Forall₂ Diagnostic.Like (inOrder ds) (inOrder ds') := by
  refine forall₂_mergeSort (fun a a' b b' ha hb => ?_) h
  rw [ha.range, hb.range]

section

variable (source : String) (schema : Option (List TableDescriptor)) (options : CompileOptions)

theorem statements_ofText :
    (ofText source schema options).statements =
      (ofText source schema options).resolution.elim
        (Script.ofTokens (Lexed.ofText source).tokens).statements Resolution.statements := by
  unfold ofText
  cases schema with
  | none => rfl
  | some tables => cases options.resolve <;> rfl

theorem diagnostics_ofText :
    (ofText source schema options).diagnostics =
      (Sink.ofList options.dedupWindow (inOrder ((Lexed.ofText source).errors ++
        (Script.ofTokens (Lexed.ofText source).tokens).errors ++
          (ofText source schema options).resolution.elim []
            fun r => (r.sink options.dedupWindow).items))).items := by
  unfold ofText
  cases schema with
  | none => rfl
  | some tables => cases options.resolve <;> rfl

end

/-- The compilations are of alike statements, with the same complaints. -/
structure Like (c c' : Compilation) : Prop where
  index : c.index = c'.index
  statements : List.Forall₂ (Statement.Like False) c.statements c'.statements
  resolution : Option.Rel (Resolution.Like False) c.resolution c'.resolution
  diagnostics : List.Forall₂ Diagnostic.Like c.diagnostics c'.diagnostics

variable {source other : String}

theorem resolution_like (h : Respelled source other) (schema : Option (List TableDescriptor))
    (options : CompileOptions) :
    Option.Rel (Resolution.Like False) (ofText source schema options).resolution
      (ofText other schema options).resolution := by
  cases schema with
  | none => exact .none
  | some tables =>
    have hcatalog : (Catalog.ofDescriptors tables).Like False (Catalog.ofDescriptors tables) :=
      Std.Refl.refl _
    have hlike := Resolution.ofStatements_like hcatalog (LineIndex.ofText source)
      (Script.ofTokens_like False h.lexed.1).1
    have hrel := Option.Rel.some (hlike.resolve_left fun hfailed => hfailed.1)
    cases hresolve : options.resolve with
    | false => simp [ofText, hresolve]
    | true =>
      rw [LineIndex.ofText_eq h.1] at hrel
      simpa [ofText, hresolve, ← LineIndex.ofText_eq h.1] using hrel

theorem ofText_like (h : Respelled source other) (schema : Option (List TableDescriptor))
    (options : CompileOptions) :
    (ofText source schema options).Like (ofText other schema options) := by
  obtain ⟨htokens, herrors, -⟩ := h.lexed
  obtain ⟨hstatements, hgrammatical⟩ := Script.ofTokens_like False htokens
  have hresolution := resolution_like h schema options
  refine ⟨LineIndex.ofText_eq h.1, ?_, hresolution, ?_⟩
  · rw [statements_ofText, statements_ofText]
    generalize (ofText source schema options).resolution = resolution at hresolution
    generalize (ofText other schema options).resolution = resolution' at hresolution
    cases hresolution with
    | none => exact hstatements
    | some hlike => exact hlike.statements
  · rw [diagnostics_ofText, diagnostics_ofText, herrors]
    generalize (ofText source schema options).resolution = resolution at hresolution
    generalize (ofText other schema options).resolution = resolution' at hresolution
    refine (Sink.ofList_like _ (inOrder_like ?_)).items
    refine List.rel_append (List.rel_append (Std.Refl.refl _) hgrammatical) ?_
    cases hresolution with
    | none => exact .nil
    | some hlike => exact (Sink.ofList_like _ hlike.raised).items

namespace Like

variable {c c' : Compilation}

theorem statementRanges_eq (h : c.Like c') : c.statementRanges = c'.statementRanges := by
  have hranges : List.Forall₂ Eq c.statementRanges c'.statementRanges := by
    refine List.rel_map (fun s s' hs => ?_) h.statements
    rw [h.index, hs.span]
  rwa [List.forall₂_eq_eq_eq] at hranges

theorem catalog?_like (h : c.Like c') : Option.Rel (Catalog.Like False) c.catalog? c'.catalog? := by
  have hresolution := h.resolution
  unfold catalog?
  generalize c.resolution = resolution at hresolution
  generalize c'.resolution = resolution' at hresolution
  cases hresolution with
  | none => exact .none
  | some hlike => exact .some hlike.catalog

end Like

/-- The case of letters in keywords and names does not matter: the statements stand at the
same places and have the same bindings and types, as many tables and columns are known,
and the same is complained about. -/
theorem ofText_of_respelled (h : Respelled source other) (schema : Option (List TableDescriptor))
    (options : CompileOptions) :
    let c := ofText source schema options
    let c' := ofText other schema options
    c.statements.length = c'.statements.length ∧ c.statementRanges = c'.statementRanges ∧
      List.Forall₂ (Statement.Like False) c.statements c'.statements ∧
      c.catalog?.map (fun catalog => (catalog.tables.length, catalog.columns.length)) =
        c'.catalog?.map (fun catalog => (catalog.tables.length, catalog.columns.length)) ∧
      List.Forall₂ Diagnostic.Like c.diagnostics c'.diagnostics := by
  intro c c'
  have hlike : c.Like c' := ofText_like h schema options
  refine ⟨hlike.statements.length_eq, hlike.statementRanges_eq, hlike.statements, ?_,
    hlike.diagnostics⟩
  have hcatalog := hlike.catalog?_like
  generalize c.catalog? = catalog at hcatalog
  generalize c'.catalog? = catalog' at hcatalog
  cases hcatalog with
  | none => rfl
  | some hlike => simp [hlike.tables.length_eq, hlike.columns.length_eq]

/-- Keywords, names and a quoted name, all of them in another case. Each spelling gives one
statement, in which the qualified name is bound to the column. -/
theorem ofText_of_respelled_select :
    let schema : List TableDescriptor :=
      [⟨"Orders", none, [⟨"Total", "integer", false, none, false⟩], [], none⟩]
    let c := ofText "SELECT total FROM \"orders\" o WHERE O.Total > 1" (some schema) {}
    let c' := ofText "select TOTAL from \"ORDERS\" O where o.tOTAL > 1" (some schema) {}
    Respelled "SELECT total FROM \"orders\" o WHERE O.Total > 1"
        "select TOTAL from \"ORDERS\" O where o.tOTAL > 1" ∧
      (∃ statement, c.statements = [statement] ∧ ∃ e ∈ statement.body.allNodes,
        e.span = ⟨35, 42⟩ ∧ e.binding = some (.column ⟨0⟩)) ∧
      (∃ statement, c'.statements = [statement] ∧ ∃ e ∈ statement.body.allNodes,
        e.span = ⟨35, 42⟩ ∧ e.binding = some (.column ⟨0⟩)) ∧
      c.diagnostics = [] ∧ c'.diagnostics = [] ∧
      c.statements.length = c'.statements.length ∧ c.statementRanges = c'.statementRanges ∧
      List.Forall₂ (Statement.Like False) c.statements c'.statements ∧
      c.catalog?.map (fun catalog => (catalog.tables.length, catalog.columns.length)) =
        c'.catalog?.map (fun catalog => (catalog.tables.length, catalog.columns.length)) ∧
      List.Forall₂ Diagnostic.Like c.diagnostics c'.diagnostics := by
  intro schema c c'
  have hrespelled : Respelled "SELECT total FROM \"orders\" o WHERE O.Total > 1"
      "select TOTAL from \"ORDERS\" O where o.tOTAL > 1" := by decide +kernel
  have hone : c.statements.length = 1 := by decide +kernel
  have hone' : c'.statements.length = 1 := by decide +kernel
  have hbound : ∀ statement ∈ c.statements, ∃ e ∈ statement.body.allNodes,
      e.span = ⟨35, 42⟩ ∧ e.binding = some (.column ⟨0⟩) := by decide +kernel
  have hbound' : ∀ statement ∈ c'.statements, ∃ e ∈ statement.body.allNodes,
      e.span = ⟨35, 42⟩ ∧ e.binding = some (.column ⟨0⟩) := by decide +kernel
  obtain ⟨statement, hs⟩ := List.length_eq_one_iff.mp hone
  obtain ⟨statement', hs'⟩ := List.length_eq_one_iff.mp hone'
  exact ⟨hrespelled, ⟨statement, hs, hbound _ (hs ▸ List.mem_singleton_self _)⟩,
    ⟨statement', hs', hbound' _ (hs' ▸ List.mem_singleton_self _)⟩,
    by decide +kernel, by decide +kernel, ofText_of_respelled hrespelled (some schema) {}⟩

end SqlAnalysis.Compilation
