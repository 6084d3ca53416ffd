import SqlAnalysis.Compilation.Basic
import SqlAnalysis.Proofs.Diagnostic.Sinks
import SqlAnalysis.Proofs.Grammar.Isolation

/-!
# When a source is erroneous

A compilation has errors exactly if one of its stages raised one. The complaints
pass through two sinks and are sorted in between, and neither can hide that there
is an error or make one up.
-/
namespace SqlAnalysis

/-! ### The stages that know no warnings -/

theorem Diagnostic.isError_of_mem_lexical (messages : List String) (range : Range) :
    ∀ d ∈ messages.map fun message => lexical message range, d.isError = true := by
  intro d hd
  obtain ⟨message, -, rfl⟩ := List.mem_map.mp hd
  rfl

theorem Lexed.isError_of_mem_lexFrom (offset : Nat) (here : Position) (pending : Option Span)
    (cs : List Char) : ∀ d ∈ (lexFrom offset here pending cs).2, d.isError = true := by
  fun_induction lexFrom offset here pending cs with
  | case1 => simp
  | case2 offset here pending c cs s taken stop there problems hkind tokens errors hrest ih =>
    rw [hrest] at ih
    exact List.forall_mem_append.mpr ⟨Diagnostic.isError_of_mem_lexical _ _, ih⟩
  | case3 offset here pending c cs s taken stop there problems kind hkind comment t tokens errors
      hrest ih =>
    rw [hrest] at ih
    exact List.forall_mem_append.mpr ⟨Diagnostic.isError_of_mem_lexical _ _, ih⟩

theorem Lexed.isError_of_mem {source : String} {d : Diagnostic}
    (h : d ∈ (Lexed.ofText source).errors) : d.isError = true := by
  simp only [Lexed.ofText, List.mem_append, List.mem_map, Option.mem_toList] at h
  rcases h with h | ⟨fault, -, rfl⟩
  · exact isError_of_mem_lexFrom _ _ _ _ d h
  · rfl

namespace Script

open ParserState

theorem isError_of_mem_step {s : ParserState} (hs : s.final.kind = .eof) :
    ∀ d ∈ (step s).2.1, d.isError = true := by
  unfold step
  split
  · have hagree := Parser.statement_agree (InStep.refl hs).toExtends
    unfold Parser.Agree at hagree
    rcases hrun : Parser.statement.run s with ⟨result, u⟩
    rw [hrun] at hagree
    cases hagree with
    | error _ _ hd _ => simpa using hd.isError
    | ok _ _ _ =>
      dsimp only
      split
      · simp
      · simp [expected, Diagnostic.grammatical, Diagnostic.isError]
  · simp [Diagnostic.grammatical, Diagnostic.isError]

theorem isError_of_mem_readFrom (n : Nat) :
    ∀ separated s, s.final.kind = .eof → s.tokens.length < n →
      ∀ d ∈ (readFrom separated s).2.1, d.isError = true := by
  induction n with
  | zero =>
    intro _ _ _ hn
    omega
  | succ n ih =>
    intro separated s hs hn
    have hready : (skipGap separated s).final.kind = .eof := by rw [final_skipGap, hs]
    have hlen := length_skipGap_le separated s
    by_cases hnil : (skipGap separated s).tokens = []
    · rw [readFrom_of_nil hnil]
      simp
    · have hrefl := (InStep.refl hready).toExtends
      have hnext : Extends [] (nextRound (skipGap separated s)) (nextRound (skipGap separated s)) :=
        hrefl.orSkip hnil (step_extends hrefl hnil).2.2
      have hlt : (nextRound (skipGap separated s)).tokens.length <
          (skipGap separated s).tokens.length := length_orSkip_lt hnil _
      rw [readFrom_of_ne_nil rfl hnil]
      have hlater := ih false (nextRound (skipGap separated s)) hnext.final (by omega)
      exact List.forall_mem_append.mpr ⟨isError_of_mem_step hready, hlater⟩

theorem isError_of_mem {tokens : List Token} {d : Diagnostic}
    (h : d ∈ (ofTokens tokens).errors) : d.isError = true :=
  isError_of_mem_readFrom _ true (start tokens) (final_start tokens) (Nat.lt_succ_self _) d h

end Script

theorem Resolver.length_mapM_run {α β : Type} (f : α → Resolver β) (as : List α) :
    ∀ s, ((as.mapM f).run s).1.length = as.length := by
  induction as with
  | nil => exact fun _ => rfl
  | cons a as ih =>
    intro s
    rw [List.mapM_cons]
    exact congrArg (· + 1) (ih ((f a).run s).2)

theorem Resolution.length_statements (index : LineIndex) (catalog : Catalog)
    (statements : List Statement) :
    (ofStatements index catalog statements).statements.length = statements.length :=
  Resolver.length_mapM_run Resolver.statement statements _

/-! ### Whole compilations -/

namespace Compilation

/-- Whether one of the stages raises an error about a source. -/
def Raises (source : String) (schema : Option (List TableDescriptor)) (resolve : Bool) : Prop :=
  (Lexed.ofText source).errors ≠ [] ∨
    (Script.ofTokens (Lexed.ofText source).tokens).errors ≠ [] ∨
    ∃ tables ∈ schema, resolve = true ∧
      ∃ d ∈ (Resolution.ofStatements (LineIndex.ofText source) (Catalog.ofDescriptors tables)
        (Script.ofTokens (Lexed.ofText source).tokens).statements).raised, d.isError = true

theorem any_isError_iff {ds : List Diagnostic} (h : ∀ d ∈ ds, d.isError = true) :
    ds.any Diagnostic.isError = true ↔ ds ≠ [] := by
  cases ds with
  | nil => simp
  | cons d ds => simp [h d List.mem_cons_self]

/-- What the stages raise is neither lost nor added to on the way. -/
theorem hasErrors_iff_raises (source : String) (schema : Option (List TableDescriptor))
    (options : CompileOptions) :
    (ofText source schema options).hasErrors = true ↔ Raises source schema options.resolve := by
  have hlexical : (Lexed.ofText source).errors.any Diagnostic.isError = true ↔
      (Lexed.ofText source).errors ≠ [] :=
    any_isError_iff fun _ => Lexed.isError_of_mem
  have hgrammatical :
      (Script.ofTokens (Lexed.ofText source).tokens).errors.any Diagnostic.isError = true ↔
        (Script.ofTokens (Lexed.ofText source).tokens).errors ≠ [] :=
    any_isError_iff fun _ => Script.isError_of_mem
  have hsink : ∀ ds, (Sink.ofList options.dedupWindow ds).items.any Diagnostic.isError =
      ds.any Diagnostic.isError := Sink.hasErrors_ofList options.dedupWindow
  unfold hasErrors ofText Raises
  dsimp only
  rw [hsink, inOrder, (List.mergeSort_perm _ _).any_eq, List.any_append, List.any_append,
    Bool.or_eq_true, Bool.or_eq_true, hlexical, hgrammatical, or_assoc]
  refine or_congr Iff.rfl (or_congr Iff.rfl ?_)
  cases schema with
  | none => simp
  | some tables =>
    cases options.resolve with
    | false => simp
    | true =>
      simp only [if_true, Resolution.sink, hsink]
      simp

theorem errors_eq_nil_iff (c : Compilation) : c.errors = [] ↔ ¬c.hasErrors = true := by
  simp [errors, hasErrors, List.filter_eq_nil_iff]

/-- A batch is accepted exactly if no stage raises an error, and then every statement
of it has its text. -/
theorem normalize_spec (source : String) (tables : List TableDescriptor) :
    match normalize source tables with
    | .ok texts => ¬Raises source (some tables) true ∧
        texts.length = (Script.ofTokens (Lexed.ofText source).tokens).statements.length
    | .error _ => Raises source (some tables) true := by
  have hraises := hasErrors_iff_raises source (some tables) { emitHints := false }
  have herrors := errors_eq_nil_iff (ofText source (some tables) { emitHints := false })
  unfold normalize
  dsimp only
  cases hc : (ofText source (some tables) { emitHints := false }).errors with
  | nil =>
    refine ⟨mt hraises.mpr (herrors.mp hc), ?_⟩
    rw [canonical, List.length_map]
    exact Resolution.length_statements _ _ _
  | cons first rest =>
    rw [hc] at herrors
    exact hraises.mp (not_not.mp (mt herrors.mpr (List.cons_ne_nil first rest)))

/-- Suppression never hides that a source is erroneous. -/
theorem hasErrors_spec (source : String) (schema : Option (List TableDescriptor))
    (tables : List TableDescriptor) (options : CompileOptions) :
    ((ofText source schema options).hasErrors = true ↔ Raises source schema options.resolve) ∧
      (∀ window hints,
        (ofText source schema
          { options with dedupWindow := window, emitHints := hints }).hasErrors =
          (ofText source schema options).hasErrors) ∧
      match normalize source tables with
      | .ok texts => ¬Raises source (some tables) true ∧
          texts.length = (Script.ofTokens (Lexed.ofText source).tokens).statements.length
      | .error _ => Raises source (some tables) true := by
  refine ⟨hasErrors_iff_raises source schema options, ?_, normalize_spec source tables⟩
  intro window hints
  rw [Bool.eq_iff_iff, hasErrors_iff_raises, hasErrors_iff_raises]

end Compilation
end SqlAnalysis
