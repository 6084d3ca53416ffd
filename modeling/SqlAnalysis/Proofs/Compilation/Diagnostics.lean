import SqlAnalysis.Compilation.Basic
import SqlAnalysis.Proofs.Diagnostic.Separation
import SqlAnalysis.Proofs.Grammar.Blame
import SqlAnalysis.Proofs.Grammar.Segments
import SqlAnalysis.Proofs.Resolution.BlamedStatements
import SqlAnalysis.Proofs.Token.Edges

/-!
# The diagnostics of a compilation

All that the stages report passes, sorted by its place, through one sink. What comes out
is sorted, no two diagnostics of it are within a window of each other, and nothing that was
reported is left without a diagnostic close by that is as serious.

The lexer complains about tokens and about the characters that it skips, the parser about
tokens, and the resolver about what stands under a span of a statement, which begins where
a token begins and ends where a token ends. So every diagnostic of a compilation has the
range of a piece of the text that no token and no skipped character sticks out of.
-/
namespace SqlAnalysis

variable (source : String)

theorem Lexed.exists_eof : ∃ t ∈ (Lexed.ofText source).tokens, t.kind = .eof := by
  obtain ⟨skips, htiles⟩ := Lexed.tiles_ofText source
  obtain ⟨body, last, htokens, hkind, -, -⟩ := htiles.exists_last
  exact ⟨last, htokens ▸ List.mem_concat_self, hkind⟩

theorem Script.errors_runBetweenEdges :
    ∀ d ∈ (ofTokens (Lexed.ofText source).tokens).errors,
      Lexed.RunsBetweenEdges source d.range := by
  intro d hd
  obtain ⟨t, ht, hrange⟩ := errors_blame _ (Lexed.exists_eof source) d hd
  exact hrange ▸ Lexed.runsBetweenEdges_of_token ht

/-- Where a text ends too early, the complaint is about the empty token at its end. -/
example :
    (Script.ofTokens (Lexed.ofText "SELECT (1").tokens).errors.map Diagnostic.range =
      [⟨⟨0, 9⟩, ⟨0, 9⟩⟩] := by decide +kernel

theorem Outline.IsPlaced.runsBetweenEdges {source : String} {o : Outline}
    (h : o.IsPlaced (Lexed.words source)) :
    Lexed.RunsBetweenEdges source ((LineIndex.ofText source).range o.span) := by
  have hwords : Lexed.words source ⊆ (Lexed.ofText source).tokens :=
    (ParserState.tokens_start_sublist _).subset
  obtain ⟨t, ht, hstart⟩ := h.starts
  obtain ⟨u, hu, hstop⟩ := h.stops
  have hspan : o.span = ⟨t.span.start, u.span.stop⟩ := by rw [← hstart, ← hstop]
  rw [hspan]
  refine Lexed.runsBetweenEdges_of_tokens (hwords ht) (hwords hu) ?_
  rw [← hstart, ← hstop]
  exact h.ordered

theorem Resolution.raised_runBetweenEdges (catalog : Catalog) :
    ∀ d ∈ (ofStatements (LineIndex.ofText source) catalog
      (Script.ofTokens (Lexed.ofText source).tokens).statements).raised,
      Lexed.RunsBetweenEdges source d.range := by
  intro d hd
  obtain ⟨s, hs, node, hnode, hrange⟩ := raised_under _ _ _ d hd
  exact hrange ▸ (Script.spans_nest source hs node hnode).runsBetweenEdges

namespace Compilation

/-- All that the stages report on a source, stage by stage: the lexer, the parser, and the
resolver where names are bound. -/
def collected (source : String) (schema : Option (List TableDescriptor))
    (options : CompileOptions) : List Diagnostic :=
  (Lexed.ofText source).errors ++ (Script.ofTokens (Lexed.ofText source).tokens).errors ++
    match (ofText source schema options).resolution with
    | some r => (r.sink options.dedupWindow).items
    | none => []

theorem diagnostics_eq (source : String) (schema : Option (List TableDescriptor))
    (options : CompileOptions) :
    (ofText source schema options).diagnostics =
      (Sink.ofList options.dedupWindow (inOrder (collected source schema options))).items :=
  rfl

theorem mem_inOrder {ds : List Diagnostic} {d : Diagnostic} : d ∈ inOrder ds ↔ d ∈ ds :=
  List.mem_mergeSort

theorem pairwise_inOrder (ds : List Diagnostic) :
    (inOrder ds).Pairwise fun a b => a.range.start ≤ b.range.start := by
  have htrans : ∀ a b c : Diagnostic, decide (a.range.start ≤ b.range.start) →
      decide (b.range.start ≤ c.range.start) → decide (a.range.start ≤ c.range.start) := by
    simp only [decide_eq_true_eq]
    exact fun _ _ _ => Position.le_trans
  have htotal : ∀ a b : Diagnostic, (decide (a.range.start ≤ b.range.start) ||
      decide (b.range.start ≤ a.range.start)) = true := by
    simp only [Bool.or_eq_true, decide_eq_true_eq]
    exact fun a b => Position.le_total a.range.start b.range.start
  exact (List.pairwise_mergeSort htrans htotal ds).imp of_decide_eq_true

/-- The diagnostics of a compilation are sorted by their starts, those on one line stand a
window apart, and each that a stage reports has one that is kept on its line, within the
window, and no less serious. Without a window it is kept itself. -/
theorem diagnostics_sorted_apart_covering (source : String)
    (schema : Option (List TableDescriptor)) (options : CompileOptions) :
    let w := options.dedupWindow
    let kept := (ofText source schema options).diagnostics
    (kept.Pairwise fun a b => a.range.start ≤ b.range.start) ∧
      (0 < w → kept.Pairwise fun a b => a.range.start.line = b.range.start.line →
        a.range.start.column + w ≤ b.range.start.column) ∧
      ∀ d ∈ collected source schema options, ∃ k ∈ kept,
        k.range.start.line = d.range.start.line ∧
        (if w = 0 then k = d else k.range.start.column < d.range.start.column + w ∧
          d.range.start.column < k.range.start.column + w) ∧
        d.severity.outranks k.severity = false := by
  intro w kept
  have hsorted := pairwise_inOrder (collected source schema options)
  have hholds : Sink.Holds w (inOrder (collected source schema options)) kept :=
    Sink.holds_ofList w hsorted
  refine ⟨hholds.ordered, fun _ => ?_, fun d hd => ?_⟩
  · refine (hholds.ordered.and hholds.apart).imp ?_
    rintro a b ⟨hle, hfree⟩ hline
    rw [← Bool.not_eq_true, Sink.clashes_iff] at hfree
    rw [Position.le_iff] at hle
    omega
  · obtain ⟨k, hk, ⟨hnear, hseverity⟩, -⟩ := hholds.covered d (mem_inOrder.mpr hd)
    refine ⟨k, hk, ?_⟩
    rcases hnear with rfl | hclash
    · refine ⟨rfl, ?_, hseverity⟩
      split
      · rfl
      · omega
    · obtain ⟨hline, hbefore, hbehind⟩ := Sink.clashes_iff.mp hclash
      refine ⟨hline, ?_, hseverity⟩
      rw [if_neg (by omega)]
      exact ⟨hbefore, hbehind⟩

variable (schema : Option (List TableDescriptor)) (options : CompileOptions)

/-- Names are bound only in the statements of the text. -/
theorem exists_ofStatements {source : String} {schema : Option (List TableDescriptor)}
    {options : CompileOptions} {r : Resolution}
    (h : (ofText source schema options).resolution = some r) :
    ∃ tables, r = Resolution.ofStatements (LineIndex.ofText source)
      (Catalog.ofDescriptors tables) (Script.ofTokens (Lexed.ofText source).tokens).statements := by
  cases schema with
  | none => cases h
  | some tables =>
    refine ⟨tables, ?_⟩
    dsimp only [ofText] at h
    split_ifs at h
    exact (Option.some.inj h).symm

/-- Whatever a stage reports stands between two edges of the text, be it kept or dropped. -/
theorem collected_runBetweenEdges :
    ∀ d ∈ collected source schema options, Lexed.RunsBetweenEdges source d.range := by
  intro d hd
  rcases List.mem_append.mp hd with hd | hsemantic
  · rcases List.mem_append.mp hd with hlexer | hparser
    · exact Lexed.errors_runBetweenEdges source d hlexer
    · exact Script.errors_runBetweenEdges source d hparser
  · cases hresolution : (ofText source schema options).resolution with
    | none =>
      rw [hresolution] at hsemantic
      cases hsemantic
    | some r =>
      rw [hresolution] at hsemantic
      obtain ⟨tables, rfl⟩ := exists_ofStatements hresolution
      exact Resolution.raised_runBetweenEdges source _ d (Sink.items_ofList_subset _ _ hsemantic)

/-- Every diagnostic of a compilation has a range whose start is not behind its stop, and
these are the positions of two offsets in the text at each of which a token or a skipped
character begins or ends. -/
theorem diagnostics_runBetweenEdges :
    ∀ d ∈ (ofText source schema options).diagnostics, d.range.start ≤ d.range.stop ∧
      ∃ a b, a ≤ b ∧ b ≤ Text.byteSize source ∧
        d.range.start = (ofText source schema options).index.position a ∧
        d.range.stop = (ofText source schema options).index.position b ∧
        Lexed.IsEdge source a ∧ Lexed.IsEdge source b := by
  intro d hd
  rw [diagnostics_eq] at hd
  have hcollected : d ∈ collected source schema options :=
    mem_inOrder.mp (Sink.items_ofList_subset _ _ hd)
  obtain ⟨a, b, hle, hsize, ha, hb, hrange⟩ :=
    collected_runBetweenEdges source schema options d hcollected
  rw [hrange]
  exact ⟨LineIndex.position_mono _ hle, a, b, hle, hsize, rfl, rfl, ha, hb⟩

/-- In `#`, `DROP é;` and `SELECT 1 FROM missing`, each on a line, every stage has something
to complain about, and the parser complains about a word that is two bytes long. -/
theorem diagnostics_runBetweenEdges_stages :
    let source := "#\nDROP é;\nSELECT 1 FROM missing"
    let c := ofText source (some []) {}
    c.diagnostics.map Diagnostic.message = ["unrecognized character '#'",
      "expected TABLE, found identifier é", "unknown table missing"] ∧
      ∃ d ∈ c.diagnostics, d.range = ⟨⟨1, 5⟩, ⟨1, 7⟩⟩ ∧ ∃ a b, a ≤ b ∧
        b ≤ Text.byteSize source ∧ d.range.start = c.index.position a ∧
        d.range.stop = c.index.position b ∧ Lexed.IsEdge source a ∧ Lexed.IsEdge source b := by
  intro source c
  have hsorted : (collected source (some []) {}).Pairwise fun a b =>
      decide (a.range.start ≤ b.range.start) = true := by decide +kernel
  have hkept : c.diagnostics =
      (Sink.ofList Sink.defaultWindow (collected source (some []) {})).items :=
    congrArg (fun ds => (Sink.ofList Sink.defaultWindow ds).items)
      (List.mergeSort_of_pairwise hsorted)
  have hsecond : c.diagnostics[1]?.map Diagnostic.range = some ⟨⟨1, 5⟩, ⟨1, 7⟩⟩ := by
    rw [hkept]
    decide +kernel
  obtain ⟨d, hd, hrange⟩ := Option.map_eq_some_iff.mp hsecond
  have hmem : d ∈ c.diagnostics := List.mem_of_getElem? hd
  refine ⟨?_, d, hmem, hrange, (diagnostics_runBetweenEdges source (some []) {} d hmem).2⟩
  rw [hkept]
  decide +kernel

end Compilation
end SqlAnalysis
