import Mathlib.Tactic.SplitIfs
import SqlAnalysis.Proofs.Source.Positions

/-!
# Tokens tile the source

The tokens of a text and the characters that begin no token lie side by side
from its first byte to its last. The place of each is given twice, by its bytes
and by its lines and columns, and the line index translates one into the other.
-/
namespace SqlAnalysis

/-! ### What one scan can say -/

/-- Whether the diagnostic is about a character that begins no token. -/
def Diagnostic.isUnrecognized (d : Diagnostic) : Bool :=
  "unrecognized character '".toList.isPrefixOf d.message.toList

namespace Scan

/-- The messages of scans that find a token, however damaged. -/
def tokenProblems : List String :=
  ["unterminated string", "unterminated quoted identifier", "unterminated comment"]

/-- A scan finds a token, with a problem of its own kind if any, or it reports
the one character it stands on. The end of the text is never found by a scan. -/
inductive Result (c : Char) : Scan → Prop
  | token {kind : TokenKind} {extra : Nat} {problem : Option String} (hkind : kind ≠ .eof)
      (hproblem : ∀ message ∈ problem, message ∈ tokenProblems) :
      Result c ⟨some kind, extra, problem⟩
  | skipped : Result c ⟨none, 0, some ("unrecognized character '" ++ c.toString ++ "'")⟩

namespace Result

variable {c : Char} {s : Scan}

theorem problem_of_none (h : Result c s) (hkind : s.kind = none) :
    s.problem = some ("unrecognized character '" ++ c.toString ++ "'") := by
  cases h with
  | token => simp at hkind
  | skipped => rfl

theorem kind_ne_eof (h : Result c s) : s.kind ≠ some .eof := by
  cases h with
  | token hkind => simpa using hkind
  | skipped => simp

theorem problem_of_some (h : Result c s) {kind : TokenKind} (hkind : s.kind = some kind) :
    ∀ message ∈ s.problem, message ∈ tokenProblems := by
  cases h with
  | token _ hproblem => exact hproblem
  | skipped => simp at hkind

end Result

theorem Result.of_token {c : Char} {kind : TokenKind} {extra : Nat} (h : kind ≠ .eof) :
    Result c (Scan.token kind extra) :=
  .token h (by simp)

theorem Result.of_unclosed {c : Char} {kind : TokenKind} {extra : Nat} {closed : Bool}
    {message : String} (hkind : kind ≠ .eof) (hmessage : message ∈ tokenProblems) :
    Result c ⟨some kind, extra, if closed then none else some message⟩ := by
  refine .token hkind ?_
  cases closed <;> simp [hmessage]

theorem textKind_ne_eof (cs : List Char) : textKind cs ≠ .eof := by
  unfold textKind
  split <;> simp

theorem numberKind_ne_eof (cs : List Char) : numberKind cs ≠ .eof := by
  unfold numberKind
  split <;> simp

theorem wordKind_ne_eof (cs : List Char) : wordKind cs ≠ .eof := by
  unfold wordKind
  dsimp only
  split <;> simp

theorem symbol_result (c : Char) (cs : List Char) : Result c (symbol c cs) := by
  unfold symbol
  cases h : symbol? c cs.head? with
  | none => exact .skipped
  | some found =>
    refine .of_token ?_
    unfold symbol? at h
    split at h <;> simp only [Option.some.injEq, reduceCtorEq] at h <;> simp [← h]

theorem scan_result (c : Char) (cs : List Char) : Result c (scan c cs) := by
  unfold scan
  dsimp only
  split_ifs
  · exact .of_token (by simp)
  · exact .of_token (by simp)
  · exact .of_token (by simp)
  · exact .of_token (by simp)
  · exact .of_unclosed (by simp) (by simp [tokenProblems])
  · exact .of_unclosed (textKind_ne_eof _) (by simp [tokenProblems])
  · exact .of_unclosed (by simp) (by simp [tokenProblems])
  · exact .of_unclosed (by simp) (by simp [tokenProblems])
  · exact .of_token (numberKind_ne_eof _)
  · exact .of_token (wordKind_ne_eof _)
  · exact symbol_result c cs

end Scan

namespace Diagnostic

theorem isUnrecognized_skip (c : Char) (range : Range) :
    isUnrecognized (lexical ("unrecognized character '" ++ c.toString ++ "'") range) = true := by
  simp [isUnrecognized, lexical]

theorem isUnrecognized_of_tokenProblems {message : String} (h : message ∈ Scan.tokenProblems)
    (range : Range) : isUnrecognized (lexical message range) = false := by
  have hall : ∀ m ∈ Scan.tokenProblems,
      "unrecognized character '".toList.isPrefixOf m.toList = false := by decide
  exact hall message h

theorem isUnrecognized_bracketFault (fault : BracketFault) :
    isUnrecognized fault.diagnostic = false := by
  unfold isUnrecognized BracketFault.diagnostic BracketFault.message lexical
  cases fault <;> dsimp only <;> rw [String.toList_append, String.toList_append,
    String.toList_append] <;> simp [List.isPrefixOf, toString]

end Diagnostic

namespace Scan.Result

variable {c : Char} {s : Scan}

/-- Where no token begins there is one complaint, about just that. -/
theorem diagnostics_of_none (h : Result c s) (hkind : s.kind = none) (range : Range) :
    ∃ d, (s.problem.toList.map fun message => Diagnostic.lexical message range) = [d] ∧
      d.isUnrecognized = true ∧ d.range = range := by
  rw [h.problem_of_none hkind]
  exact ⟨_, rfl, Diagnostic.isUnrecognized_skip _ _, rfl⟩

theorem diagnostics_of_some (h : Result c s) {kind : TokenKind} (hkind : s.kind = some kind)
    (range : Range) :
    (s.problem.toList.map fun message => Diagnostic.lexical message range).filter
      Diagnostic.isUnrecognized = [] := by
  simp only [List.filter_eq_nil_iff, List.mem_map, Option.mem_toList]
  rintro _ ⟨message, hmessage, rfl⟩
  have hproblem := h.problem_of_some hkind message hmessage
  simp [Diagnostic.isUnrecognized_of_tokenProblems hproblem]

end Scan.Result

namespace Lexed

/-! ### Tiles -/

/-- A span of the text falls between characters, and the range is where the line
index puts it. -/
structure Placed (source : String) (span : Span) (range : Range) : Prop where
  start : Text.IsCut source.toList span.start
  stop : Text.IsCut source.toList span.stop
  range_eq : range = (LineIndex.ofText source).range span

/-- Tokens and skipped characters, each of these with the diagnostic about it,
that cover the text from an offset to its end: every tile begins where the one
before it ends, and only the last is empty. -/
inductive Tiles (source : String) : Nat → List Token → List (Span × Diagnostic) → Prop
  | done {t : Token} (kind : t.kind = .eof)
      (span : t.span = ⟨Text.byteSize source, Text.byteSize source⟩)
      (placed : Placed source t.span t.range) : Tiles source (Text.byteSize source) [t] []
  | token {t : Token} {ts : List Token} {skips : List (Span × Diagnostic)}
      (kind : t.kind ≠ .eof) (nonempty : t.span.start < t.span.stop)
      (placed : Placed source t.span t.range) (rest : Tiles source t.span.stop ts skips) :
      Tiles source t.span.start (t :: ts) skips
  | skip {span : Span} {d : Diagnostic} {ts : List Token} {skips : List (Span × Diagnostic)}
      (nonempty : span.start < span.stop) (placed : Placed source span d.range)
      (rest : Tiles source span.stop ts skips) :
      Tiles source span.start ts ((span, d) :: skips)

namespace Tiles

variable {source : String} {offset : Nat} {ts : List Token} {skips : List (Span × Diagnostic)}

theorem offset_le (h : Tiles source offset ts skips) : offset ≤ Text.byteSize source := by
  induction h with
  | done => exact Nat.le_refl _
  | token _ nonempty _ _ ih => omega
  | skip nonempty _ _ ih => omega

theorem le_start (h : Tiles source offset ts skips) : ∀ t ∈ ts, offset ≤ t.span.start := by
  induction h with
  | done _ span => simp [span]
  | token _ nonempty _ _ ih =>
    intro u hu
    rcases List.mem_cons.mp hu with rfl | hu
    · exact Nat.le_refl _
    · have := ih u hu
      omega
  | skip nonempty _ _ ih =>
    intro u hu
    have := ih u hu
    omega

theorem pairwise (h : Tiles source offset ts skips) :
    ts.Pairwise fun t u => t.span.stop ≤ u.span.start := by
  induction h with
  | done => simp
  | token _ _ _ rest ih => exact List.pairwise_cons.mpr ⟨rest.le_start, ih⟩
  | skip _ _ _ ih => exact ih

theorem placed (h : Tiles source offset ts skips) :
    ∀ t ∈ ts, Placed source t.span t.range := by
  induction h with
  | done _ _ placed => simpa using placed
  | token _ _ placed _ ih => exact List.forall_mem_cons.mpr ⟨placed, ih⟩
  | skip _ _ _ ih => exact ih

theorem placed_skip (h : Tiles source offset ts skips) :
    ∀ skip ∈ skips, skip.1.start < skip.1.stop ∧ Placed source skip.1 skip.2.range := by
  induction h with
  | done => simp
  | token _ _ _ _ ih => exact ih
  | skip nonempty placed _ ih => exact List.forall_mem_cons.mpr ⟨⟨nonempty, placed⟩, ih⟩

theorem exists_last (h : Tiles source offset ts skips) :
    ∃ body last, ts = body ++ [last] ∧ last.kind = .eof ∧
      last.span = ⟨Text.byteSize source, Text.byteSize source⟩ ∧
      ∀ t ∈ body, t.kind ≠ .eof ∧ t.span.start < t.span.stop := by
  induction h with
  | @done t kind span => exact ⟨[], t, rfl, kind, span, by simp⟩
  | @token t _ _ kind nonempty _ _ ih =>
    obtain ⟨body, last, rfl, hkind, hspan, hbody⟩ := ih
    exact ⟨t :: body, last, rfl, hkind, hspan,
      List.forall_mem_cons.mpr ⟨⟨kind, nonempty⟩, hbody⟩⟩
  | skip _ _ _ ih => exact ih

/-- Every byte from the offset on lies under exactly one tile, and no tile
covers any other. -/
theorem countP_contains (h : Tiles source offset ts skips) (i : Nat) :
    (ts.map Token.span ++ skips.map Prod.fst).countP
        (fun span => decide (span.start ≤ i ∧ i < span.stop)) =
      if offset ≤ i ∧ i < Text.byteSize source then 1 else 0 := by
  simp only [List.countP_append]
  induction h with
  | done _ span =>
    simp only [List.map_cons, List.map_nil, List.countP_cons, List.countP_nil, span,
      decide_eq_true_eq]
    split_ifs <;> omega
  | token _ nonempty _ rest ih =>
    have hstop := rest.offset_le
    simp only [List.map_cons, List.countP_cons, decide_eq_true_eq]
    split_ifs at ih ⊢ <;> omega
  | skip nonempty _ rest ih =>
    have hstop := rest.offset_le
    simp only [List.map_cons, List.countP_cons, decide_eq_true_eq]
    split_ifs at ih ⊢ <;> omega

end Tiles

/-! ### Cutting a text -/

theorem placed_taken {source : String} {before taken rest : List Char}
    (h : source.toList = before ++ (taken ++ rest)) :
    Placed source ⟨Text.byteLength before, Text.byteLength before + Text.byteLength taken⟩
      ⟨Position.after ⟨0, 0⟩ before, (Position.after ⟨0, 0⟩ before).after taken⟩ := by
  have h' : source.toList = (before ++ taken) ++ rest := by rw [h, List.append_assoc]
  constructor
  · exact h ▸ Text.isCut_append before _
  · simpa [h'] using Text.isCut_append (before ++ taken) rest
  · have hstart := LineIndex.position_byteLength h
    have hstop := LineIndex.position_byteLength h'
    rw [Text.byteLength_append] at hstop
    simp [LineIndex.range, hstart, hstop, Position.after_append]

theorem lt_stop (offset : Nat) (c : Char) (cs : List Char) :
    offset < offset + Text.byteLength (c :: cs) := by
  have := c.utf8Size_pos
  rw [Text.byteLength_cons]
  omega

/-- What is left of the text is tiled, whatever was read before it. -/
theorem lexFrom_tiles {source : String} (offset : Nat) (here : Position) (pending : Option Span)
    (rest : List Char) : ∀ before, source.toList = before ++ rest →
      offset = Text.byteLength before → here = Position.after ⟨0, 0⟩ before →
      ∃ skips, Tiles source offset (lexFrom offset here pending rest).1 skips ∧
        (lexFrom offset here pending rest).2.filter Diagnostic.isUnrecognized =
          skips.map Prod.snd := by
  fun_induction lexFrom offset here pending rest with
  | case1 offset here pending =>
    rintro before hsource rfl rfl
    have hplaced : Placed source ⟨Text.byteLength before, Text.byteLength before⟩
        ⟨Position.after ⟨0, 0⟩ before, Position.after ⟨0, 0⟩ before⟩ := by
      have hcut : source.toList = before ++ ([] ++ []) := hsource
      simpa using placed_taken hcut
    have hsize : Text.byteSize source = Text.byteLength before := by
      rw [Text.byteSize, hsource, List.append_nil]
    refine ⟨[], ?_, rfl⟩
    rw [← hsize] at hplaced ⊢
    exact .done rfl rfl hplaced
  | case2 offset here pending c cs s taken stop there problems hkind tokens errors hrest ih =>
    rintro before hsource rfl rfl
    have hcut : source.toList = before ++ (taken ++ cs.drop s.extra) := by
      simp [hsource, taken]
    obtain ⟨skips, htiles, hskips⟩ := ih (before ++ taken) (by simpa using hcut)
      (Text.byteLength_append _ _).symm (Position.after_append _ _ _).symm
    rw [hrest] at htiles hskips
    have hplaced := placed_taken hcut
    have hlt : Text.byteLength before < stop := lt_stop _ _ _
    obtain ⟨d, hproblems, hd, hrange⟩ := (Scan.scan_result c cs).diagnostics_of_none hkind
      ⟨Position.after ⟨0, 0⟩ before, there⟩
    refine ⟨(⟨Text.byteLength before, stop⟩, d) :: skips, ?_, ?_⟩
    · exact .skip hlt (hrange ▸ hplaced) htiles
    · calc
        (problems ++ errors).filter Diagnostic.isUnrecognized =
            ([d] ++ errors).filter Diagnostic.isUnrecognized := by rw [← hproblems]
        _ = d :: skips.map Prod.snd := by
            rw [List.singleton_append, List.filter_cons_of_pos hd, hskips]
  | case3 offset here pending c cs s taken stop there problems kind hkind comment t tokens errors
      hrest ih =>
    rintro before hsource rfl rfl
    have hcut : source.toList = before ++ (taken ++ cs.drop s.extra) := by
      simp [hsource, taken]
    obtain ⟨skips, htiles, hskips⟩ := ih (before ++ taken) (by simpa using hcut)
      (Text.byteLength_append _ _).symm (Position.after_append _ _ _).symm
    rw [hrest] at htiles hskips
    have hplaced := placed_taken hcut
    have hlt : Text.byteLength before < stop := lt_stop _ _ _
    have hne : kind ≠ .eof := fun heq => (Scan.scan_result c cs).kind_ne_eof (heq ▸ hkind)
    have hproblems := (Scan.scan_result c cs).diagnostics_of_some hkind
      ⟨Position.after ⟨0, 0⟩ before, there⟩
    refine ⟨skips, .token (t := t) hne hlt hplaced htiles, ?_⟩
    rw [List.filter_append, hproblems, List.nil_append, hskips]

/-- The tokens of a text, with the characters that begin none, tile it. The
tokens come in order with one empty token behind the rest; each byte lies under
exactly one token or skipped character; all these begin and end between
characters; and the positions that the lexer keeps are those that the line
index finds. -/
theorem ofText_tiles (source : String) :
    ∃ (body : List Token) (last : Token) (skips : List (Span × Diagnostic)),
      (ofText source).tokens = body ++ [last] ∧
      (last.kind = .eof ∧ last.span = ⟨Text.byteSize source, Text.byteSize source⟩) ∧
      (∀ t ∈ body, t.kind ≠ .eof ∧ t.span.start < t.span.stop) ∧
      (ofText source).tokens.Pairwise (fun t u => t.span.stop ≤ u.span.start) ∧
      (ofText source).errors.filter Diagnostic.isUnrecognized = skips.map Prod.snd ∧
      (∀ i, ((ofText source).tokens.map Token.span ++ skips.map Prod.fst).countP
          (fun span => decide (span.start ≤ i ∧ i < span.stop)) =
        if i < Text.byteSize source then 1 else 0) ∧
      (∀ t ∈ (ofText source).tokens, Placed source t.span t.range) ∧
      ∀ skip ∈ skips, skip.1.start < skip.1.stop ∧ Placed source skip.1 skip.2.range := by
  obtain ⟨skips, htiles, hskips⟩ :=
    lexFrom_tiles 0 ⟨0, 0⟩ none source.toList [] rfl rfl rfl
  change Tiles source 0 (ofText source).tokens skips at htiles
  obtain ⟨body, last, htokens, hkind, hspan, hbody⟩ := htiles.exists_last
  have hfaults : ∀ fault : Option BracketFault,
      (fault.toList.map BracketFault.diagnostic).filter Diagnostic.isUnrecognized = [] := by
    intro fault
    cases fault <;> simp [Diagnostic.isUnrecognized_bracketFault]
  refine ⟨body, last, skips, htokens, ⟨hkind, hspan⟩, hbody, htiles.pairwise, ?_, ?_,
    htiles.placed, htiles.placed_skip⟩
  · simp [ofText, List.filter_append, hskips, hfaults]
  · intro i
    simpa only [Nat.zero_le, true_and] using htiles.countP_contains i

end Lexed
end SqlAnalysis
