import SqlAnalysis.Proofs.Compilation.Errors
import SqlAnalysis.Proofs.Grammar.Segments

/-!
# Statements part a text

No piece from which a statement is read holds a semicolon, and if nothing is complained
about, the gaps between them hold nothing else. So an accepted batch leaves out no part of
the text.
-/
namespace SqlAnalysis

/-- What holds of one member, and of no two, is counted once. -/
theorem countP_eq_one {α : Type} {p : α → Bool} {as : List α} (hex : ∃ a ∈ as, p a = true)
    (hne : as.Pairwise fun a b => ¬(p a = true ∧ p b = true)) : as.countP p = 1 := by
  induction as with
  | nil =>
    obtain ⟨_, ha, _⟩ := hex
    cases ha
  | cons a as ih =>
    obtain ⟨hfirst, hrest⟩ := List.pairwise_cons.mp hne
    by_cases ha : p a = true
    · have hzero : as.countP p = 0 :=
        List.countP_eq_zero.mpr fun b hb hp => hfirst b hb ⟨ha, hp⟩
      rw [List.countP_cons_of_pos ha, hzero]
    · rw [List.countP_cons_of_neg ha]
      obtain ⟨b, hb, hp⟩ := hex
      rcases List.mem_cons.mp hb with rfl | hb
      · exact absurd hp ha
      · exact ih ⟨b, hb, hp⟩ hrest

open ParserState

namespace Lexed

/-- Behind the first end of a text stands nothing more. -/
theorem words_eq_filter (source : String) : words source =
    (ofText source).tokens.filter fun t => !t.kind.isTrivia && t.kind ≠ .eof := by
  obtain ⟨body, last, -, htokens, ⟨hlast, -⟩, hbody, -⟩ := ofText_tiles source
  have hfront : ∀ t ∈ body, t.kind ≠ .eof := fun t ht => (hbody t ht).1
  have hstart : (ParserState.start [last]).tokens = [] := by
    simp [ParserState.start, hlast, TokenKind.isTrivia]
  have hkinds : ∀ t ∈ body, (!t.kind.isTrivia) = (!t.kind.isTrivia && t.kind ≠ .eof) := by
    intro t ht
    simp [hfront t ht]
  rw [words, htokens, tokens_start_append hfront, hstart, List.append_nil, ParserState.start,
    List.filter_append, List.filter_congr hkinds]
  simp only [List.filter_singleton, hlast, TokenKind.isTrivia]
  refine (List.takeWhile_eq_self_iff.mpr fun t ht => ?_).trans (List.append_nil _).symm
  exact decide_eq_true (hfront t (List.mem_filter.mp ht).1)

theorem mem_words {source : String} {t : Token} (ht : t ∈ (ofText source).tokens)
    (htrivia : t.kind.isTrivia = false) (heof : t.kind ≠ .eof) : t ∈ words source := by
  rw [words_eq_filter]
  exact List.mem_filter.mpr ⟨ht, by simp [htrivia, heof]⟩

theorem kind_ne_eof_iff {source : String} {t : Token} (ht : t ∈ (ofText source).tokens) :
    t.kind ≠ .eof ↔ t.span.start < t.span.stop := by
  obtain ⟨body, last, -, htokens, ⟨hlast, hspan⟩, hbody, -⟩ := ofText_tiles source
  rw [htokens] at ht
  rcases List.mem_append.mp ht with ht | ht
  · exact iff_of_true (hbody t ht).1 (hbody t ht).2
  · obtain rfl := List.mem_singleton.mp ht
    simp [hlast, hspan]

/-- If nothing is wrong with a text, each of its bytes lies under a token. -/
theorem exists_token_of_errors_nil {source : String} (h : (ofText source).errors = []) {i : Nat}
    (hi : i < Text.byteSize source) :
    ∃ t ∈ (ofText source).tokens, t.span.start ≤ i ∧ i < t.span.stop := by
  obtain ⟨-, -, skips, -, -, -, -, hskips, hcount, -⟩ := ofText_tiles source
  rw [h] at hskips
  obtain rfl : skips = [] := List.map_eq_nil_iff.mp hskips.symm
  have hpos : 0 < ((ofText source).tokens.map Token.span).countP
      (fun span => decide (span.start ≤ i ∧ i < span.stop)) := by
    have := hcount i
    rw [if_pos hi] at this
    simp only [List.map_nil, List.append_nil] at this
    omega
  obtain ⟨span, hspan, hcontains⟩ := List.countP_pos_iff.mp hpos
  obtain ⟨t, ht, rfl⟩ := List.mem_map.mp hspan
  exact ⟨t, ht, of_decide_eq_true hcontains⟩

end Lexed

namespace Script

variable (source : String)

/-- A statement with the tokens that it is read from. -/
theorem exists_read {statement : Statement}
    (h : statement ∈ (ofTokens (Lexed.ofText source).tokens).statements) :
    ∃ before piece behind, Lexed.words source = before ++ piece ++ behind ∧
      statement.IsRead piece := by
  obtain ⟨pieces, hpieces, hsegments⟩ := exists_segments (Lexed.ofText source).tokens
  obtain ⟨piece, hpiece, hread⟩ := exists_of_mem_left hpieces h
  obtain ⟨before, behind, happend⟩ := hsegments.exists_append hpiece
  exact ⟨before, piece, behind, happend, hread⟩

/-- Statements stand one after the other in a text. -/
theorem statements_inOrder :
    (ofTokens (Lexed.ofText source).tokens).statements.Pairwise fun a b =>
      a.span.stop ≤ b.span.start := by
  obtain ⟨pieces, hpieces, hsegments⟩ := exists_segments (Lexed.ofText source).tokens
  have horder := (Lexed.inOrder_words source).sublist hsegments.sublist
  generalize (ofTokens (Lexed.ofText source).tokens).statements = statements at hpieces
  clear hsegments
  induction hpieces with
  | nil => exact .nil
  | @cons a piece statements pieces ha hrest ih =>
    rw [List.flatten_cons] at horder
    refine .cons (fun b hb => ?_) (ih horder.right)
    obtain ⟨other, hother, hb⟩ := exists_of_mem_left hrest hb
    have hboth := horder.sublist
      ((List.Sublist.refl piece).append (List.sublist_flatten_of_mem hother))
    exact (ha.fills.covers hboth.left).stop_le_start (hb.fills.covers hboth.right) hboth

variable {source}

/-- No semicolon stands under the span of a statement. -/
theorem apart_semicolon {statement : Statement}
    (h : statement ∈ (ofTokens (Lexed.ofText source).tokens).statements) {t : Token}
    (ht : t ∈ (Lexed.ofText source).tokens) (hkind : t.kind = .semicolon) :
    statement.span.Apart t.span := by
  obtain ⟨before, piece, behind, hwords, hread⟩ := exists_read source h
  have horder := Lexed.inOrder_words source
  have hmem := Lexed.mem_words ht (by rw [hkind]; rfl) (by simp [hkind])
  have hself : t.span.Covers [t] := .singleton t
  rw [hwords] at horder hmem
  have hcovers := hread.fills.covers horder.left.right
  have hone : ∀ {ts}, t ∈ ts → [t].Sublist ts := List.singleton_sublist.mpr
  rcases List.mem_append.mp hmem with hmem | hmem
  · rcases List.mem_append.mp hmem with hmem | hmem
    · exact .inr (hself.stop_le_start hcovers
        (horder.left.sublist ((hone hmem).append_right piece)))
    · exact absurd hkind (hread.ne_semicolon t hmem)
  · refine .inl (hcovers.stop_le_start hself (horder.sublist ?_))
    exact (List.sublist_append_right before piece).append (hone hmem)

/-- A statement begins with a word that begins statements. -/
theorem exists_starts {statement : Statement}
    (h : statement ∈ (ofTokens (Lexed.ofText source).tokens).statements) :
    ∃ first ∈ (Lexed.ofText source).tokens, first.kind.isStatementStart = true ∧
      statement.span.start = first.span.start ∧ first.span.stop ≤ statement.span.stop := by
  obtain ⟨before, piece, behind, hwords, hread⟩ := exists_read source h
  have hpiece : InOrder piece := (hwords ▸ Lexed.inOrder_words source).left.right
  have hcovers := hread.fills.covers hpiece
  obtain ⟨first, hfirst, hstart⟩ := hread.exists_first
  have hmem := List.mem_of_mem_head? hfirst
  obtain ⟨first', hfirst', last, -, hspan⟩ := id hcovers
  obtain rfl : first = first' := Option.mem_unique hfirst hfirst'
  refine ⟨first, (tokens_start_sublist _).subset ?_, hstart, ?_, hcovers.le_stop hpiece hmem⟩
  · rw [← Lexed.words, hwords]
    simp [hmem]
  · change statement.outline.span.start = first.span.start
    rw [hspan]

/-- Where nothing is complained about, every word lies under a statement. -/
theorem exists_encloses (herrors : (ofTokens (Lexed.ofText source).tokens).errors = [])
    {t : Token} (ht : t ∈ Lexed.words source) (hkind : t.kind ≠ .semicolon) :
    ∃ statement ∈ (ofTokens (Lexed.ofText source).tokens).statements,
      statement.span.Encloses t.span := by
  obtain ⟨pieces, hpieces, hsegments⟩ := exists_segments (Lexed.ofText source).tokens
  rcases hsegments.mem_cases ht with hgap | ⟨piece, hpiece, hmem⟩
  · exact absurd (hgap herrors) hkind
  · obtain ⟨statement, hstatement, hread⟩ := exists_of_mem_right hpieces hpiece
    have horder := (Lexed.inOrder_words source).sublist
      ((List.sublist_flatten_of_mem hpiece).trans hsegments.sublist)
    have hcovers := hread.fills.covers horder
    exact ⟨statement, hstatement, hcovers.start_le horder hmem, hcovers.le_stop horder hmem⟩

/-- It lies under no other, since statements are apart. -/
theorem countP_encloses (herrors : (ofTokens (Lexed.ofText source).tokens).errors = [])
    {t : Token} (ht : t ∈ (Lexed.ofText source).tokens) (htrivia : t.kind.isTrivia = false)
    (hkind : t.kind ≠ .semicolon) (heof : t.kind ≠ .eof) :
    (ofTokens (Lexed.ofText source).tokens).statements.countP
      (fun s => decide (s.span.start ≤ t.span.start ∧ t.span.stop ≤ s.span.stop)) = 1 := by
  have hlt := (Lexed.kind_ne_eof_iff ht).mp heof
  refine countP_eq_one ?_ ((statements_inOrder source).imp fun hab => ?_)
  · obtain ⟨statement, hmem, hencloses⟩ :=
      exists_encloses herrors (Lexed.mem_words ht htrivia heof) hkind
    exact ⟨statement, hmem, decide_eq_true hencloses⟩
  · simp only [decide_eq_true_eq]
    omega

/-- The bytes of a text without any mistake. -/
theorem covered_or_countP (hlexical : (Lexed.ofText source).errors = [])
    (herrors : (ofTokens (Lexed.ofText source).tokens).errors = []) {i : Nat}
    (hi : i < Text.byteSize source) :
    (∃ t ∈ (Lexed.ofText source).tokens, (t.kind.isTrivia = true ∨ t.kind = .semicolon) ∧
      t.span.start ≤ i ∧ i < t.span.stop) ∨
    (ofTokens (Lexed.ofText source).tokens).statements.countP
      (fun s => decide (s.span.start ≤ i ∧ i < s.span.stop)) = 1 := by
  obtain ⟨t, ht, hstart, hstop⟩ := Lexed.exists_token_of_errors_nil hlexical hi
  by_cases hgap : t.kind.isTrivia = true ∨ t.kind = .semicolon
  · exact .inl ⟨t, ht, hgap, hstart, hstop⟩
  · rw [not_or, Bool.not_eq_true] at hgap
    have heof : t.kind ≠ .eof := (Lexed.kind_ne_eof_iff ht).mpr (Nat.lt_of_le_of_lt hstart hstop)
    obtain ⟨statement, hmem, hencloses⟩ :=
      exists_encloses herrors (Lexed.mem_words ht hgap.1 heof) hgap.2
    refine .inr (countP_eq_one ⟨statement, hmem, ?_⟩ ((statements_inOrder source).imp fun hab => ?_))
    · have hle := hencloses.1
      have hle' := hencloses.2
      simp only [decide_eq_true_eq]
      omega
    · simp only [decide_eq_true_eq]
      omega

/-- Statements stand in a text in order and apart from each other. Each begins at a word
that begins statements, and no semicolon stands under its span. If nothing is complained
about, every other word lies under exactly one statement; and of a batch that is accepted
every byte lies under exactly one statement, unless it belongs to a blank, a comment or a
semicolon. -/
theorem statements_partition (source : String) :
    let tokens := (Lexed.ofText source).tokens
    let script := ofTokens tokens
    (script.statements.Pairwise fun a b => a.span.stop ≤ b.span.start) ∧
      (∀ statement ∈ script.statements,
        (∃ first ∈ tokens, first.kind.isStatementStart = true ∧
          statement.span.start = first.span.start ∧ first.span.stop ≤ statement.span.stop) ∧
        ∀ t ∈ tokens, t.kind = .semicolon → statement.span.Apart t.span) ∧
      (script.errors = [] → ∀ t ∈ (Lexed.ofText source).significant, t.kind ≠ .semicolon →
        t.kind ≠ .eof → script.statements.countP
          (fun s => decide (s.span.start ≤ t.span.start ∧ t.span.stop ≤ s.span.stop)) = 1) ∧
      ∀ schema texts, normalize source schema = .ok texts →
        texts.length = script.statements.length ∧
        ∀ i < Text.byteSize source,
          (∃ t ∈ tokens, (t.kind.isTrivia = true ∨ t.kind = .semicolon) ∧
            t.span.start ≤ i ∧ i < t.span.stop) ∨
          script.statements.countP (fun s => decide (s.span.start ≤ i ∧ i < s.span.stop)) = 1 := by
  intro tokens script
  refine ⟨statements_inOrder source, fun statement hmem =>
    ⟨exists_starts hmem, fun t => apart_semicolon hmem⟩, ?_, ?_⟩
  · intro herrors t ht hkind heof
    obtain ⟨ht, htrivia⟩ := List.mem_filter.mp ht
    exact countP_encloses herrors ht (by simpa using htrivia) hkind heof
  · intro schema texts hnormalize
    have hspec := Compilation.normalize_spec source schema
    rw [hnormalize] at hspec
    obtain ⟨hraises, hlength⟩ := hspec
    simp only [Compilation.Raises, not_or, not_not] at hraises
    exact ⟨hlength, fun i hi => covered_or_countP hraises.1 hraises.2.1 hi⟩

theorem statements_partition_batch :
    let source := "SELECT 1; DROP TABLE t"
    let script := ofTokens (Lexed.ofText source).tokens
    script.errors = [] ∧ ∀ t ∈ (Lexed.ofText source).significant, t.kind ≠ .semicolon →
      t.kind ≠ .eof → script.statements.countP
        (fun s => decide (s.span.start ≤ t.span.start ∧ t.span.stop ≤ s.span.stop)) = 1 := by
  intro source script
  have herrors : script.errors = [] := by decide +kernel
  exact ⟨herrors, (statements_partition source).2.2.1 herrors⟩

end Script
end SqlAnalysis
