import SqlAnalysis.Proofs.Grammar.LayoutStatements
import SqlAnalysis.Proofs.Token.Tiling

/-!
# Pieces of a script

Reading a script cuts its tokens into pieces from which the statements are read, one after
the other, with gaps between them. Whatever stands in a gap is a semicolon or complained
about.

As the tokens of a text are in order, all spans of a statement nest: each lies within those
around it, and those side by side are apart.
-/
namespace SqlAnalysis

open Outline ParserState

/-- Whether pieces stand in a list one after the other, with gaps of what has a property. -/
inductive Segments {α : Type} (P : α → Prop) : List (List α) → List α → Prop
  | nil {gap : List α} : (∀ a ∈ gap, P a) → Segments P [] gap
  | cons {gap piece rest : List α} {pieces : List (List α)} : (∀ a ∈ gap, P a) →
      Segments P pieces rest → Segments P (piece :: pieces) (gap ++ piece ++ rest)

namespace Segments

variable {α : Type} {P Q : α → Prop} {pieces more : List (List α)} {as bs : List α}

theorem mono (h : Segments P pieces as) (himp : ∀ a, P a → Q a) : Segments Q pieces as := by
  induction h with
  | nil hgap => exact .nil fun a ha => himp a (hgap a ha)
  | cons hgap _ ih => exact .cons (fun a ha => himp a (hgap a ha)) ih

/-- A gap in front. -/
theorem after (h : Segments P pieces as) {gap : List α} (hgap : ∀ a ∈ gap, P a) :
    Segments P pieces (gap ++ as) := by
  cases h with
  | nil hrest => exact .nil (List.forall_mem_append.mpr ⟨hgap, hrest⟩)
  | @cons front piece rest pieces hfront hrest =>
    have h : Segments P (piece :: pieces) (gap ++ front ++ piece ++ rest) :=
      .cons (List.forall_mem_append.mpr ⟨hgap, hfront⟩) hrest
    simpa using h

theorem append (h : Segments P pieces as) (h' : Segments P more bs) :
    Segments P (pieces ++ more) (as ++ bs) := by
  induction h with
  | nil hgap => exact h'.after hgap
  | cons hgap _ ih => simpa using cons hgap ih

theorem sublist (h : Segments P pieces as) : pieces.flatten.Sublist as := by
  induction h with
  | nil => exact List.nil_sublist _
  | @cons gap piece _ _ _ _ ih =>
    exact (List.sublist_append_right gap piece).append ih

theorem exists_append (h : Segments P pieces as) {piece : List α} (hpiece : piece ∈ pieces) :
    ∃ before behind, as = before ++ piece ++ behind := by
  induction h with
  | nil => cases hpiece
  | @cons gap first rest _ _ _ ih =>
    rcases List.mem_cons.mp hpiece with rfl | hpiece
    · exact ⟨gap, rest, rfl⟩
    · obtain ⟨before, behind, rfl⟩ := ih hpiece
      exact ⟨gap ++ first ++ before, behind, by simp⟩

theorem mem_cases (h : Segments P pieces as) {a : α} (ha : a ∈ as) :
    P a ∨ ∃ piece ∈ pieces, a ∈ piece := by
  induction h with
  | nil hgap => exact .inl (hgap a ha)
  | @cons gap first rest pieces hgap _ ih =>
    rcases List.mem_append.mp ha with ha | ha
    · rcases List.mem_append.mp ha with ha | ha
      · exact .inl (hgap a ha)
      · exact .inr ⟨first, List.mem_cons_self, ha⟩
    · rcases ih ha with hP | ⟨piece, hpiece, ha⟩
      · exact .inl hP
      · exact .inr ⟨piece, List.mem_cons_of_mem _ hpiece, ha⟩

end Segments

/-- Whether a statement is read from a piece of the tokens. -/
inductive Statement.IsRead (statement : Statement) (piece : List Token) : Prop
  | mk {s u : ParserState} (final : s.final.kind = .eof)
      (start : s.current.kind.isStatementStart = true) (took : s.Took piece u)
      (run : Parser.statement.run s = (.ok statement, u))

namespace Statement.IsRead

variable {statement : Statement} {piece : List Token}

theorem fillsUnbound : statement.IsRead piece → statement.FillsUnbound piece
  | .mk final _ took run => by
    obtain ⟨read, htook, hfills⟩ := Parser.statement_reads _ final _ _ run
    obtain rfl : piece = read := List.append_cancel_right (took.tokens.symm.trans htook.tokens)
    exact hfills

theorem fills (h : statement.IsRead piece) : statement.outline.Fills piece :=
  h.fillsUnbound.fills

theorem ne_nil : statement.IsRead piece → piece ≠ []
  | .mk (s := s) final _ took run => by
    have hagree := Parser.statement_agree (InStep.refl final).toExtends
    rw [Parser.Agree, run] at hagree
    cases hagree with
    | @ok _ read _ _ hu _ hread =>
      obtain rfl : piece = read := List.append_cancel_right (took.tokens.symm.trans hu.tokens)
      exact hread

theorem exists_first (h : statement.IsRead piece) :
    ∃ first ∈ piece.head?, first.kind.isStatementStart = true := by
  have hne := h.ne_nil
  obtain ⟨final, start, took, run⟩ := h
  exact ⟨_, took.current_mem_head? hne, start⟩

/-- The tokens in front of a semicolon give the same statement, so it is not read. -/
theorem ne_semicolon : statement.IsRead piece → ∀ t ∈ piece, t.kind ≠ .semicolon
  | .mk (s := s) (u := u) final _ took run => by
    let front := s.tokens.takeWhile fun t => t.kind ≠ .semicolon
    let tail := s.tokens.dropWhile fun t => t.kind ≠ .semicolon
    have hextends : Extends tail { s with tokens := front } s := by
      refine ⟨fun t ht => ?_, List.takeWhile_append_dropWhile.symm, final, final⟩
      have hhead := List.head?_dropWhile_not (fun t : Token => t.kind ≠ .semicolon) s.tokens
      rw [show s.tokens.dropWhile (fun t => t.kind ≠ .semicolon) = tail from rfl,
        Option.mem_def.mp ht] at hhead
      simpa using hhead
    have hagree := Parser.statement_agree hextends
    rw [Parser.Agree, run] at hagree
    generalize Parser.statement.run { s with tokens := front } = outcome at hagree
    cases hagree with
    | @ok _ read v _ hv hu _ =>
      obtain rfl : piece = read := List.append_cancel_right (took.tokens.symm.trans hu.tokens)
      intro t ht
      have hfront : front = piece ++ v.tokens := hv.tokens
      have hmem : t ∈ front := hfront ▸ List.mem_append_left _ ht
      simpa using List.mem_takeWhile_imp hmem

end Statement.IsRead

theorem ParserState.tokens_start_sublist (tokens : List Token) :
    (ParserState.start tokens).tokens.Sublist tokens :=
  (List.takeWhile_sublist _).trans List.filter_sublist

theorem Lexed.inOrder_ofText (source : String) : InOrder (Lexed.ofText source).tokens := by
  obtain ⟨skips, htiles, -⟩ := lexFrom_tiles 0 ⟨0, 0⟩ none source.toList [] rfl rfl rfl
  change Tiles source 0 (ofText source).tokens skips at htiles
  obtain ⟨body, last, htokens, -, hspan, hbody⟩ := htiles.exists_last
  refine ⟨fun t ht => ?_, htiles.pairwise⟩
  rw [htokens] at ht
  rcases List.mem_append.mp ht with ht | ht
  · exact Nat.le_of_lt (hbody t ht).2
  · obtain rfl := List.mem_singleton.mp ht
    rw [hspan]

/-- The tokens of a text that its statements are read from: neither blanks, comments nor
the end. -/
def Lexed.words (source : String) : List Token :=
  (ParserState.start (Lexed.ofText source).tokens).tokens

theorem Lexed.inOrder_words (source : String) : InOrder (Lexed.words source) :=
  (Lexed.inOrder_ofText source).sublist (ParserState.tokens_start_sublist _)

namespace Script

variable {s : ParserState}

/-- What a round leaves for the next one. -/
theorem nextRound_final (hs : s.final.kind = .eof) (hne : s.tokens ≠ []) :
    (nextRound s).final.kind = .eof := by
  have hextends : Extends [] s s := (InStep.refl hs).toExtends
  exact (hextends.orSkip hne (step_extends hextends hne).2.2).final

theorem tokens_synchronize_append (u : ParserState) :
    ∃ skipped, u.tokens = skipped ++ u.synchronize.tokens := by
  rw [synchronize, tokens_skipWhile]
  exact ⟨_, List.takeWhile_append_dropWhile.symm⟩

theorem tokens_advance_append (s : ParserState) : ∃ read, s.tokens = read ++ s.advance.tokens := by
  cases h : s.tokens with
  | nil => exact ⟨[], by simp [ParserState.advance, h]⟩
  | cons t ts => exact ⟨[t], by simp [ParserState.advance, h]⟩

theorem tokens_orSkip_append {after : ParserState} {read : List Token}
    (h : s.tokens = read ++ after.tokens) :
    ∃ read, s.tokens = read ++ (s.orSkip after).tokens := by
  unfold ParserState.orSkip
  split
  · exact ⟨read, h⟩
  · exact tokens_advance_append s

/-- One round reads the piece of a statement, if it gives one. Whatever else it passes over
is complained about. -/
theorem step_segments (hs : s.final.kind = .eof) :
    ∃ pieces read, List.Forall₂ Statement.IsRead (step s).1.toList pieces ∧
      s.tokens = read ++ (nextRound s).tokens ∧
      Segments (fun _ => (step s).2.1 ≠ []) pieces read := by
  unfold nextRound step
  split
  · next hstart =>
    have hagree := Parser.statement_agree (InStep.refl hs).toExtends
    unfold Parser.Agree at hagree
    rcases hrun : Parser.statement.run s with ⟨result, u⟩
    rw [hrun] at hagree
    cases hagree with
    | error hu =>
      obtain ⟨skipped, hskipped⟩ := tokens_synchronize_append u
      have hleft := hu.tokens
      rw [hskipped, ← List.append_assoc] at hleft
      obtain ⟨read, hread⟩ := tokens_orSkip_append hleft
      exact ⟨[], read, .nil, hread, .nil fun _ _ => List.cons_ne_nil _ _⟩
    | @ok statement piece _ _ hu _ hpiece =>
      have hread : statement.IsRead piece := ⟨hs, hstart, hu, hrun⟩
      -- A token at least has been read, so that none is skipped.
      have hnext : ∀ after : ParserState, after.tokens.length ≤ u.tokens.length →
          s.orSkip after = after := by
        intro after hafter
        have hpos := List.length_pos_iff.mpr (show piece ≠ [] from hpiece)
        have hlen := hu.length_eq
        exact if_pos (by omega)
      dsimp only
      split
      · refine ⟨[piece], piece, .cons hread .nil, ?_, ?_⟩
        · rw [hnext u (Nat.le_refl _)]
          exact hu.tokens
        · have h : Segments (fun _ : Token => ([] : List Diagnostic) ≠ []) [piece]
            ([] ++ piece ++ []) := .cons (by simp) (.nil (by simp))
          simpa using h
      · obtain ⟨skipped, hskipped⟩ := tokens_synchronize_append u
        have hle : u.synchronize.tokens.length ≤ u.tokens.length := by
          rw [hskipped, List.length_append]
          omega
        refine ⟨[piece], piece ++ skipped, .cons hread .nil, ?_, ?_⟩
        · rw [hnext _ hle, List.append_assoc, ← hskipped]
          exact hu.tokens
        · have h : Segments (fun _ : Token => [u.expected "';' or end of input"] ≠ []) [piece]
            ([] ++ piece ++ skipped) := .cons (by simp) (.nil fun _ _ => List.cons_ne_nil _ _)
          simpa using h
  · obtain ⟨read, hread⟩ := tokens_advance_append s
    obtain ⟨read, hread⟩ := tokens_orSkip_append hread
    exact ⟨[], read, .nil, hread, .nil fun _ _ => List.cons_ne_nil _ _⟩

/-- All statements are read from pieces of the tokens. If nothing is complained about, there
are only semicolons between them. -/
theorem readFrom_segments (n : Nat) :
    ∀ separated s, s.final.kind = .eof → s.tokens.length < n →
      ∃ pieces, List.Forall₂ Statement.IsRead (readFrom separated s).1 pieces ∧
        Segments (fun t => (readFrom separated s).2.1 = [] → t.kind = .semicolon) pieces
          s.tokens := by
  induction n with
  | zero =>
    intro _ _ _ hn
    omega
  | succ n ih =>
    intro separated s hs hn
    have hlen := length_skipGap_le separated s
    have hfinal : (skipGap separated s).final.kind = .eof := by rw [final_skipGap, hs]
    obtain ⟨gap, hgap, hsemicolons⟩ : ∃ gap, s.tokens = gap ++ (skipGap separated s).tokens ∧
        ∀ t ∈ gap, t.kind = .semicolon := by
      rw [tokens_skipGap]
      refine ⟨_, List.takeWhile_append_dropWhile.symm, fun t ht => ?_⟩
      simpa using List.mem_takeWhile_imp ht
    by_cases hnil : (skipGap separated s).tokens = []
    · rw [readFrom_of_nil hnil]
      rw [hnil, List.append_nil] at hgap
      exact ⟨[], .nil, .nil fun t ht _ => hsemicolons t (hgap ▸ ht)⟩
    · have hlt : (nextRound (skipGap separated s)).tokens.length <
        (skipGap separated s).tokens.length := length_orSkip_lt hnil _
      obtain ⟨first, read, hfirst, hread, hsegments⟩ := step_segments hfinal
      obtain ⟨rest, hrest, hmore⟩ := ih false _ (nextRound_final hfinal hnil) (by omega)
      rw [readFrom_of_ne_nil rfl hnil, hgap, hread]
      refine ⟨first ++ rest, List.rel_append hfirst hrest, ?_⟩
      refine (Segments.append ?_ ?_).after fun t ht _ => hsemicolons t ht
      · exact hsegments.mono fun _ hne herrors => absurd (List.append_eq_nil_iff.mp herrors).1 hne
      · exact hmore.mono fun _ hkind herrors => hkind (List.append_eq_nil_iff.mp herrors).2

theorem exists_segments (tokens : List Token) :
    ∃ pieces, List.Forall₂ Statement.IsRead (ofTokens tokens).statements pieces ∧
      Segments (fun t => (ofTokens tokens).errors = [] → t.kind = .semicolon) pieces
        (start tokens).tokens :=
  readFrom_segments _ true (start tokens) (final_start tokens) (Nat.lt_succ_self _)

theorem exists_pieces (tokens : List Token) :
    ∃ pieces, List.Forall₂ Statement.FillsUnbound (ofTokens tokens).statements pieces ∧
      pieces.flatten.Sublist (start tokens).tokens := by
  obtain ⟨pieces, hpieces, hsegments⟩ := exists_segments tokens
  exact ⟨pieces, hpieces.imp fun _ _ h => h.fillsUnbound, hsegments.sublist⟩

/-- Nothing is bound before resolution. -/
theorem isUnbound_of_mem {tokens : List Token} {statement : Statement}
    (h : statement ∈ (ofTokens tokens).statements) : statement.body.IsUnbound := by
  obtain ⟨pieces, hpieces, -⟩ := exists_pieces tokens
  obtain ⟨piece, -, hstatement⟩ := exists_of_mem_left hpieces h
  exact hstatement.unbound

theorem exists_piece (source : String) {statement : Statement}
    (h : statement ∈ (ofTokens (Lexed.ofText source).tokens).statements) :
    ∃ piece, piece.Sublist (Lexed.words source) ∧ statement.outline.Fills piece := by
  obtain ⟨pieces, hpieces, hsub⟩ := exists_pieces (Lexed.ofText source).tokens
  obtain ⟨piece, hpiece, hstatement⟩ := exists_of_mem_left hpieces h
  exact ⟨piece, (List.sublist_flatten_of_mem hpiece).trans hsub, hstatement.fills⟩

/-- In every statement of a text each span begins where a token begins and ends where a
token ends, lies within all spans around it and does not overlap those beside it. -/
theorem spans_nest (source : String) {statement : Statement}
    (h : statement ∈ (ofTokens (Lexed.ofText source).tokens).statements) :
    ∀ node ∈ statement.outline.all, node.IsPlaced (Lexed.words source) := by
  obtain ⟨piece, hpiece, hfills⟩ := exists_piece source h
  have horder := (Lexed.inOrder_words source).sublist hpiece
  intro node hnode
  exact (hfills.all_isPlaced horder node hnode).mono hpiece.subset

theorem spans_nest_alias :
    let source := "SELECT a FROM (SELECT 1 AS a) AS t"
    ∃ statement ∈ (ofTokens (Lexed.ofText source).tokens).statements,
      ∀ node ∈ statement.outline.all, node.IsPlaced (Lexed.words source) := by
  intro source
  have hne : (ofTokens (Lexed.ofText source).tokens).statements ≠ [] := by decide +kernel
  have hmem := List.head_mem hne
  exact ⟨_, hmem, spans_nest source hmem⟩

/-- The alias of a query stands beside the span of the source, not in it. -/
example :
    let source := "SELECT a FROM (SELECT 1 AS a) AS t"
    (ofTokens (Lexed.ofText source).tokens).statements.map (fun statement =>
      statement.outline.parts.flatMap fun select => select.parts.map Outline.span) =
        [[⟨7, 8⟩, ⟨14, 29⟩, ⟨33, 34⟩]] := by decide +kernel

end Script
end SqlAnalysis
