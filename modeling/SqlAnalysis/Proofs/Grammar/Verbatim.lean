import SqlAnalysis.Proofs.Grammar.CutStatements
import SqlAnalysis.Proofs.Grammar.RereadStatements

/-!
# Statements read from their own text

The text under the span of a statement is a script of this statement alone, shifted to the
left, whatever stood around it. For a statement of which the canonical text is what was
written, that text is therefore read as the same statement and is its own canonical text.
-/
namespace SqlAnalysis

open ParserState

/-- Whether the canonical text of a statement is what was written. -/
def StatementBody.isVerbatim : StatementBody → Bool
  | .select _ | .update _ | .delete _ | .alterTable _ | .dropTable _ => true
  | .insert _ | .createTable _ => false

theorem StatementBody.isVerbatim_shift (n : Nat) (body : StatementBody) :
    (body.shift n).isVerbatim = body.isVerbatim := by
  cases body <;> rfl

/-- A statement without the comment in front of it. -/
def Statement.uncommented (s : Statement) : Statement :=
  { s with leadingComment := none }

namespace Parser

variable {n : Nat} {behind : List Token} {c : Prop} {s s' u : ParserState} {a b : Statement}

/-- A statement of which the comment in front is left out. -/
def bareStatement : Parser Statement := do
  return (← statement).uncommented

theorem bareStatement_run (hrun : statement.run s = (.ok a, u)) :
    bareStatement.run s = (.ok a.uncommented, u) := by
  rw [bareStatement, run_bind, hrun]
  rfl

theorem exists_run_of_bareStatement (hrun : bareStatement.run s = (.ok b, u)) :
    ∃ a, statement.run s = (.ok a, u) ∧ a.uncommented = b := by
  rcases hr : statement.run s with ⟨_ | a, v⟩
  · rw [bareStatement, run_bind, hr] at hrun
    cases hrun
  · rw [bareStatement_run hr] at hrun
    cases hrun
    exact ⟨a, rfl, rfl⟩

theorem bareStatement_cuts :
    Cuts n behind c (Statement.shift n) bareStatement bareStatement := by
  have hsplit : bareStatement = do
      let first ← current
      let body ← statementBody
      return ⟨body, ← spanFrom first.span, none⟩ := by
    simp [bareStatement, statement, Statement.uncommented]
  have hconsumes : Consumes bareStatement := fun s => (statement_consumes s).map fun _ _ => id
  rw [hsplit] at hconsumes ⊢
  exact .first hconsumes fun _ _ => .bind statementBody_cuts fun _ _ =>
    .spanFrom (fun hc => hc.1.2.span) fun _ _ => .pure fun hc => by simp [Statement.shift, hc]

/-- The comment of a statement is that of its first token. -/
theorem leadingComment_of_run (hrun : statement.run s = (.ok a, u)) :
    a.leadingComment = s.current.leadingComment := by
  have hcurrent : current.run s = (.ok s.current, s) := rfl
  rw [statement, run_bind, hcurrent] at hrun
  dsimp only at hrun
  rw [run_bind] at hrun
  rcases hbody : statementBody.run s with ⟨_ | body, v⟩
  · rw [hbody] at hrun
    cases hrun
  · rw [hbody] at hrun
    cases hrun
    rfl

end Parser

namespace Statement.IsRead

variable {statement : Statement} {piece : List Token}

theorem finished : statement.IsRead piece → Finished piece
  | .mk final _ took run => by
    have hcuts : Parser.Cuts 0 [] True (Statement.shift 0) Parser.bareStatement
        Parser.bareStatement := Parser.bareStatement_cuts
    obtain ⟨read, htook, hread⟩ := hcuts.closes _ final _ _ (Parser.bareStatement_run run)
    obtain rfl : piece = read := List.append_cancel_right (took.tokens.symm.trans htook.tokens)
    exact hread

/-- What was read before makes no difference. -/
theorem exists_run (h : statement.IsRead piece) (span : Span) :
    ∃ s u : ParserState, s.final.kind = .eof ∧ s.lastSpan = span ∧ s.tokens = piece ++ u.tokens ∧
      Parser.statement.run s = (.ok statement, u) := by
  obtain @⟨s, u, final, -, took, run⟩ := h
  let fresh : ParserState := { s with lastSpan := span }
  have hextends : Extends [] s fresh := ⟨nofun, (List.append_nil _).symm, final, final⟩
  have hagree := Parser.statement_agree hextends
  rw [Parser.Agree, run] at hagree
  rcases hrun : Parser.statement.run fresh with ⟨result, v⟩
  rw [hrun] at hagree
  cases hagree with
  | @ok _ read _ _ hu hv _ =>
    obtain rfl : piece = read := List.append_cancel_right (took.tokens.symm.trans hu.tokens)
    exact ⟨fresh, v, final, rfl, hv.tokens, hrun⟩

/-- Where nothing but the piece is left, the statement is read from it, shifted to the left. -/
theorem rerun (h : statement.IsRead piece) {n : Nat} {s' : ParserState}
    (hfinal' : s'.final.kind = .eof) (hlast' : s'.lastSpan = Span.zero)
    (hshifts : List.Forall₂ (Token.Shifts n) piece s'.tokens) :
    ∃ t u, Parser.statement.run s' = (.ok t, u) ∧ u.tokens = [] ∧
      statement.uncommented = t.uncommented.shift n := by
  obtain ⟨s, u, hfinal, hlast, htokens, hrun⟩ := h.exists_run (Span.zero.shift n)
  have hcut : Cut n u.tokens s s' := ⟨⟨piece, htokens, hshifts⟩, by rw [hlast, hlast'],
    hfinal, hfinal'⟩
  obtain ⟨b, u', hb, hmoved, hcut'⟩ := Parser.bareStatement_cuts.run trivial s s' _ u hcut
    (Parser.bareStatement_run hrun) (Nat.le_refl _)
  obtain ⟨t, ht, rfl⟩ := Parser.exists_run_of_bareStatement hb
  have hlength := hcut'.length_eq
  exact ⟨t, u', ht, List.eq_nil_of_length_eq_zero (by omega), hmoved⟩

end Statement.IsRead

namespace Lexed

/-- No comment stands in front of what begins a text. -/
theorem leadingComment_of_start {source : String} {t : Token} (ht : t ∈ (ofText source).tokens)
    (hstart : t.span.start = 0) : t.leadingComment = none := by
  change t ∈ (lexFrom 0 ⟨0, 0⟩ none source.toList).1 at ht
  cases hchars : source.toList with
  | nil =>
    rw [hchars, lexFrom] at ht
    rw [List.mem_singleton.mp ht]
  | cons c cs =>
    rw [hchars, lexFrom] at ht
    -- All behind the first token begins after at least one character.
    have hlater : ∀ {here pending},
        t ∉ (lexFrom (0 + Text.byteLength (c :: cs.take (Scan.scan c cs).extra)) here pending
          (cs.drop (Scan.scan c cs).extra)).1 := by
      intro here pending hmem
      have hle := (scanned_lexFrom _ here pending _).le_start t hmem
      have := c.utf8Size_pos
      rw [Text.byteLength_cons] at hle
      omega
    dsimp only at ht
    split at ht
    · exact absurd ht hlater
    · rcases List.mem_cons.mp ht with rfl | ht
      · exact ite_self none
      · exact absurd ht hlater

/-- No comment stands in front of a piece in the text it covers. -/
theorem leadingComment_of_shifts {text : String} {span : Span} {piece : List Token}
    (hcovers : span.Covers piece)
    (hshifts : List.Forall₂ (Token.Shifts span.start) piece (words text)) :
    (ParserState.start (ofText text).tokens).current.leadingComment = none := by
  obtain ⟨first, hfirst, last, -, rfl⟩ := hcovers
  obtain ⟨rest, rfl⟩ := List.head?_eq_some_iff.mp hfirst
  obtain ⟨head, more, hhead, -, hwords⟩ := List.forall₂_cons_left_iff.mp hshifts
  have hmem : head ∈ words text := hwords ▸ List.mem_cons_self
  have hstart : first.span.start = head.span.start + first.span.start :=
    congrArg Span.start hhead.span
  rw [ParserState.current, ← words, hwords, List.headD_cons]
  exact leadingComment_of_start ((tokens_start_sublist _).subset hmem) (by omega)

end Lexed

namespace Script

theorem exists_hints_of_skipGap (separated : Bool) {s : ParserState}
    (h : s.current.kind ≠ .semicolon) : ∃ hints, skipGap separated s = { s with hints := hints } := by
  unfold skipGap
  rw [skipWhile_of_current h]
  split
  · exact ⟨_, rfl⟩
  · exact ⟨s.hints, rfl⟩

/-- Tokens that are a piece alone give its statement alone. -/
theorem ofTokens_of_shifts {statement : Statement} {piece tokens : List Token} {n : Nat}
    (hread : statement.IsRead piece)
    (hshifts : List.Forall₂ (Token.Shifts n) piece (ParserState.start tokens).tokens) :
    (ofTokens tokens).errors = [] ∧ ∃ t, (ofTokens tokens).statements = [t] ∧
      statement.uncommented = t.uncommented.shift n ∧
        t.leadingComment = (ParserState.start tokens).current.leadingComment := by
  obtain ⟨first, hfirst, hkind⟩ := hread.exists_first
  obtain ⟨rest, rfl⟩ := List.head?_eq_some_iff.mp hfirst
  obtain ⟨head, more, hhead, -, htokens⟩ := List.forall₂_cons_left_iff.mp hshifts
  have hstart : (ParserState.start tokens).current.kind.isStatementStart = true := by
    rw [ParserState.current, htokens, List.headD_cons, ← hhead.kind, hkind]
  have hsemicolon : (ParserState.start tokens).current.kind ≠ .semicolon := by
    intro heq
    rw [heq] at hstart
    cases hstart
  obtain ⟨hints, hready⟩ := exists_hints_of_skipGap true hsemicolon
  have hfinal : (skipGap true (ParserState.start tokens)).final.kind = .eof := by
    rw [hready]
    exact final_start tokens
  obtain ⟨t, u, hrun, hleft, hmoved⟩ :=
    hread.rerun hfinal (by rw [hready]; rfl) (by rw [hready]; exact hshifts)
  have hone := ofTokens_of_run (by simp [hready, htokens]) (by rw [hready]; exact hstart) hrun hleft
  refine ⟨hone.2, t, hone.1, hmoved, ?_⟩
  rw [Parser.leadingComment_of_run hrun, hready]
  rfl

end Script

namespace Statement

variable {source : String} {s : Statement}

/-- In the text under its span the grammar finds a statement alone, and no mistake. -/
theorem slice_reads_back (hs : s ∈ (Script.ofTokens (Lexed.ofText source).tokens).statements) :
    let text := s.span.slice source
    let script := Script.ofTokens (Lexed.ofText text).tokens
    script.errors = [] ∧ ∃ t, script.statements = [t] ∧ t.shift s.span.start = s.uncommented ∧
      t.span = ⟨0, Text.byteSize text⟩ := by
  intro text script
  obtain ⟨before, piece, behind, hwords, hread⟩ := Script.exists_read source hs
  have horder : InOrder piece := (hwords ▸ Lexed.inOrder_words source).left.right
  have hcovers := hread.fills.covers horder
  obtain ⟨hstop, hshifts⟩ := Lexed.words_slice hwords hcovers hread.finished
  obtain ⟨herrors, t, hstatements, hmoved, hcomment⟩ := Script.ofTokens_of_shifts hread hshifts
  have hbare : t.uncommented = t := by
    rw [Lexed.leadingComment_of_shifts hcovers hshifts] at hcomment
    rw [uncommented, ← hcomment]
  rw [hbare] at hmoved
  refine ⟨herrors, t, hstatements, hmoved.symm, ?_⟩
  have hspan : s.span = t.span.shift s.span.start := congrArg Statement.span hmoved
  have hstart : s.span.start = t.span.start + s.span.start := congrArg Span.start hspan
  have hend : s.span.stop = t.span.stop + s.span.start := congrArg Span.stop hspan
  have hbegin : t.span.start = 0 := by omega
  have hsize : t.span.stop = Text.byteSize text := by
    have hlength : s.span.stop = s.span.start + Text.byteSize text := hstop
    omega
  rw [← hbegin, ← hsize]

theorem canonical_of_isVerbatim (hbody : s.body.isVerbatim = true) (text : String)
    (catalog : Option Catalog) : s.canonical text catalog = s.span.slice text := by
  unfold canonical
  split
  · next h => rw [h] at hbody; cases hbody
  · next h => rw [h] at hbody; cases hbody
  · rfl

/-- The canonical text of a query, of an update or a deletion, or of an altered or dropped
table is read as this statement alone, without a complaint of the grammar and whatever stood
around it in its source. All its spans are shifted to the beginning, the comment in front of
it is left out, and its canonical text is that text again. -/
theorem canonical_reads_verbatim (source : String)
    (hs : s ∈ (Script.ofTokens (Lexed.ofText source).tokens).statements)
    (hbody : s.body.isVerbatim = true) (catalog : Option Catalog) :
    let text := s.canonical source catalog
    let script := Script.ofTokens (Lexed.ofText text).tokens
    script.errors = [] ∧ ∃ t, script.statements = [t] ∧
      t.shift s.span.start = { s with leadingComment := none } ∧
        ∀ catalog', t.canonical text catalog' = text := by
  intro text script
  have htext : text = s.span.slice source := canonical_of_isVerbatim hbody source catalog
  obtain ⟨herrors, t, hstatements, hmoved, hspan⟩ := slice_reads_back hs
  rw [← htext] at herrors hstatements hspan
  refine ⟨herrors, t, hstatements, hmoved, fun catalog' => ?_⟩
  have hsame : t.body.shift s.span.start = s.body := congrArg Statement.body hmoved
  have hverbatim : t.body.isVerbatim = true := by rw [← StatementBody.isVerbatim_shift, hsame, hbody]
  rw [canonical_of_isVerbatim hverbatim, hspan, Span.slice_self]

/-- A query before which a statement fails and behind which a semicolon is missing. -/
theorem canonical_reads_verbatim_between :
    let source := "INSERT x; /* one */ SELECT a # FROM t DROP TABLE t"
    let script := Script.ofTokens (Lexed.ofText source).tokens
    script.errors.length = 2 ∧ ∃ s ∈ script.statements, s.body.isVerbatim = true ∧
      s.leadingComment.isSome = true ∧
        let text := s.canonical source none
        let script := Script.ofTokens (Lexed.ofText text).tokens
        script.errors = [] ∧ ∃ t, script.statements = [t] ∧
          t.shift s.span.start = { s with leadingComment := none } ∧
            ∀ catalog', t.canonical text catalog' = text := by
  intro source script
  have hfirst : ∃ s ∈ script.statements.head?, s.body.isVerbatim = true ∧
      s.leadingComment.isSome = true := by decide +kernel
  obtain ⟨s, hs, hbody, hcomment⟩ := hfirst
  have hs := List.mem_of_mem_head? hs
  exact ⟨by decide +kernel, s, hs, hbody, hcomment, canonical_reads_verbatim source hs hbody none⟩

end Statement
end SqlAnalysis
