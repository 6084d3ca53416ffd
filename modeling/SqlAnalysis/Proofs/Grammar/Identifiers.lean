import SqlAnalysis.Proofs.Grammar.Production
import SqlAnalysis.Proofs.Grammar.Rereading
import SqlAnalysis.Proofs.Syntax.Texts
import SqlAnalysis.Proofs.Token.Showable

/-!
# Identifiers read back

An identifier that was read, bare or between quotes of any kind, is written in such a way
that it is a single token again, and this token stands for the same name. Between double
quotes that holds of any name at all.
-/
namespace SqlAnalysis

/-- A text that is found by one scan, and is no bracket, lexes to just that token. -/
theorem Lexed.ofText_single {text : String} {c : Char} {more : List Char} {kind : TokenKind}
    (htext : text.toList = c :: more) (hscan : Scan.scan c more = Scan.token kind more.length)
    (hleft : kind ≠ .leftParen) (hright : kind ≠ .rightParen) :
    (ofText text).errors = [] ∧ ∃ t last, (ofText text).tokens = [t, last] ∧
      t.kind = kind ∧ last.kind = .eof := by
  obtain ⟨t, last, hlex, ht, hlast⟩ : ∃ t last,
      lexFrom 0 ⟨0, 0⟩ none (c :: more) = ([t, last], []) ∧ t.kind = kind ∧ last.kind = .eof := by
    rw [lexFrom]
    simp only [hscan, Scan.token, List.drop_length, lexFrom]
    exact ⟨_, _, rfl, rfl, rfl⟩
  have hfault : BracketFault.find [] none [t, last] = none := by
    simp [BracketFault.find, ht, hlast, hleft, hright]
  rw [ofText, htext, hlex]
  exact ⟨by simp [hfault], t, last, rfl, ht, hlast⟩

theorem Ident.word_ne (ident : Ident) :
    ident.word.isTrivia = false ∧ ident.word ≠ .eof := by
  rcases ident.word_cases with h | h | ⟨k, h⟩ <;> rw [h] <;> exact ⟨rfl, nofun⟩

theorem Ident.ofText_render (ident : Ident) : (Lexed.ofText ident.render).errors = [] ∧
    ∃ t last, (Lexed.ofText ident.render).tokens = [t, last] ∧
      t.kind = ident.word ∧ last.kind = .eof := by
  obtain ⟨c, more, htext, hscan⟩ := ident.exists_scan
  have hend := hscan [] (.nil _)
  rw [List.append_nil] at hend
  refine Lexed.ofText_single htext hend ?_ ?_ <;>
    rcases ident.word_cases with h | h | ⟨k, h⟩ <;> rw [h] <;> nofun

/-- What stands for a name can be shown again. -/
theorem TokenKind.isShowable_of_nameOf? {kind : TokenKind} {name : String × Bool}
    (h : Parser.nameOf? kind = some name) : kind.isShowable = true := by
  cases kind <;> first | rfl | cases h

namespace Parser

variable {source : String} {s s' : ParserState} {ident : Ident}

/-- An identifier has the name that the next token stands for. -/
theorem nameOf?_of_ident (h : Parser.ident.run s = (.ok ident, s')) :
    nameOf? s.current.kind = some (ident.name, ident.quoted) := by
  rw [ident_run] at h
  cases hname : nameOf? s.current.kind with
  | none =>
    rw [hname] at h
    cases h
  | some found =>
    rw [hname] at h
    cases h
    rfl

/-- What is read from the tokens of a text is read back from what it is written as. -/
theorem plain_of_ident (htokens : s.tokens ⊆ (Lexed.ofText source).tokens)
    (hfinal : s.final.kind = .eof) (h : Parser.ident.run s = (.ok ident, s')) : ident.Plain := by
  have hname := nameOf?_of_ident h
  have hmem : s.current ∈ s.tokens := by
    cases hs : s.tokens with
    | nil =>
      rw [ParserState.current, hs, List.headD_nil, hfinal] at hname
      cases hname
    | cons t ts =>
      rw [ParserState.current, hs]
      exact List.mem_cons_self
  have hplain : s.current.kind.Plain :=
    Lexed.plain_of_mem_ofText (htokens hmem) (TokenKind.isShowable_of_nameOf? hname)
  exact ident_plain hplain hname ident.span

end Parser

/-- An identifier that is read from the tokens of any text lexes without an error to one
token and the end, where an identifier with the same name is read. A name of any characters
between double quotes lexes to just that name. -/
theorem Ident.reads_back :
    (∀ (source : String) (s s' : ParserState) (ident : Ident),
      s.tokens ⊆ (Lexed.ofText source).tokens → s.final.kind = .eof →
      Parser.ident.run s = (.ok ident, s') →
      (Lexed.ofText ident.render).errors = [] ∧
      (∃ t last, (Lexed.ofText ident.render).significant = [t, last] ∧ t.kind ≠ .eof ∧
        last.kind = .eof) ∧
      ∃ again u, Parser.ident.run (.start (Lexed.ofText ident.render).tokens) = (.ok again, u) ∧
        u.tokens = [] ∧ again.name = ident.name) ∧
    ∀ (name : String) (span : Span),
      (Lexed.ofText (Ident.render ⟨name, true, span⟩)).errors = [] ∧
      (Lexed.ofText (Ident.render ⟨name, true, span⟩)).tokens.map Token.kind =
        [.quotedName name, .eof] := by
  constructor
  · intro source s s' ident htokens hfinal hrun
    have hplain := Parser.plain_of_ident htokens hfinal hrun
    obtain ⟨herrors, t, last, hlex, ht, hlast⟩ := ident.ofText_render
    have hword := ident.word_ne
    have heof : TokenKind.eof.isTrivia = false := rfl
    have hsignificant : [t, last].filter (fun t => !t.kind.isTrivia) = [t, last] := by
      simp [ht, hlast, hword.1, heof]
    refine ⟨herrors, ⟨t, last, ?_, ht ▸ hword.2, hlast⟩, ?_⟩
    · rw [Lexed.significant, hlex, hsignificant]
    · have hkinds : (ParserState.start (Lexed.ofText ident.render).tokens).kinds = [ident.word] := by
        simp [ParserState.kinds, ParserState.start, hlex, hsignificant, ht, hlast, hword.2]
      obtain ⟨again, u, hagain, hleft, hkept⟩ := Parser.ident_accepts hplain _ hkinds
      have hname : again.skeleton.name = ident.skeleton.name := congrArg Ident.name hkept.bare
      exact ⟨again, u, hagain, List.map_eq_nil_iff.mp hleft, hname⟩
  · intro name span
    obtain ⟨herrors, t, last, hlex, ht, hlast⟩ := Ident.ofText_render ⟨name, true, span⟩
    refine ⟨herrors, ?_⟩
    rw [hlex, List.map_cons, List.map_singleton, ht, hlast]
    rfl

/-- A name that was opened by a bracket and never closed, with a quote in it. -/
theorem Ident.reads_back_bracket :
    ∃ ident s', Parser.ident.run (.start (Lexed.ofText "[x \x22y").tokens) = (.ok ident, s') ∧
      (Lexed.ofText "[x \x22y").errors ≠ [] ∧ ident.render = "\x22x \x22\x22y\x22" ∧
      ∃ again u, Parser.ident.run (.start (Lexed.ofText ident.render).tokens) = (.ok again, u) ∧
        again.name = "x \x22y" := by
  let s := ParserState.start (Lexed.ofText "[x \x22y").tokens
  have htokens : s.tokens ⊆ (Lexed.ofText "[x \x22y").tokens :=
    (List.takeWhile_sublist _).trans List.filter_sublist |>.subset
  have hname : Parser.nameOf? s.current.kind = some ("x \x22y", true) := by decide +kernel
  have hrun : Parser.ident.run s = (.ok ⟨"x \x22y", true, s.current.span⟩, s.advance) := by
    rw [Parser.ident_run, hname]
  obtain ⟨-, -, again, u, hagain, -, hname⟩ :=
    reads_back.1 "[x \x22y" s s.advance _ htokens (by decide +kernel) hrun
  exact ⟨_, _, hrun, by decide +kernel, by decide +kernel, again, u, hagain, hname⟩

end SqlAnalysis
