import SqlAnalysis.Proofs.Diagnostic.Sinks
import SqlAnalysis.Proofs.Grammar.Lockstep
import SqlAnalysis.Proofs.Syntax.Likeness
import SqlAnalysis.Proofs.Token.Respelling

/-!
# Parsers on respelled tokens

No parser looks at how a name is spelled. Run on tokens that differ in the case of names
only, it reads as many of them and gives results that differ in the case of names only,
or it complains about the same.
-/
namespace SqlAnalysis

open Text

namespace TokenKind.Like

variable {kind kind' : TokenKind}

/-- A kind that is no name is like itself only. -/
theorem eq_iff (h : kind.Like kind') {wanted : TokenKind}
    (hwanted : Parser.isOwnName wanted = false) : kind = wanted ↔ kind' = wanted := by
  cases h with
  | refl => exact Iff.rfl
  | name _ =>
    constructor <;> (rintro rfl; cases hwanted)
  | quotedName _ =>
    constructor <;> (rintro rfl; cases hwanted)

theorem isOwnName_eq (h : kind.Like kind') : Parser.isOwnName kind = Parser.isOwnName kind' := by
  cases h <;> rfl

theorem isNameStart_eq (h : kind.Like kind') :
    Parser.isNameStart kind = Parser.isNameStart kind' := by
  cases h <;> rfl

theorem isStatementStart_eq (h : kind.Like kind') :
    kind.isStatementStart = kind'.isStatementStart := by
  cases h <;> rfl

theorem literalOf?_eq (h : kind.Like kind') :
    Parser.literalOf? kind = Parser.literalOf? kind' := by
  cases h <;> rfl

theorem ofTokens?_eq (h : kind.Like kind') {next next' : TokenKind} (hnext : next.Like next') :
    BinaryOperator.ofTokens? kind next = BinaryOperator.ofTokens? kind' next' := by
  cases h with
  | refl kind =>
    cases hnext with
    | refl => rfl
    | name _ =>
      cases kind with
      | keyword word => cases word <;> rfl
      | _ => rfl
    | quotedName _ =>
      cases kind with
      | keyword word => cases word <;> rfl
      | _ => rfl
  | name _ => rfl
  | quotedName _ => rfl

/-- The names that the tokens can stand for. -/
theorem nameOf?_like (h : kind.Like kind') :
    Option.Rel (fun a b : String × Bool => foldCase a.1 = foldCase b.1 ∧ a.2 = b.2)
      (Parser.nameOf? kind) (Parser.nameOf? kind') := by
  cases h with
  | refl kind =>
    cases Parser.nameOf? kind with
    | none => exact .none
    | some _ => exact .some ⟨rfl, rfl⟩
  | name hname => exact .some ⟨hname, rfl⟩
  | quotedName hname => exact .some ⟨hname, rfl⟩

end TokenKind.Like

namespace ParserState

/-- The same is left to be read, up to the case of names. Hints are not looked at. -/
structure Like (s s' : ParserState) : Prop where
  tokens : List.Forall₂ Token.Like s.tokens s'.tokens
  final : s.final.Like s'.final
  lastSpan : s.lastSpan = s'.lastSpan

namespace Like

variable {s s' : ParserState}

theorem current (h : s.Like s') : s.current.Like s'.current := by
  have htokens := h.tokens
  unfold ParserState.current
  generalize s.tokens = tokens at htokens
  generalize s'.tokens = tokens' at htokens
  cases htokens with
  | nil => exact h.final
  | cons ht _ => exact ht

theorem kindAt (h : s.Like s') (n : Nat) : (s.kindAt n).Like (s'.kindAt n) := by
  have hfound := forall₂_getElem? h.tokens n
  unfold ParserState.kindAt
  generalize s.tokens[n]? = found at hfound
  generalize s'.tokens[n]? = found' at hfound
  cases hfound with
  | none => exact .refl _
  | some ht => exact ht.kind

theorem advance (h : s.Like s') : s.advance.Like s'.advance := by
  obtain ⟨tokens, final, lastSpan, lastStop, hints⟩ := s
  obtain ⟨tokens', final', lastSpan', lastStop', hints'⟩ := s'
  obtain ⟨htokens, hfinal, hlastSpan⟩ := h
  cases htokens with
  | nil => exact ⟨.nil, hfinal, hlastSpan⟩
  | cons ht hts => exact ⟨hts, hfinal, ht.span⟩

theorem withHints (h : s.Like s') (hints hints' : List Hint) :
    ({ s with hints := hints } : ParserState).Like { s' with hints := hints' } :=
  ⟨h.tokens, h.final, h.lastSpan⟩

theorem expected (h : s.Like s') (what : String) : (s.expected what).Like (s'.expected what) :=
  ⟨rfl, rfl, congrArg₂ Range.mk h.current.start h.current.stop⟩

end Like
end ParserState

open ParserState

/-- The results are alike, or the complaints are about the same. -/
inductive OutcomeLike {α : Type} (R : α → α → Prop) :
    Except Diagnostic α → Except Diagnostic α → Prop
  | ok {a a' : α} (h : R a a') : OutcomeLike R (.ok a) (.ok a')
  | error {d d' : Diagnostic} (h : d.Like d') : OutcomeLike R (.error d) (.error d')

namespace Parser

variable {α β : Type} {R : α → α → Prop} {S : β → β → Prop}

/-- Whether two parsers, run on alike states, end alike. -/
def Alike (p p' : Parser α) (R : α → α → Prop) : Prop :=
  ∀ ⦃s s' : ParserState⦄, s.Like s' →
    OutcomeLike R (p.run s).1 (p'.run s').1 ∧ (p.run s).2.Like (p'.run s').2

namespace Alike

variable {p p' : Parser α} {f f' : α → Parser β}

theorem pure {a a' : α} (h : R a a') : Alike (pure a) (pure a') R :=
  fun _ _ hs => ⟨.ok h, hs⟩

theorem throw {d d' : Diagnostic} (h : d.Like d') :
    Alike (throw d : Parser α) (throw d' : Parser α) R :=
  fun _ _ hs => ⟨.error h, hs⟩

theorem bind (hp : Alike p p' R) (hf : ∀ a a', R a a' → Alike (f a) (f' a') S) :
    Alike (p >>= f) (p' >>= f') S := by
  intro s s' hs
  have hrun := hp hs
  rw [run_bind, run_bind]
  generalize p.run s = r at hrun
  generalize p'.run s' = r' at hrun
  obtain ⟨result, u⟩ := r
  obtain ⟨result', u'⟩ := r'
  obtain ⟨hresult, hafter⟩ := hrun
  cases hresult with
  | error hd => exact ⟨.error hd, hafter⟩
  | ok ha => exact hf _ _ ha hafter

/-- Looks at states that are alike. -/
theorem view {f f' : ParserState → Parser β}
    (hf : ∀ s s' : ParserState, s.Like s' → Alike (f s) (f' s') S) :
    Alike (get >>= f) (get >>= f') S :=
  fun s s' hs => hf s s' hs hs

/-- Hints are not looked at. -/
theorem under (h h' : Hint) (hp : Alike p p' R) :
    Alike (under h p) (Parser.under h' p') R := by
  intro s s' hs
  obtain ⟨hresult, hafter⟩ := hp (hs.withHints [] [])
  exact ⟨hresult, hafter.withHints _ _⟩

end Alike

/-! ### Tokens -/

theorem current_alike : Alike current current Token.Like :=
  fun _ _ hs => ⟨.ok hs.current, hs⟩

theorem peekAt_alike (n : Nat) : Alike (peekAt n) (peekAt n) TokenKind.Like :=
  fun _ _ hs => ⟨.ok (hs.kindAt n), hs⟩

theorem peek_alike : Alike peek peek TokenKind.Like :=
  peekAt_alike 0

theorem advance_alike : Alike advance advance Token.Like :=
  fun _ _ hs => ⟨.ok hs.current, hs.advance⟩

theorem failExpected_alike (what : String) :
    Alike (failExpected what : Parser α) (failExpected what : Parser α) R :=
  .view fun _ _ hs => .throw (hs.expected what)

theorem check_alike {kind : TokenKind} (hkind : isOwnName kind = false) :
    Alike (check kind) (check kind) Eq :=
  peek_alike.bind fun _ _ hlike => .pure (decide_eq_decide.mpr (hlike.eq_iff hkind))

theorem eat_alike {kind : TokenKind} (hkind : isOwnName kind = false) :
    Alike (eat kind) (eat kind) Eq := by
  apply (check_alike hkind).bind
  rintro found _ rfl
  split
  · exact advance_alike.bind fun _ _ _ => .pure rfl
  · exact .pure rfl

theorem eatWord_alike (word : Keyword) : Alike (eatWord word) (eatWord word) Eq :=
  eat_alike rfl

theorem expect_alike {kind : TokenKind} (hkind : isOwnName kind = false) (what : String) :
    Alike (expect kind what) (expect kind what) Token.Like := by
  apply (check_alike hkind).bind
  rintro found _ rfl
  split
  · exact advance_alike
  · exact failExpected_alike what

theorem expectWord_alike (word : Keyword) : Alike (expectWord word) (expectWord word) Token.Like :=
  expect_alike rfl _

theorem spanFrom_alike (start : Span) : Alike (spanFrom start) (spanFrom start) Eq :=
  .view fun s s' hs => .pure (by rw [hs.lastSpan])

/-! ### Repetition -/

section

variable {p p' : Parser α}

theorem manyUpTo_alike {p p' : Parser (Option α)} (hp : Alike p p' (Option.Rel R)) (n : Nat) :
    Alike (manyUpTo p n) (manyUpTo p' n) (List.Forall₂ R) := by
  induction n with
  | zero => exact .pure .nil
  | succ n ih =>
    apply hp.bind
    intro a? a?' ha
    cases ha with
    | none => exact .pure .nil
    | some ha => exact ih.bind fun _ _ has => .pure (.cons ha has)

theorem many_alike {p p' : Parser (Option α)} (hp : Alike p p' (Option.Rel R)) :
    Alike (many p) (many p') (List.Forall₂ R) := by
  refine .view fun s s' hs => ?_
  rw [hs.tokens.length_eq]
  exact manyUpTo_alike hp _

theorem after_alike {kind : TokenKind} (hkind : isOwnName kind = false) (hp : Alike p p' R) :
    Alike (after kind p) (after kind p') (Option.Rel R) := by
  apply (eat_alike hkind).bind
  rintro found _ rfl
  split
  · exact hp.bind fun _ _ ha => .pure (.some ha)
  · exact .pure .none

theorem afterWord_alike (word : Keyword) (hp : Alike p p' R) :
    Alike (afterWord word p) (afterWord word p') (Option.Rel R) :=
  after_alike rfl hp

theorem commaSeparated_alike (hp : Alike p p' R) :
    Alike (commaSeparated p) (commaSeparated p') (List.Forall₂ R) := by
  apply hp.bind
  intro first first' hfirst
  apply (many_alike (after_alike rfl hp)).bind
  exact fun _ _ hrest => .pure (.cons hfirst hrest)

theorem unlessClosing_alike {p p' : Parser (List α)} (hp : Alike p p' (List.Forall₂ R)) :
    Alike (unlessClosing p) (unlessClosing p') (List.Forall₂ R) := by
  apply (check_alike rfl).bind
  rintro closing _ rfl
  split
  · exact .pure .nil
  · exact hp

end

/-! ### Hints and names -/

/-- What a hint offers is not compared. -/
def AnyHints (_ _ : Hint) : Prop := True

theorem hint_alike : Alike hint hint AnyHints :=
  .view fun _ _ _ => .pure trivial

theorem columnsHint_alike (keywords : List String) :
    Alike (columnsHint keywords) (columnsHint keywords) AnyHints :=
  hint_alike.bind fun _ _ _ => .pure trivial

theorem tablesHint_alike : Alike tablesHint tablesHint AnyHints :=
  hint_alike.bind fun _ _ _ => .pure trivial

theorem columnsOfHint_alike (table table' : Ident) :
    Alike (columnsOfHint table) (columnsOfHint table') AnyHints :=
  hint_alike.bind fun _ _ _ => .pure trivial

theorem keywordsHint_alike (keywords : List String) :
    Alike (keywordsHint keywords) (keywordsHint keywords) AnyHints :=
  hint_alike.bind fun _ _ _ => .pure trivial

/-- What is read under a hint. -/
theorem Alike.underHint {h h' : Parser Hint} (hh : Alike h h' AnyHints) {p p' : Parser α}
    (hp : Alike p p' R) :
    Alike (do Parser.under (← h) p) (do Parser.under (← h') p') R :=
  hh.bind fun _ _ _ => hp.under _ _

theorem ident_alike : Alike ident ident Ident.Like := by
  apply current_alike.bind
  intro t t' ht
  have hname := ht.kind.nameOf?_like
  generalize nameOf? t.kind = name at hname
  generalize nameOf? t'.kind = name' at hname
  cases hname with
  | none => exact failExpected_alike _
  | @some name name' hname =>
    obtain ⟨name, quoted⟩ := name
    obtain ⟨name', quoted'⟩ := name'
    exact advance_alike.bind fun _ _ _ => .pure ⟨hname.1, hname.2, ht.span⟩

theorem identList_alike : Alike identList identList (List.Forall₂ Ident.Like) := by
  apply (expect_alike rfl _).bind
  intro _ _ _
  apply (commaSeparated_alike ident_alike).bind
  intro idents idents' hidents
  exact (expect_alike rfl _).bind fun _ _ _ => .pure hidents

theorem alias?_alike : Alike alias? alias? (Option.Rel Ident.Like) := by
  have hsome : Alike (do return some (← ident)) (do return some (← ident))
      (Option.Rel Ident.Like) :=
    ident_alike.bind fun _ _ hident => .pure (.some hident)
  apply (eatWord_alike .AS).bind
  rintro found _ rfl
  split
  · exact hsome
  · apply peek_alike.bind
    intro kind kind' hkind
    rw [hkind.isOwnName_eq]
    split
    · exact hsome
    · exact .pure .none

end Parser
end SqlAnalysis
