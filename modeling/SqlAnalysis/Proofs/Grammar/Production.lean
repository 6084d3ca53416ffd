import SqlAnalysis.Proofs.Grammar.Isolation
import SqlAnalysis.Proofs.Syntax.Construction

/-!
# What parsers give

A single run of a parser on plain tokens leaves plain tokens, and what it gives has a
property. That is proved of the parsers of the grammar from the inside out: whatever
builds trees holds of everything that is read.
-/
namespace SqlAnalysis

/-- Whether all tokens that are left are plain. -/
structure ParserState.Plain (s : ParserState) : Prop where
  tokens : ∀ t ∈ s.tokens, t.kind.Plain
  final : s.final.kind = .eof

namespace ParserState.Plain

variable {s : ParserState}

theorem current (h : s.Plain) : s.current.kind.Plain := by
  unfold ParserState.current
  cases hs : s.tokens with
  | nil =>
    simp only [List.headD_nil, h.final]
    trivial
  | cons t ts => exact h.tokens t (by simp [hs])

theorem kindAt (h : s.Plain) (n : Nat) : (s.kindAt n).Plain := by
  unfold ParserState.kindAt
  split
  · next t ht => exact h.tokens t (List.mem_of_getElem? ht)
  · trivial

theorem advance (h : s.Plain) : s.advance.Plain := by
  unfold ParserState.advance
  split
  · exact h
  · next t ts hts =>
    refine ⟨fun u hu => h.tokens u ?_, h.final⟩
    rw [hts]
    exact List.mem_cons_of_mem t hu

theorem took {read : List Token} {s' : ParserState} (h : s.Plain) (htook : s.Took read s') :
    s'.Plain := by
  refine ⟨fun t ht => h.tokens t ?_, by rw [htook.final, h.final]⟩
  rw [htook.tokens]
  exact List.mem_append_right read ht

end ParserState.Plain

namespace Parser

/-- Whether a parser keeps the tokens plain and what it gives has a property. -/
def Gives {α : Type} (p : Parser α) (Q : α → Prop) : Prop :=
  ∀ s : ParserState, s.Plain → (p.run s).2.Plain ∧ ∀ a, (p.run s).1 = .ok a → Q a

namespace Gives

variable {α β : Type} {p : Parser α} {f : α → Parser β} {Q : α → Prop} {R : β → Prop}

theorem pure {a : α} (h : Q a) : Gives (pure a) Q := by
  intro s hs
  refine ⟨hs, ?_⟩
  rintro _ ⟨⟩
  exact h

theorem bind (hp : Gives p Q) (hf : ∀ a, Q a → Gives (f a) R) : Gives (p >>= f) R := by
  intro s hs
  obtain ⟨hleft, hgives⟩ := hp s hs
  rw [run_bind]
  rcases hrun : p.run s with ⟨_ | a, u⟩
  · rw [hrun] at hleft
    exact ⟨hleft, fun _ h => nomatch h⟩
  · rw [hrun] at hleft hgives
    exact hf a (hgives a rfl) u hleft

theorem mono (h : Gives p Q) {Q' : α → Prop} (himp : ∀ a, Q a → Q' a) : Gives p Q' :=
  fun s hs => ⟨(h s hs).1, fun a ha => himp a ((h s hs).2 a ha)⟩

theorem fail (what : String) : Gives (failExpected what : Parser α) Q :=
  fun _ hs => ⟨hs, fun _ h => nomatch h⟩

/-- A parser that only looks at the state. -/
theorem get {f : ParserState → Parser β} (hf : ∀ s, Gives (f s) R) : Gives (get >>= f) R :=
  fun s hs => hf s s hs

theorem ite {b : Prop} [Decidable b] {p p' : Parser α} (h : Gives p Q) (h' : Gives p' Q) :
    Gives (if b then p else p') Q := by
  split <;> assumption

end Gives

section

variable {α β : Type} {p : Parser α} {P : α → Prop}

theorem current_gives : Gives current fun t => t.kind.Plain := by
  intro s hs
  refine ⟨hs, ?_⟩
  rintro _ ⟨⟩
  exact hs.current

theorem peekAt_gives (n : Nat) : Gives (peekAt n) TokenKind.Plain := by
  intro s hs
  refine ⟨hs, ?_⟩
  rintro _ ⟨⟩
  exact hs.kindAt n

theorem peek_gives : Gives peek TokenKind.Plain := peekAt_gives 0

theorem advance_gives : Gives advance fun t => t.kind.Plain := by
  intro s hs
  refine ⟨hs.advance, ?_⟩
  rintro _ ⟨⟩
  exact hs.current

theorem check_gives (kind : TokenKind) : Gives (check kind) fun _ => True :=
  peek_gives.bind fun _ _ => .pure trivial

theorem eat_gives (kind : TokenKind) : Gives (eat kind) fun _ => True :=
  (check_gives kind).bind fun _ _ =>
    .ite (advance_gives.bind fun _ _ => .pure trivial) (.pure trivial)

theorem expect_gives (kind : TokenKind) (what : String) : Gives (expect kind what) fun _ => True :=
  (check_gives kind).bind fun _ _ => .ite (advance_gives.mono fun _ _ => trivial) (.fail what)

theorem spanFrom_gives (start : Span) : Gives (spanFrom start) fun _ => True :=
  .get fun _ => .pure trivial

theorem hint_gives : Gives hint fun _ => True :=
  .get fun _ => .pure trivial

theorem columnsHint_gives (keywords : List String) : Gives (columnsHint keywords) fun _ => True :=
  hint_gives.bind fun _ _ => .pure trivial

theorem tablesHint_gives : Gives tablesHint fun _ => True :=
  hint_gives.bind fun _ _ => .pure trivial

theorem columnsOfHint_gives (table : Ident) : Gives (columnsOfHint table) fun _ => True :=
  hint_gives.bind fun _ _ => .pure trivial

theorem keywordsHint_gives (keywords : List String) :
    Gives (keywordsHint keywords) fun _ => True :=
  hint_gives.bind fun _ _ => .pure trivial

theorem under_gives (h : Hint) (hp : Gives p P) : Gives (under h p) P := by
  intro s hs
  obtain ⟨hleft, hgives⟩ := hp { s with hints := [] } ⟨hs.tokens, hs.final⟩
  exact ⟨⟨hleft.tokens, hleft.final⟩, hgives⟩

theorem manyUpTo_gives {p : Parser (Option α)} (hp : Gives p fun o => ∀ a ∈ o, P a) (n : Nat) :
    Gives (manyUpTo p n) fun as => ∀ a ∈ as, P a := by
  induction n with
  | zero => exact .pure (by simp)
  | succ n ih =>
    refine hp.bind fun o ho => ?_
    cases o with
    | none => exact .pure (by simp)
    | some a =>
      refine ih.bind fun as has => .pure ?_
      exact List.forall_mem_cons.mpr ⟨ho a rfl, has⟩

theorem many_gives {p : Parser (Option α)} (hp : Gives p fun o => ∀ a ∈ o, P a) :
    Gives (many p) fun as => ∀ a ∈ as, P a :=
  .get fun _ => manyUpTo_gives hp _

theorem after_gives (kind : TokenKind) (hp : Gives p P) :
    Gives (after kind p) fun o => ∀ a ∈ o, P a := by
  refine (eat_gives kind).bind fun _ _ => .ite ?_ (.pure (by simp))
  exact hp.bind fun a ha => .pure (by simpa using ha)

theorem afterWord_gives (word : Keyword) (hp : Gives p P) :
    Gives (afterWord word p) fun o => ∀ a ∈ o, P a :=
  after_gives _ hp

theorem atWord_gives (word : Keyword) (hp : Gives p P) :
    Gives (atWord word p) fun o => ∀ a ∈ o, P a := by
  refine (check_gives _).bind fun _ _ => .ite ?_ (.pure (by simp))
  exact hp.bind fun a ha => .pure (by simpa using ha)

theorem commaSeparated_gives (hp : Gives p P) :
    Gives (commaSeparated p) fun as => as ≠ [] ∧ ∀ a ∈ as, P a := by
  refine hp.bind fun a ha => (many_gives (after_gives .comma hp)).bind fun as has => .pure ?_
  exact ⟨List.cons_ne_nil a as, List.forall_mem_cons.mpr ⟨ha, has⟩⟩

theorem unlessClosing_gives {p : Parser (List α)} (hp : Gives p fun as => ∀ a ∈ as, P a) :
    Gives (unlessClosing p) fun as => ∀ a ∈ as, P a :=
  (check_gives _).bind fun _ _ => .ite (.pure (by simp)) hp

end

/-! ### Names and literals -/

/-- A keyword is recognized in small letters. -/
theorem ofWord?_foldCase (word : Keyword) :
    Keyword.ofWord? (Text.foldCase word.spelling) = some word := by
  have hall : ∀ k ∈ Keyword.all, Keyword.ofWord? (Text.foldCase k.spelling) = some k := by
    decide +kernel
  exact hall word word.mem_all

theorem ident_plain {kind : TokenKind} {name : String} {quoted : Bool} (hkind : kind.Plain)
    (h : nameOf? kind = some (name, quoted)) (span : Span) : Ident.Plain ⟨name, quoted, span⟩ := by
  unfold Ident.Plain Ident.word
  cases hquoted : Ident.writtenQuoted ⟨name, quoted, span⟩ with
  | true => rfl
  | false =>
    have hplain : quoted = false := by
      simp only [Ident.writtenQuoted, Bool.or_eq_false_iff] at hquoted
      exact hquoted.1
    subst hplain
    simp only [Bool.false_eq_true, if_false]
    cases kind with
    | name text =>
      obtain rfl : text = name := by simpa [nameOf?] using h
      rw [show Scan.wordKind text.toList = .name text from hkind.2]
      rfl
    | keyword word =>
      obtain ⟨hsoft, rfl⟩ : word.isSoft = true ∧ Text.foldCase word.spelling = name := by
        simpa [nameOf?] using h
      rw [Scan.wordKind, String.ofList_toList, ofWord?_foldCase]
      simp [nameOf?, hsoft]
    | _ => simp [nameOf?] at h

theorem literal_plain {kind : TokenKind} {value : Literal} (hkind : kind.Plain)
    (h : literalOf? kind = some value) : value.Plain := by
  cases kind with
  | keyword word => cases word <;> cases h <;> exact ⟨hkind, rfl⟩
  | integer | float | string | character => cases h; exact ⟨hkind, rfl⟩
  | _ => cases h

theorem ident_gives : Gives ident Ident.Plain := by
  refine current_gives.bind fun t ht => ?_
  split
  · next name quoted hname => exact advance_gives.bind fun _ _ => .pure (ident_plain ht hname _)
  · exact .fail _

theorem identList_gives :
    Gives identList fun names => names ≠ [] ∧ ∀ name ∈ names, name.Plain :=
  (expect_gives _ _).bind fun _ _ => (commaSeparated_gives ident_gives).bind fun _ hnames =>
    (expect_gives _ _).bind fun _ _ => .pure hnames

theorem alias?_gives : Gives alias? fun label => ∀ name ∈ label, name.Plain := by
  have hsome : Gives (do return some (← ident)) fun label => ∀ name ∈ label, Ident.Plain name :=
    ident_gives.bind fun name hname => .pure (by simpa using hname)
  exact (eat_gives _).bind fun _ _ => .ite hsome
    (peek_gives.bind fun _ _ => .ite hsome (.pure (by simp)))

theorem literal?_plain :
    Gives literal? fun o => ∀ e ∈ o, ∃ span value, e = .constant { span := span } value ∧
      Literal.Plain value := by
  refine peek_gives.bind fun kind hkind => ?_
  split
  · next value hvalue =>
    refine advance_gives.bind fun t _ => .pure ?_
    rintro _ ⟨⟩
    exact ⟨_, value, rfl, literal_plain hkind hvalue⟩
  · exact .pure (by simp)

theorem literal?_gives {P : Expr → Prop} {S : Select → Prop} (builds : Builds P S) :
    Gives literal? fun o => ∀ e ∈ o, P e := by
  refine literal?_plain.mono fun o ho e he => ?_
  obtain ⟨span, value, rfl, hvalue⟩ := ho e he
  exact builds.constant hvalue

end Parser

section

variable {P : Expr → Prop} {S : Select → Prop}

/-! ### Expressions -/

/-- The parsers for what stands inside give what is built. -/
structure Nested.Gives (inner : Nested) (P : Expr → Prop) (S : Select → Prop) : Prop where
  expr : ∀ power, Parser.Gives (inner.expr power) P
  select : Parser.Gives inner.select S

namespace Parser

variable {inner : Nested}

theorem exprs_gives (hin : inner.Gives P S) :
    Gives (commaSeparated (inner.expr 0)) fun es => es ≠ [] ∧ ∀ e ∈ es, P e :=
  commaSeparated_gives (hin.expr 0)

theorem bracketTerm_gives (builds : Builds P S) (hin : inner.Gives P S) :
    Gives (bracketTerm inner) P := by
  refine advance_gives.bind fun opening _ => (check_gives _).bind fun _ _ => .ite ?_ ?_
  · exact hin.select.bind fun select hselect => (expect_gives _ _).bind fun _ _ =>
      (spanFrom_gives _).bind fun _ _ => .pure (builds.subquery hselect)
  · refine (exprs_gives hin).bind fun items hitems => (expect_gives _ _).bind fun _ _ =>
      (spanFrom_gives _).bind fun span _ => ?_
    obtain ⟨hne, hall⟩ := hitems
    match items with
    | [] => exact absurd rfl hne
    | [item] => exact .pure (builds.brackets (hall item (List.mem_singleton_self item)))
    | item :: next :: items => exact .pure (builds.list (by simp) hall)

theorem call_gives (builds : Builds P S) (hin : inner.Gives P S) {function : Ident}
    (hfunction : function.Plain) : Gives (call inner function) P := by
  refine advance_gives.bind fun _ _ => (check_gives _).bind fun _ _ => .ite ?_ ?_
  · exact advance_gives.bind fun _ _ => (expect_gives _ _).bind fun _ _ =>
      (spanFrom_gives _).bind fun _ _ => .pure (builds.callStar hfunction)
  · refine (unlessClosing_gives ((columnsHint_gives _).bind fun _ _ => ?_)).bind fun args hargs =>
      (expect_gives _ _).bind fun _ _ => (spanFrom_gives _).bind fun _ _ =>
        .pure (builds.call hfunction hargs)
    exact under_gives _ ((exprs_gives hin).mono fun _ h => h.2)

theorem dots_gives (builds : Builds P S) (n : Nat) {e : Expr} (hpath : e.IsPath) (he : P e) :
    Gives (dots n e) P := by
  induction n generalizing e with
  | zero => exact .pure he
  | succ n ih =>
    refine (eat_gives _).bind fun _ _ => .ite (hint_gives.bind fun _ _ => ?_) (.pure he)
    exact (under_gives _ ident_gives).bind fun right hright =>
      ih (e := .dot _ e right) hpath (builds.dot hpath he hright)

theorem nameTerm_gives (builds : Builds P S) (hin : inner.Gives P S) :
    Gives (nameTerm inner) P := by
  refine ident_gives.bind fun name hname => (check_gives _).bind fun _ _ => .ite ?_ ?_
  · exact call_gives builds hin hname
  · exact .get fun _ => dots_gives builds _ trivial (builds.name hname)

theorem minusTerm_gives (builds : Builds P S) (hin : inner.Gives P S) :
    Gives (minusTerm inner) P :=
  advance_gives.bind fun _ _ => (hin.expr _).bind fun _ he => .pure (builds.unary he)

theorem plusTerm_gives (builds : Builds P S) (hin : inner.Gives P S) :
    Gives (plusTerm inner) P :=
  advance_gives.bind fun _ _ => (hin.expr _).bind fun _ he => .pure (builds.plus he)

theorem notTerm_gives (builds : Builds P S) (hin : inner.Gives P S) :
    Gives (notTerm inner) P :=
  advance_gives.bind fun _ _ => (hin.expr _).bind fun _ he => .pure (builds.unary he)

theorem operand_gives (builds : Builds P S) (hin : inner.Gives P S) :
    Gives (operand inner) P := by
  refine (literal?_gives builds).bind fun o ho => ?_
  cases o with
  | some e => exact .pure (ho e rfl)
  | none =>
    refine peek_gives.bind fun kind _ => ?_
    split
    · exact minusTerm_gives builds hin
    · exact plusTerm_gives builds hin
    · exact notTerm_gives builds hin
    · exact bracketTerm_gives builds hin
    · exact .ite (nameTerm_gives builds hin) (.fail _)

theorem members_gives (builds : Builds P S) (hin : inner.Gives P S) {op : BinaryOperator}
    (hop : op.isMembership = true) (power : Nat) :
    Gives (members inner power) (Expr.RightOf P op) := by
  refine (check_gives _).bind fun _ _ => .ite ?_ ((hin.expr _).mono fun _ => .expr)
  refine advance_gives.bind fun _ _ => (check_gives _).bind fun _ _ => .ite ?_ ?_
  · exact hin.select.bind fun select hselect => (expect_gives _ _).bind fun _ _ =>
      (spanFrom_gives _).bind fun _ _ => .pure (.expr (builds.subquery hselect))
  · refine (unlessClosing_gives ((columnsHint_gives _).bind fun _ _ => ?_)).bind fun items hitems =>
      (expect_gives _ _).bind fun _ _ => (spanFrom_gives _).bind fun _ _ =>
        .pure (.members hop hitems)
    exact under_gives _ ((exprs_gives hin).mono fun _ h => h.2)

theorem rightOperand_gives (builds : Builds P S) (hin : inner.Gives P S) (op : BinaryOperator) :
    Gives (rightOperand inner op) (Expr.RightOf P op) := by
  unfold rightOperand
  split
  · next hop => exact members_gives builds hin hop _
  · exact (hin.expr _).mono fun _ => .expr

theorem operatorWords_gives (width : Nat) : Gives (operatorWords width) fun _ => True :=
  advance_gives.bind fun _ _ => .ite (advance_gives.bind fun _ _ => .pure trivial) (.pure trivial)

theorem operations_gives (builds : Builds P S) (hin : inner.Gives P S) (power n : Nat)
    {left : Expr} (hleft : P left) : Gives (operations inner power n left) P := by
  induction n generalizing left with
  | zero => exact .pure hleft
  | succ n ih =>
    refine peek_gives.bind fun _ _ => (peekAt_gives 1).bind fun _ _ => ?_
    split
    · exact .pure hleft
    · refine .ite (.pure hleft) ((operatorWords_gives _).bind fun _ _ => ?_)
      exact (rightOperand_gives builds hin _).bind fun right hright =>
        ih (builds.binary hleft hright)

theorem exprWith_gives (builds : Builds P S) (hin : inner.Gives P S) (power : Nat) :
    Gives (exprWith inner power) P :=
  (operand_gives builds hin).bind fun _ he => .get fun _ => operations_gives builds hin _ _ he

/-! ### Queries -/

theorem condition_gives (hin : inner.Gives P S) : Gives (condition inner) P :=
  (columnsHint_gives _).bind fun _ _ => under_gives _ (hin.expr 0)

theorem resultColumn_gives (hin : inner.Gives P S) :
    Gives (resultColumn inner) (ResultColumn.BuiltOf P) := by
  refine (check_gives _).bind fun _ _ => .ite (advance_gives.bind fun _ _ => .pure trivial) ?_
  refine peek_gives.bind fun _ _ => (peekAt_gives 1).bind fun _ _ =>
    (peekAt_gives 2).bind fun _ _ => .ite ?_ ?_
  · exact ident_gives.bind fun _ htable => advance_gives.bind fun _ _ =>
      advance_gives.bind fun _ _ => .pure htable
  · exact (hin.expr 0).bind fun _ hvalue => alias?_gives.bind fun _ hlabel =>
      .pure ⟨hvalue, hlabel⟩

theorem source_gives (hin : inner.Gives P S) : Gives (source inner) (Source.BuiltOf S) := by
  refine (check_gives _).bind fun _ _ => (peekAt_gives 1).bind fun _ _ => .ite ?_ ?_
  · exact advance_gives.bind fun _ _ => hin.select.bind fun _ hselect =>
      (expect_gives _ _).bind fun _ _ => (spanFrom_gives _).bind fun _ _ =>
        alias?_gives.bind fun _ hlabel => .pure (.subquery hselect hlabel)
  · exact ident_gives.bind fun _ hname => alias?_gives.bind fun _ hlabel =>
      .pure (.table hname hlabel)

/-- A comma joins sources only where no `NATURAL` stands before it. -/
theorem joinOperator?_gives (natural : Bool) :
    Gives (joinOperator? natural) fun o => ∀ op ∈ o, natural = true → op ≠ .comma := by
  refine (check_gives _).bind fun comma _ => ?_
  split
  · next hcomma =>
    have hnatural : natural = false := by
      simp only [Bool.and_eq_true, Bool.not_eq_true'] at hcomma
      exact hcomma.1
    exact advance_gives.bind fun _ _ => .pure (by simp [hnatural])
  refine (eat_gives _).bind fun _ _ => .ite ?_ ((eat_gives _).bind fun _ _ => .ite ?_
    ((eat_gives _).bind fun _ _ => .ite ?_ ((eat_gives _).bind fun _ _ => .ite ?_ ?_)))
  · refine (eat_gives _).bind fun outer _ => (expect_gives _ _).bind fun _ _ => .pure ?_
    cases outer <;> simp
  · exact (expect_gives _ _).bind fun _ _ => .pure (by simp)
  · exact (expect_gives _ _).bind fun _ _ => .pure (by simp)
  · exact .pure (by simp)
  · exact .ite (.fail _) (.pure (by simp))

theorem join?_gives (hin : inner.Gives P S) :
    Gives (join? inner) fun o => ∀ join ∈ o, Join.BuiltOf P S join := by
  refine current_gives.bind fun _ _ => (eat_gives _).bind fun natural _ =>
    (joinOperator?_gives natural).bind fun o ho => ?_
  cases o with
  | none => exact .pure (by simp)
  | some op =>
    refine tablesHint_gives.bind fun _ _ => (under_gives _ (source_gives hin)).bind fun _ hsource =>
      (afterWord_gives .ON (condition_gives hin)).bind fun _ hon =>
        (spanFrom_gives _).bind fun _ _ => .pure ?_
    rintro _ ⟨⟩
    exact ⟨ho op rfl, hsource, hon⟩

theorem fromClause_gives (hin : inner.Gives P S) :
    Gives (fromClause inner) (FromClause.BuiltOf P S) :=
  (source_gives hin).bind fun _ hsource => (many_gives (join?_gives hin)).bind fun _ hjoins =>
    .pure ⟨hsource, hjoins⟩

theorem groupBy_gives (hin : inner.Gives P S) : Gives (groupBy inner) (GroupBy.BuiltOf P) :=
  advance_gives.bind fun _ _ => (expect_gives _ _).bind fun _ _ => (columnsHint_gives _).bind fun _ _ =>
    (under_gives _ (exprs_gives hin)).bind fun _ hexprs =>
      (afterWord_gives .HAVING (condition_gives hin)).bind fun _ hhaving =>
        (spanFrom_gives _).bind fun _ _ => .pure ⟨hexprs.1, hexprs.2, hhaving⟩

theorem direction?_gives : Gives direction? fun _ => True :=
  (eat_gives _).bind fun _ _ => .ite (.pure trivial)
    ((eat_gives _).bind fun _ _ => .ite (.pure trivial) (.pure trivial))

theorem nullsOrder_gives : Gives nullsOrder fun _ => True :=
  (eat_gives _).bind fun _ _ => .ite (.pure trivial)
    ((eat_gives _).bind fun _ _ => .ite (.pure trivial) (.fail _))

theorem orderingTerm_gives (hin : inner.Gives P S) :
    Gives (orderingTerm inner) fun term => P term.expr :=
  (hin.expr 0).bind fun _ hexpr => direction?_gives.bind fun _ _ =>
    (afterWord_gives _ nullsOrder_gives).bind fun _ _ => .pure hexpr

theorem orderBy_gives (hin : inner.Gives P S) : Gives (orderBy inner) (OrderBy.BuiltOf P) :=
  advance_gives.bind fun _ _ => (expect_gives _ _).bind fun _ _ => (columnsHint_gives _).bind fun _ _ =>
    (under_gives _ (commaSeparated_gives (orderingTerm_gives hin))).bind fun _ hterms =>
      (spanFrom_gives _).bind fun _ _ => .pure ⟨hterms.1, hterms.2⟩

theorem limit_gives (hin : inner.Gives P S) : Gives (limit inner) (Limit.BuiltOf P) := by
  refine advance_gives.bind fun _ _ => (hin.expr 0).bind fun first hfirst =>
    (eat_gives _).bind fun _ _ => .ite ?_ ((eat_gives _).bind fun _ _ => .ite ?_ ?_)
  · exact (hin.expr 0).bind fun offset hoffset => (spanFrom_gives _).bind fun _ _ =>
      .pure ⟨hfirst, by simpa using hoffset⟩
  · exact (hin.expr 0).bind fun second hsecond => (spanFrom_gives _).bind fun _ _ =>
      .pure ⟨hsecond, by simpa using hfirst⟩
  · exact (spanFrom_gives _).bind fun _ _ => .pure ⟨hfirst, by simp⟩

theorem quantifier_gives : Gives quantifier fun _ => True :=
  (eat_gives _).bind fun _ _ => .ite (.pure trivial) ((eat_gives _).bind fun _ _ => .pure trivial)

theorem selectWith_gives (builds : Builds P S) (hin : inner.Gives P S) :
    Gives (selectWith inner) S := by
  refine (expect_gives _ _).bind fun _ _ => quantifier_gives.bind fun distinct _ =>
    (columnsHint_gives _).bind fun _ _ =>
    (under_gives _ (commaSeparated_gives (resultColumn_gives hin))).bind fun columns hcolumns => ?_
  refine (afterWord_gives .FROM (tablesHint_gives.bind fun _ _ =>
    under_gives _ (fromClause_gives hin))).bind fun source hsource => ?_
  refine (afterWord_gives .WHERE (condition_gives hin)).bind fun condition hcondition => ?_
  refine (atWord_gives .GROUP (groupBy_gives hin)).bind fun groupBy hgroupBy => ?_
  refine (atWord_gives .ORDER (orderBy_gives hin)).bind fun orderBy horderBy => ?_
  refine (atWord_gives .LIMIT (limit_gives hin)).bind fun limit hlimit => ?_
  exact (spanFrom_gives _).bind fun span _ => .pure (builds.select
    ⟨hcolumns.1, hcolumns.2, hsource, hcondition, hgroupBy, horderBy, hlimit, rfl⟩)

/-- At every depth the parsers give what is built. -/
theorem nested_gives (builds : Builds P S) (depth : Nat) : (nested depth).Gives P S := by
  induction depth with
  | zero => exact ⟨fun _ => .fail _, .fail _⟩
  | succ depth ih => exact ⟨exprWith_gives builds ih, selectWith_gives builds ih⟩

theorem exprAt_gives (builds : Builds P S) (power : Nat) : Gives (exprAt power) P :=
  .get fun _ => (nested_gives builds _).expr power

theorem expr_gives (builds : Builds P S) : Gives expr P :=
  exprAt_gives builds 0

theorem select_gives (builds : Builds P S) : Gives select S :=
  .get fun _ => (nested_gives builds _).select

end Parser
end
end SqlAnalysis
