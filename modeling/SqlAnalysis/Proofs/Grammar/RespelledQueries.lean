import SqlAnalysis.Grammar.Query
import SqlAnalysis.Proofs.Grammar.Respelling

/-!
# Expressions and queries on respelled tokens

Expressions and queries are read to a depth that is the number of tokens, which is the
same for both runs. So it is enough that each level reads alike if the levels inside do.
-/
namespace SqlAnalysis

/-- Whether what stands inside is read alike. -/
structure Nested.Alike (forget : Prop) (inner : Nested) : Prop where
  expr : ∀ power, Parser.Alike (inner.expr power) (inner.expr power) (Expr.Like forget)
  select : Parser.Alike inner.select inner.select (Select.Like forget)

namespace Parser

open ParserState

variable {α : Type} {R : α → α → Prop} {forget : Prop} {inner : Nested}

/-- The note of an expression just read. -/
theorem noteOf_like {span span' : Span} (h : span = span') :
    Note.Like forget { span := span } { span := span' } :=
  ⟨h, .inl rfl, rfl⟩

/-! ### Operands -/

theorem literal?_alike : Alike literal? literal? (Option.Rel (Expr.Like forget)) := by
  apply peek_alike.bind
  intro kind kind' hkind
  rw [hkind.literalOf?_eq]
  split
  · exact advance_alike.bind fun _ _ ht => .pure (.some (.constant (noteOf_like ht.span)))
  · exact .pure .none

/-- A query up to the bracket that closes it. -/
theorem subquery_alike (hin : inner.Alike forget) (start : Span) :
    Alike
      (do
        let select ← inner.select
        let _ ← expect .rightParen "')'"
        return .subquery { span := ← spanFrom start } select)
      (do
        let select ← inner.select
        let _ ← expect .rightParen "')'"
        return .subquery { span := ← spanFrom start } select)
      (Expr.Like forget) := by
  apply hin.select.bind
  intro select select' hselect
  apply (expect_alike rfl _).bind
  intro _ _ _
  apply (spanFrom_alike start).bind
  exact fun _ _ hspan => .pure (.subquery (noteOf_like hspan) hselect)

theorem bracketTerm_alike (hin : inner.Alike forget) :
    Alike (bracketTerm inner) (bracketTerm inner) (Expr.Like forget) := by
  apply advance_alike.bind
  intro t t' ht
  dsimp only
  rw [ht.span]
  apply (check_alike rfl).bind
  rintro isQuery _ rfl
  split
  · exact subquery_alike hin _
  · apply (commaSeparated_alike (hin.expr 0)).bind
    intro items items' hitems
    apply (expect_alike rfl _).bind
    intro _ _ _
    apply (spanFrom_alike _).bind
    rintro span _ rfl
    have hnote : Note.Like forget { span := span } { span := span } := noteOf_like rfl
    cases hitems with
    | nil => exact .pure (.list hnote .nil)
    | cons hfirst hrest =>
      cases hrest with
      | nil => exact .pure (.brackets hnote hfirst)
      | cons hsecond hrest => exact .pure (.list hnote (.cons hfirst (.cons hsecond hrest)))

theorem call_alike (hin : inner.Alike forget) {function function' : Ident}
    (h : function.Like function') :
    Alike (call inner function) (call inner function') (Expr.Like forget) := by
  apply advance_alike.bind
  intro _ _ _
  rw [h.span]
  apply (check_alike rfl).bind
  rintro isStar _ rfl
  split
  · apply advance_alike.bind
    intro star star' hstar
    dsimp only
    rw [hstar.span]
    apply (expect_alike rfl _).bind
    intro _ _ _
    apply (spanFrom_alike _).bind
    exact fun _ _ hspan => .pure (.callStar (noteOf_like hspan) h)
  · apply (unlessClosing_alike
      ((columnsHint_alike _).underHint (commaSeparated_alike (hin.expr 0)))).bind
    intro args args' hargs
    apply (expect_alike rfl _).bind
    intro _ _ _
    apply (spanFrom_alike _).bind
    exact fun _ _ hspan => .pure (.call (noteOf_like hspan) h hargs)

theorem dots_alike (n : Nat) : ∀ {e e' : Expr}, e.Like forget e' →
    Alike (dots n e) (dots n e') (Expr.Like forget) := by
  induction n with
  | zero => exact fun h => .pure h
  | succ n ih =>
    intro e e' h
    unfold dots
    apply (eat_alike rfl).bind
    rintro found _ rfl
    split
    · apply hint_alike.bind
      intro _ _ _
      apply (ident_alike.under _ _).bind
      intro right right' hright
      exact ih (.dot (noteOf_like (by rw [h.span_eq, hright.span])) h hright)
    · exact .pure h

theorem nameTerm_alike (hin : inner.Alike forget) :
    Alike (nameTerm inner) (nameTerm inner) (Expr.Like forget) := by
  apply ident_alike.bind
  intro name name' hname
  apply (check_alike rfl).bind
  rintro isCall _ rfl
  split
  · exact call_alike hin hname
  · refine .view fun s s' hs => ?_
    rw [hs.tokens.length_eq]
    exact dots_alike _ (.name (noteOf_like hname.span) hname)

/-- An operator with the operand behind it. -/
theorem prefix_alike {power : Nat} (hin : inner.Alike forget) {f f' : Token → Expr → Parser Expr}
    (hf : ∀ t t' e e', t.Like t' → e.Like forget e' → Alike (f t e) (f' t' e') (Expr.Like forget)) :
    Alike (do let sign ← advance; let e ← inner.expr power; f sign e)
      (do let sign ← advance; let e ← inner.expr power; f' sign e) (Expr.Like forget) :=
  advance_alike.bind fun _ _ ht => (hin.expr power).bind fun _ _ he => hf _ _ _ _ ht he

theorem minusTerm_alike (hin : inner.Alike forget) :
    Alike (minusTerm inner) (minusTerm inner) (Expr.Like forget) :=
  prefix_alike hin fun _ _ _ _ ht he =>
    .pure (.unary (noteOf_like (by rw [ht.span, he.span_eq])) he)

theorem notTerm_alike (hin : inner.Alike forget) :
    Alike (notTerm inner) (notTerm inner) (Expr.Like forget) :=
  prefix_alike hin fun _ _ _ _ ht he =>
    .pure (.unary (noteOf_like (by rw [ht.span, he.span_eq])) he)

theorem plusTerm_alike (hin : inner.Alike forget) :
    Alike (plusTerm inner) (plusTerm inner) (Expr.Like forget) := by
  refine prefix_alike hin fun t t' e e' ht he => .pure (he.withNote ?_)
  exact { he.note with span := by rw [ht.span, he.span_eq] }

theorem operand_alike (hin : inner.Alike forget) :
    Alike (operand inner) (operand inner) (Expr.Like forget) := by
  apply literal?_alike.bind
  intro e? e?' he
  cases he with
  | some he => exact .pure he
  | none =>
    apply peek_alike.bind
    rintro _ _ (kind | hname | hname)
    · split
      · exact minusTerm_alike hin
      · exact plusTerm_alike hin
      · exact notTerm_alike hin
      · exact bracketTerm_alike hin
      · split
        · exact nameTerm_alike hin
        · exact failExpected_alike _
    · exact nameTerm_alike hin
    · exact nameTerm_alike hin

/-! ### Operators -/

theorem memberList_alike (hin : inner.Alike forget) :
    Alike (memberList inner) (memberList inner) (Expr.Like forget) := by
  apply advance_alike.bind
  intro t t' ht
  dsimp only
  rw [ht.span]
  apply (check_alike rfl).bind
  rintro isQuery _ rfl
  split
  · exact subquery_alike hin _
  · have hitems : Alike
        (do
          let h ← columnsHint []
          Parser.under { h with wrap := some ("(", ")") } (commaSeparated (inner.expr 0)))
        (do
          let h ← columnsHint []
          Parser.under { h with wrap := some ("(", ")") } (commaSeparated (inner.expr 0)))
        (List.Forall₂ (Expr.Like forget)) :=
      (columnsHint_alike _).bind fun _ _ _ => (commaSeparated_alike (hin.expr 0)).under _ _
    apply (unlessClosing_alike hitems).bind
    intro items items' hitems
    apply (expect_alike rfl _).bind
    intro _ _ _
    apply (spanFrom_alike _).bind
    exact fun _ _ hspan => .pure (.list (noteOf_like hspan) hitems)

theorem members_alike (hin : inner.Alike forget) (power : Nat) :
    Alike (members inner power) (members inner power) (Expr.Like forget) := by
  apply (check_alike rfl).bind
  rintro opens _ rfl
  split
  · exact memberList_alike hin
  · exact hin.expr power

theorem operatorWords_alike (width : Nat) :
    Alike (operatorWords width) (operatorWords width) Eq := by
  apply advance_alike.bind
  intro _ _ _
  split
  · exact advance_alike.bind fun _ _ _ => .pure rfl
  · exact .pure rfl

theorem rightOperand_alike (hin : inner.Alike forget) (op : BinaryOperator) :
    Alike (rightOperand inner op) (rightOperand inner op) (Expr.Like forget) := by
  unfold rightOperand
  split
  · exact members_alike hin _
  · exact hin.expr _

theorem operations_alike (hin : inner.Alike forget) (power n : Nat) :
    ∀ {left left' : Expr}, left.Like forget left' →
      Alike (operations inner power n left) (operations inner power n left')
        (Expr.Like forget) := by
  induction n with
  | zero => exact fun h => .pure h
  | succ n ih =>
    intro left left' h
    unfold operations
    apply peek_alike.bind
    intro kind kind' hkind
    apply (peekAt_alike 1).bind
    intro next next' hnext
    rw [hkind.ofTokens?_eq hnext]
    split
    · exact .pure h
    · next op width _ =>
      split
      · exact .pure h
      · apply (operatorWords_alike width).bind
        intro _ _ _
        apply (rightOperand_alike hin op).bind
        intro right right' hright
        exact ih (.binary (noteOf_like (by rw [h.span_eq, hright.span_eq])) h hright)

theorem exprWith_alike (hin : inner.Alike forget) (power : Nat) :
    Alike (exprWith inner power) (exprWith inner power) (Expr.Like forget) := by
  apply (operand_alike hin).bind
  intro left left' hleft
  refine .view fun s s' hs => ?_
  rw [hs.tokens.length_eq]
  exact operations_alike hin power _ hleft

/-! ### Queries -/

theorem condition_alike (hin : inner.Alike forget) :
    Alike (condition inner) (condition inner) (Expr.Like forget) :=
  (columnsHint_alike _).underHint (hin.expr 0)

theorem resultColumn_alike (hin : inner.Alike forget) :
    Alike (resultColumn inner) (resultColumn inner) (ResultColumn.Like forget) := by
  apply (check_alike rfl).bind
  rintro isStar _ rfl
  split
  · apply advance_alike.bind
    intro t t' ht
    rw [ht.span]
    exact .pure (.star _)
  · apply peek_alike.bind
    intro first first' hfirst
    apply (peekAt_alike 1).bind
    intro second second' hsecond
    apply (peekAt_alike 2).bind
    intro third third' hthird
    have hdot : (second == .dot) = (second' == .dot) := decide_eq_decide.mpr (hsecond.eq_iff rfl)
    have hstar : (third == .star) = (third' == .star) := decide_eq_decide.mpr (hthird.eq_iff rfl)
    rw [hfirst.isNameStart_eq, hdot, hstar]
    split
    · apply ident_alike.bind
      intro table table' htable
      apply advance_alike.bind
      intro _ _ _
      exact advance_alike.bind fun _ _ _ => .pure (.tableStar htable)
    · apply (hin.expr 0).bind
      intro value value' hvalue
      exact alias?_alike.bind fun _ _ hlabel => .pure (.expr hvalue hlabel)

theorem source_alike (hin : inner.Alike forget) :
    Alike (source inner) (source inner) (Source.Like forget) := by
  apply (check_alike rfl).bind
  rintro opens _ rfl
  apply (peekAt_alike 1).bind
  intro second second' hsecond
  have hselect : (second == .keyword .SELECT) = (second' == .keyword .SELECT) :=
    decide_eq_decide.mpr (hsecond.eq_iff rfl)
  rw [hselect]
  split
  · apply advance_alike.bind
    intro t t' ht
    dsimp only
    rw [ht.span]
    apply hin.select.bind
    intro select select' hselect
    apply (expect_alike rfl _).bind
    intro _ _ _
    apply (spanFrom_alike _).bind
    rintro span _ rfl
    exact alias?_alike.bind fun _ _ hlabel => .pure (.subquery hselect hlabel)
  · apply ident_alike.bind
    intro name name' hname
    exact alias?_alike.bind fun _ _ hlabel => .pure (.table hname hlabel)

theorem joinOperator?_alike (natural : Bool) :
    Alike (joinOperator? natural) (joinOperator? natural) Eq := by
  apply (check_alike rfl).bind
  rintro isComma _ rfl
  split
  · exact advance_alike.bind fun _ _ _ => .pure rfl
  apply (eatWord_alike .LEFT).bind
  rintro isLeft _ rfl
  split
  · apply (eatWord_alike .OUTER).bind
    rintro outer _ rfl
    exact (expectWord_alike .JOIN).bind fun _ _ _ => .pure rfl
  apply (eatWord_alike .INNER).bind
  rintro isInner _ rfl
  split
  · exact (expectWord_alike .JOIN).bind fun _ _ _ => .pure rfl
  apply (eatWord_alike .CROSS).bind
  rintro isCross _ rfl
  split
  · exact (expectWord_alike .JOIN).bind fun _ _ _ => .pure rfl
  apply (eatWord_alike .JOIN).bind
  rintro isJoin _ rfl
  split
  · exact .pure rfl
  split
  · exact failExpected_alike _
  · exact .pure rfl

theorem join?_alike (hin : inner.Alike forget) :
    Alike (join? inner) (join? inner) (Option.Rel (Join.Like forget)) := by
  apply current_alike.bind
  intro t t' ht
  dsimp only
  rw [ht.span]
  apply (eatWord_alike .NATURAL).bind
  rintro natural _ rfl
  apply (joinOperator?_alike natural).bind
  rintro operator _ rfl
  split
  · exact .pure .none
  · apply (tablesHint_alike.underHint (source_alike hin)).bind
    intro table table' htable
    apply (afterWord_alike .ON (condition_alike hin)).bind
    intro on on' hon
    apply (spanFrom_alike _).bind
    rintro span _ rfl
    exact .pure (.some (.mk htable hon))

theorem fromClause_alike (hin : inner.Alike forget) :
    Alike (fromClause inner) (fromClause inner) (FromClause.Like forget) := by
  apply (source_alike hin).bind
  intro first first' hfirst
  exact (many_alike (join?_alike hin)).bind fun _ _ hjoins => .pure (.mk hfirst hjoins)

theorem groupBy_alike (hin : inner.Alike forget) :
    Alike (groupBy inner) (groupBy inner) (GroupBy.Like forget) := by
  apply advance_alike.bind
  intro t t' ht
  dsimp only
  rw [ht.span]
  apply (expectWord_alike .BY).bind
  intro _ _ _
  apply ((columnsHint_alike _).underHint (commaSeparated_alike (hin.expr 0))).bind
  intro exprs exprs' hexprs
  apply (afterWord_alike .HAVING (condition_alike hin)).bind
  intro having having' hhaving
  apply (spanFrom_alike _).bind
  rintro span _ rfl
  exact .pure (.mk hexprs hhaving)

theorem direction?_alike : Alike direction? direction? Eq := by
  apply (eatWord_alike .ASC).bind
  rintro ascends _ rfl
  split
  · exact .pure rfl
  apply (eatWord_alike .DESC).bind
  rintro descends _ rfl
  split
  · exact .pure rfl
  · exact .pure rfl

theorem nullsOrder_alike : Alike nullsOrder nullsOrder Eq := by
  apply (eatWord_alike .FIRST).bind
  rintro isFirst _ rfl
  split
  · exact .pure rfl
  apply (eatWord_alike .LAST).bind
  rintro isLast _ rfl
  split
  · exact .pure rfl
  · exact failExpected_alike _

theorem orderingTerm_alike (hin : inner.Alike forget) :
    Alike (orderingTerm inner) (orderingTerm inner) (OrderingTerm.Like forget) := by
  apply (hin.expr 0).bind
  intro expr expr' hexpr
  apply direction?_alike.bind
  rintro direction _ rfl
  apply (afterWord_alike .NULLS nullsOrder_alike).bind
  intro nulls nulls' hnulls
  cases hnulls with
  | none => exact .pure (.mk hexpr)
  | some hnulls =>
    subst hnulls
    exact .pure (.mk hexpr)

theorem orderBy_alike (hin : inner.Alike forget) :
    Alike (orderBy inner) (orderBy inner) (OrderBy.Like forget) := by
  apply advance_alike.bind
  intro t t' ht
  dsimp only
  rw [ht.span]
  apply (expectWord_alike .BY).bind
  intro _ _ _
  apply ((columnsHint_alike _).underHint (commaSeparated_alike (orderingTerm_alike hin))).bind
  intro terms terms' hterms
  apply (spanFrom_alike _).bind
  rintro span _ rfl
  exact .pure (.mk hterms)

theorem limit_alike (hin : inner.Alike forget) :
    Alike (limit inner) (limit inner) (Limit.Like forget) := by
  apply advance_alike.bind
  intro t t' ht
  dsimp only
  rw [ht.span]
  apply (hin.expr 0).bind
  intro first first' hfirst
  apply (eatWord_alike .OFFSET).bind
  rintro isOffset _ rfl
  split
  · apply (hin.expr 0).bind
    intro offset offset' hoffset
    apply (spanFrom_alike _).bind
    rintro span _ rfl
    exact .pure (.mk hfirst (.some hoffset))
  apply (eat_alike rfl).bind
  rintro isComma _ rfl
  split
  · apply (hin.expr 0).bind
    intro second second' hsecond
    apply (spanFrom_alike _).bind
    rintro span _ rfl
    exact .pure (.mk hsecond (.some hfirst))
  · apply (spanFrom_alike _).bind
    rintro span _ rfl
    exact .pure (.mk hfirst .none)

theorem atWord_alike {p p' : Parser α} (word : Keyword) (hp : Alike p p' R) :
    Alike (atWord word p) (atWord word p') (Option.Rel R) := by
  apply (check_alike rfl).bind
  rintro found _ rfl
  split
  · exact hp.bind fun _ _ ha => .pure (.some ha)
  · exact .pure .none

theorem quantifier_alike : Alike quantifier quantifier Eq := by
  apply (eatWord_alike .DISTINCT).bind
  rintro distinct _ rfl
  split
  · exact .pure rfl
  · exact (eatWord_alike .ALL).bind fun _ _ _ => .pure rfl

theorem selectWith_alike (hin : inner.Alike forget) :
    Alike (selectWith inner) (selectWith inner) (Select.Like forget) := by
  have hsource : Alike
      (do let h ← tablesHint; under { h with keywords := afterSourceKeywords } (fromClause inner))
      (do let h ← tablesHint; under { h with keywords := afterSourceKeywords } (fromClause inner))
      (FromClause.Like forget) :=
    tablesHint_alike.bind fun _ _ _ => (fromClause_alike hin).under _ _
  apply (expectWord_alike .SELECT).bind
  intro t t' ht
  dsimp only
  rw [ht.span]
  apply quantifier_alike.bind
  rintro distinct _ rfl
  apply ((columnsHint_alike _).underHint (commaSeparated_alike (resultColumn_alike hin))).bind
  intro columns columns' hcolumns
  apply (afterWord_alike .FROM hsource).bind
  intro source source' hsource
  apply (afterWord_alike .WHERE (condition_alike hin)).bind
  intro condition condition' hcondition
  apply (atWord_alike .GROUP (groupBy_alike hin)).bind
  intro groupBy groupBy' hgroupBy
  apply (atWord_alike .ORDER (orderBy_alike hin)).bind
  intro orderBy orderBy' horderBy
  apply (atWord_alike .LIMIT (limit_alike hin)).bind
  intro limit limit' hlimit
  apply (spanFrom_alike _).bind
  rintro span _ rfl
  exact .pure (.mk hcolumns hsource hcondition hgroupBy horderBy hlimit)

/-! ### Nesting -/

theorem nested_alike (depth : Nat) : (nested depth).Alike forget := by
  induction depth with
  | zero => exact ⟨fun _ => failExpected_alike _, failExpected_alike _⟩
  | succ depth ih => exact ⟨exprWith_alike ih, selectWith_alike ih⟩

theorem withNesting_alike {p p' : Nested → Parser α}
    (hp : ∀ inner : Nested, inner.Alike forget → Alike (p inner) (p' inner) R) :
    Alike (withNesting p) (withNesting p') R := by
  refine .view fun s s' hs => ?_
  rw [hs.tokens.length_eq]
  exact hp _ (nested_alike _)

theorem exprAt_alike (power : Nat) : Alike (exprAt power) (exprAt power) (Expr.Like forget) :=
  withNesting_alike fun _ hin => hin.expr power

theorem expr_alike : Alike expr expr (Expr.Like forget) :=
  exprAt_alike 0

theorem select_alike : Alike select select (Select.Like forget) :=
  withNesting_alike fun _ hin => hin.select

end Parser
end SqlAnalysis
