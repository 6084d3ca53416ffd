import SqlAnalysis.Grammar.Script

/-!
# What parsers are put together from

All parsers of the grammar are put together from a few steps: they look at their state, read
one token, complain about the next one, and run what else they are given under a hint. Only a
parameter of a type is complained about after it was read. A property of these steps that is
kept when parsers follow each other is therefore one of every parser.
-/
namespace SqlAnalysis

namespace Parser

/-- The parsers that are put together from the steps of the grammar and from those with a
property. -/
inductive Composed (B : {α : Type} → Parser α → Prop) : {α : Type} → Parser α → Prop
  | base {α : Type} {p : Parser α} : B p → Composed B p
  | pure {α : Type} (a : α) : Composed B (pure a)
  | bind {α β : Type} {p : Parser α} {f : α → Parser β} :
      Composed B p → (∀ a, Composed B (f a)) → Composed B (p >>= f)
  | state : Composed B (get : Parser ParserState)
  | advance : Composed B advance
  | failExpected {α : Type} (what : String) : Composed B (failExpected what : Parser α)
  | typeParam : Composed B typeParam
  | under {α : Type} {p : Parser α} : Composed B p → ∀ h, Composed B (under h p)

variable {B : {α : Type} → Parser α → Prop} {α β : Type}

namespace Composed

variable {p p' : Parser α} {f : α → Parser β}

/-- A result that is put under a constructor. -/
theorem map {g : α → β} (hp : Composed B p) : Composed B (do return g (← p)) :=
  hp.bind fun _ => .pure _

theorem get {f : ParserState → Parser β} (hf : ∀ s, Composed B (f s)) :
    Composed B (MonadState.get >>= f) :=
  state.bind hf

theorem ite {c : Prop} [Decidable c] (hp : Composed B p) (hp' : Composed B p') :
    Composed B (if c then p else p') := by
  split
  · exact hp
  · exact hp'

end Composed

/-- Whether a parser reads one token with `first` before all else. -/
def BeginsWith (B : {α : Type} → Parser α → Prop) (first : Parser Token) (p : Parser α) : Prop :=
  ∃ f : Token → Parser α, p = first >>= f ∧ ∀ t, Composed B (f t)

theorem BeginsWith.composed {first : Parser Token} {p : Parser α} (hfirst : Composed B first) :
    BeginsWith B first p → Composed B p
  | ⟨_, hp, hf⟩ => hp ▸ hfirst.bind hf

/-! ### Tokens -/

theorem current_composed : Composed B current := .get fun _ => .pure _

theorem peek_composed : Composed B peek := .get fun _ => .pure _

theorem peekAt_composed (n : Nat) : Composed B (peekAt n) := .get fun _ => .pure _

theorem check_composed (kind : TokenKind) : Composed B (check kind) := peek_composed.map

theorem eat_composed (kind : TokenKind) : Composed B (eat kind) :=
  (check_composed kind).bind fun _ => .ite Composed.advance.map (.pure _)

theorem eatWord_composed (word : Keyword) : Composed B (eatWord word) := eat_composed _

theorem expect_composed (kind : TokenKind) (what : String) : Composed B (expect kind what) :=
  (check_composed kind).bind fun _ => .ite Composed.advance (.failExpected _)

theorem expectWord_composed (word : Keyword) : Composed B (expectWord word) := expect_composed _ _

theorem spanFrom_composed (start : Span) : Composed B (spanFrom start) := .get fun _ => .pure _

/-! ### Repetition -/

section

variable {p : Parser α}

theorem manyUpTo_composed {p : Parser (Option α)} (hp : Composed B p) (n : Nat) :
    Composed B (manyUpTo p n) := by
  induction n with
  | zero => exact .pure _
  | succ n ih =>
    refine hp.bind fun a? => ?_
    cases a? with
    | none => exact .pure _
    | some a => exact ih.map

theorem many_composed {p : Parser (Option α)} (hp : Composed B p) : Composed B (many p) :=
  .get fun _ => manyUpTo_composed hp _

theorem after_composed (kind : TokenKind) (hp : Composed B p) : Composed B (after kind p) :=
  (eat_composed kind).bind fun _ => .ite hp.map (.pure _)

theorem afterWord_composed (word : Keyword) (hp : Composed B p) : Composed B (afterWord word p) :=
  after_composed _ hp

theorem commaSeparated_composed (hp : Composed B p) : Composed B (commaSeparated p) :=
  hp.bind fun _ => (many_composed (after_composed _ hp)).map

theorem unlessClosing_composed {p : Parser (List α)} (hp : Composed B p) :
    Composed B (unlessClosing p) :=
  (check_composed _).bind fun _ => .ite (.pure _) hp

theorem atWord_composed (word : Keyword) (hp : Composed B p) : Composed B (atWord word p) :=
  (check_composed _).bind fun _ => .ite hp.map (.pure _)

/-! ### Hints and names -/

theorem hint_composed : Composed B hint := .get fun _ => .pure _

theorem columnsHint_composed (keywords : List String) : Composed B (columnsHint keywords) :=
  hint_composed.map

theorem tablesHint_composed : Composed B tablesHint := hint_composed.map

theorem columnsOfHint_composed (table : Ident) : Composed B (columnsOfHint table) :=
  hint_composed.map

theorem keywordsHint_composed (keywords : List String) : Composed B (keywordsHint keywords) :=
  hint_composed.map

end

theorem ident_composed : Composed B ident := by
  refine current_composed.bind fun t => ?_
  split
  · exact Composed.advance.map
  · exact .failExpected _

theorem identList_composed : Composed B identList :=
  (expect_composed _ _).bind fun _ => (commaSeparated_composed ident_composed).bind fun _ =>
    (expect_composed _ _).map

theorem alias?_composed : Composed B alias? :=
  (eatWord_composed _).bind fun _ => .ite ident_composed.map <|
    peek_composed.bind fun _ => .ite ident_composed.map (.pure _)

end Parser

/-- Whether the parsers for what stands inside are put together that way. -/
structure Nested.Composed (B : {α : Type} → Parser α → Prop) (inner : Nested) : Prop where
  expr : ∀ power, Parser.Composed B (inner.expr power)
  select : Parser.Composed B inner.select

namespace Parser

variable {B : {α : Type} → Parser α → Prop} {α : Type} {inner : Nested}

/-! ### Expressions -/

theorem literal?_composed : Composed B literal? := by
  refine peek_composed.bind fun kind => ?_
  split
  · exact Composed.advance.map
  · exact .pure _

theorem exprs_composed (hin : inner.Composed B) : Composed B (commaSeparated (inner.expr 0)) :=
  commaSeparated_composed (hin.expr 0)

/-- A query up to the bracket that closes it. -/
theorem closedSelect_composed (hin : inner.Composed B) (start : Span) :
    Composed B (do
      let select ← inner.select
      let _ ← expect .rightParen "')'"
      return Expr.subquery { span := ← spanFrom start } select) :=
  hin.select.bind fun _ => (expect_composed _ _).bind fun _ => (spanFrom_composed _).map

theorem bracketTerm_composed (hin : inner.Composed B) : Composed B (bracketTerm inner) := by
  refine Composed.advance.bind fun _ => (check_composed _).bind fun _ =>
    .ite (closedSelect_composed hin _) ?_
  refine (exprs_composed hin).bind fun items => (expect_composed _ _).bind fun _ =>
    (spanFrom_composed _).bind fun _ => ?_
  split <;> exact .pure _

theorem call_composed (hin : inner.Composed B) (function : Ident) :
    Composed B (call inner function) := by
  refine Composed.advance.bind fun _ => (check_composed _).bind fun _ => .ite ?_ ?_
  · exact Composed.advance.bind fun _ => (expect_composed _ _).bind fun _ =>
      (spanFrom_composed _).map
  · have hargs : Composed B (do Parser.under (← columnsHint []) (commaSeparated (inner.expr 0))) :=
      (columnsHint_composed _).bind fun _ => (exprs_composed hin).under _
    exact (unlessClosing_composed hargs).bind fun _ => (expect_composed _ _).bind fun _ =>
      (spanFrom_composed _).map

theorem dots_composed (n : Nat) : ∀ e, Composed B (dots n e) := by
  induction n with
  | zero => exact fun e => .pure e
  | succ n ih =>
    intro e
    exact (eat_composed _).bind fun _ => .ite
      (hint_composed.bind fun _ => (ident_composed.under _).bind fun _ => ih _) (.pure _)

theorem nameTerm_composed (hin : inner.Composed B) : Composed B (nameTerm inner) :=
  ident_composed.bind fun _ => (check_composed _).bind fun _ =>
    .ite (call_composed hin _) (.get fun _ => dots_composed _ _)

theorem minusTerm_composed (hin : inner.Composed B) : Composed B (minusTerm inner) :=
  Composed.advance.bind fun _ => (hin.expr _).map

theorem plusTerm_composed (hin : inner.Composed B) : Composed B (plusTerm inner) :=
  Composed.advance.bind fun _ => (hin.expr _).map

theorem notTerm_composed (hin : inner.Composed B) : Composed B (notTerm inner) :=
  Composed.advance.bind fun _ => (hin.expr _).map

theorem operand_composed (hin : inner.Composed B) : Composed B (operand inner) := by
  refine literal?_composed.bind fun e? => ?_
  cases e? with
  | some e => exact .pure e
  | none =>
    refine peek_composed.bind fun kind => ?_
    split
    · exact minusTerm_composed hin
    · exact plusTerm_composed hin
    · exact notTerm_composed hin
    · exact bracketTerm_composed hin
    · exact .ite (nameTerm_composed hin) (.failExpected _)

theorem memberList_composed (hin : inner.Composed B) : Composed B (memberList inner) := by
  refine Composed.advance.bind fun _ => (check_composed _).bind fun _ =>
    .ite (closedSelect_composed hin _) ?_
  have hitems : Composed B (do
      let h ← columnsHint []
      Parser.under { h with wrap := some ("(", ")") } (commaSeparated (inner.expr 0))) :=
    (columnsHint_composed _).bind fun _ => (exprs_composed hin).under _
  exact (unlessClosing_composed hitems).bind fun _ => (expect_composed _ _).bind fun _ =>
    (spanFrom_composed _).map

theorem members_composed (hin : inner.Composed B) (power : Nat) :
    Composed B (members inner power) :=
  (check_composed _).bind fun _ => .ite (memberList_composed hin) (hin.expr _)

theorem operatorWords_composed (width : Nat) : Composed B (operatorWords width) :=
  Composed.advance.bind fun _ => .ite Composed.advance.map (.pure _)

theorem rightOperand_composed (hin : inner.Composed B) (op : BinaryOperator) :
    Composed B (rightOperand inner op) :=
  .ite (members_composed hin _) (hin.expr _)

theorem operations_composed (hin : inner.Composed B) (power n : Nat) :
    ∀ left, Composed B (operations inner power n left) := by
  induction n with
  | zero => exact fun left => .pure left
  | succ n ih =>
    intro left
    refine peek_composed.bind fun kind => (peekAt_composed 1).bind fun next => ?_
    split
    · exact .pure left
    · exact .ite (.pure _) <| (operatorWords_composed _).bind fun _ =>
        (rightOperand_composed hin _).bind fun _ => ih _

theorem exprWith_composed (hin : inner.Composed B) (power : Nat) :
    Composed B (exprWith inner power) :=
  (operand_composed hin).bind fun _ => .get fun _ => operations_composed hin _ _ _

/-! ### Queries -/

theorem condition_composed (hin : inner.Composed B) : Composed B (condition inner) :=
  (columnsHint_composed _).bind fun _ => (hin.expr 0).under _

theorem resultColumn_composed (hin : inner.Composed B) : Composed B (resultColumn inner) :=
  (check_composed _).bind fun _ => .ite Composed.advance.map <|
    peek_composed.bind fun _ => (peekAt_composed 1).bind fun _ => (peekAt_composed 2).bind fun _ =>
      .ite (ident_composed.bind fun _ => Composed.advance.bind fun _ => Composed.advance.map)
        ((hin.expr 0).bind fun _ => alias?_composed.map)

theorem source_composed (hin : inner.Composed B) : Composed B (source inner) :=
  (check_composed _).bind fun _ => (peekAt_composed 1).bind fun _ => .ite
    (Composed.advance.bind fun _ => hin.select.bind fun _ => (expect_composed _ _).bind fun _ =>
      (spanFrom_composed _).bind fun _ => alias?_composed.map)
    (ident_composed.bind fun _ => alias?_composed.map)

theorem joinOperator?_composed (natural : Bool) : Composed B (joinOperator? natural) :=
  (check_composed _).bind fun _ => .ite Composed.advance.map <|
    (eatWord_composed _).bind fun _ => .ite
      ((eatWord_composed _).bind fun _ => (expectWord_composed _).map) <|
    (eatWord_composed _).bind fun _ => .ite (expectWord_composed _).map <|
    (eatWord_composed _).bind fun _ => .ite (expectWord_composed _).map <|
    (eatWord_composed _).bind fun _ => .ite (.pure _) <|
    .ite (.failExpected _) (.pure _)

theorem join?_composed (hin : inner.Composed B) : Composed B (join? inner) := by
  refine current_composed.bind fun _ => (eatWord_composed _).bind fun _ =>
    (joinOperator?_composed _).bind fun operator? => ?_
  cases operator? with
  | none => exact .pure _
  | some operator =>
    exact tablesHint_composed.bind fun _ => ((source_composed hin).under _).bind fun _ =>
      (afterWord_composed _ (condition_composed hin)).bind fun _ => (spanFrom_composed _).map

theorem fromClause_composed (hin : inner.Composed B) : Composed B (fromClause inner) :=
  (source_composed hin).bind fun _ => (many_composed (join?_composed hin)).map

theorem groupBy_composed (hin : inner.Composed B) : Composed B (groupBy inner) :=
  Composed.advance.bind fun _ => (expectWord_composed _).bind fun _ =>
    (columnsHint_composed _).bind fun _ => ((exprs_composed hin).under _).bind fun _ =>
      (afterWord_composed _ (condition_composed hin)).bind fun _ => (spanFrom_composed _).map

theorem direction?_composed : Composed B direction? :=
  (eatWord_composed _).bind fun _ => .ite (.pure _) <|
    (eatWord_composed _).bind fun _ => .ite (.pure _) (.pure _)

theorem nullsOrder_composed : Composed B nullsOrder :=
  (eatWord_composed _).bind fun _ => .ite (.pure _) <|
    (eatWord_composed _).bind fun _ => .ite (.pure _) (.failExpected _)

theorem orderingTerm_composed (hin : inner.Composed B) : Composed B (orderingTerm inner) :=
  (hin.expr 0).bind fun _ => direction?_composed.bind fun _ =>
    (afterWord_composed _ nullsOrder_composed).map

theorem orderBy_composed (hin : inner.Composed B) : Composed B (orderBy inner) :=
  Composed.advance.bind fun _ => (expectWord_composed _).bind fun _ =>
    (columnsHint_composed _).bind fun _ =>
      ((commaSeparated_composed (orderingTerm_composed hin)).under _).bind fun _ =>
        (spanFrom_composed _).map

theorem limit_composed (hin : inner.Composed B) : Composed B (limit inner) :=
  Composed.advance.bind fun _ => (hin.expr 0).bind fun _ =>
    (eatWord_composed _).bind fun _ => .ite
      ((hin.expr 0).bind fun _ => (spanFrom_composed _).map) <|
    (eat_composed _).bind fun _ => .ite
      ((hin.expr 0).bind fun _ => (spanFrom_composed _).map) (spanFrom_composed _).map

theorem quantifier_composed : Composed B quantifier :=
  (eatWord_composed _).bind fun _ => .ite (.pure _) (eatWord_composed _).map

/-- The sources of a query under their hint. -/
theorem hintedFrom_composed (hin : inner.Composed B) :
    Composed B (do
      let h ← tablesHint
      Parser.under { h with keywords := afterSourceKeywords } (fromClause inner)) :=
  tablesHint_composed.bind fun _ => (fromClause_composed hin).under _

theorem selectWith_beginsWith (hin : inner.Composed B) :
    BeginsWith B (expectWord .SELECT) (selectWith inner) :=
  ⟨_, rfl, fun _ => quantifier_composed.bind fun _ =>
    (columnsHint_composed _).bind fun _ =>
    ((commaSeparated_composed (resultColumn_composed hin)).under _).bind fun _ =>
    (afterWord_composed _ (hintedFrom_composed hin)).bind fun _ =>
    (afterWord_composed _ (condition_composed hin)).bind fun _ =>
    (atWord_composed _ (groupBy_composed hin)).bind fun _ =>
    (atWord_composed _ (orderBy_composed hin)).bind fun _ =>
    (atWord_composed _ (limit_composed hin)).bind fun _ => (spanFrom_composed _).map⟩

theorem selectWith_composed (hin : inner.Composed B) : Composed B (selectWith inner) :=
  (selectWith_beginsWith hin).composed (expectWord_composed _)

theorem nested_composed (depth : Nat) : (nested depth).Composed B := by
  induction depth with
  | zero => exact ⟨fun _ => .failExpected _, .failExpected _⟩
  | succ depth ih => exact ⟨exprWith_composed ih, selectWith_composed ih⟩

theorem withNesting_composed {p : Nested → Parser α}
    (hp : ∀ inner : Nested, inner.Composed B → Composed B (p inner)) : Composed B (withNesting p) :=
  .get fun _ => hp _ (nested_composed _)

theorem exprAt_composed (power : Nat) : Composed B (exprAt power) :=
  withNesting_composed fun _ hin => hin.expr power

theorem expr_composed : Composed B expr := exprAt_composed 0

theorem select_composed : Composed B select :=
  withNesting_composed fun _ hin => hin.select

/-! ### Changes -/

theorem valueRow_composed : Composed B valueRow :=
  (expect_composed _ _).bind fun _ =>
    (unlessClosing_composed (commaSeparated_composed expr_composed)).bind fun _ =>
      (expect_composed _ _).bind fun _ => (spanFrom_composed _).map

theorem columnsOf_composed (table : Ident) : Composed B (columnsOf table) :=
  (check_composed _).bind fun _ => .ite
    ((columnsOfHint_composed _).bind fun _ => identList_composed.under _) (.pure _)

theorem insert_beginsWith : BeginsWith B advance insert :=
  ⟨_, rfl, fun _ => (expectWord_composed _).bind fun _ =>
    tablesHint_composed.bind fun _ => (ident_composed.under _).bind fun _ =>
    (columnsOf_composed _).bind fun _ => (keywordsHint_composed _).bind fun _ =>
    ((expectWord_composed _).under _).bind fun _ => hint_composed.bind fun _ =>
    ((commaSeparated_composed valueRow_composed).under _).map⟩

theorem rowCondition?_composed (table : Ident) : Composed B (rowCondition? table) :=
  afterWord_composed _ ((columnsOfHint_composed _).bind fun _ => expr_composed.under _)

theorem assignment_composed : Composed B assignment :=
  ident_composed.bind fun _ => (expect_composed _ _).bind fun _ => expr_composed.map

theorem update_beginsWith : BeginsWith B advance update :=
  ⟨_, rfl, fun _ => tablesHint_composed.bind fun _ =>
    (ident_composed.under _).bind fun _ => (expectWord_composed _).bind fun _ =>
    (columnsOfHint_composed _).bind fun _ =>
    ((commaSeparated_composed assignment_composed).under _).bind fun _ =>
    (rowCondition?_composed _).map⟩

theorem delete_beginsWith : BeginsWith B advance delete :=
  ⟨_, rfl, fun _ => (expectWord_composed _).bind fun _ =>
    tablesHint_composed.bind fun _ => (ident_composed.under _).bind fun _ =>
    (rowCondition?_composed _).map⟩

/-! ### Columns -/

theorem bracketed_composed : Composed B bracketed :=
  (expect_composed _ _).bind fun _ => expr_composed.bind fun _ => (expect_composed _ _).map

theorem signedNumber_composed : Composed B signedNumber := by
  refine (peekAt_composed 1).bind fun kind => ?_
  split
  · exact exprAt_composed _
  · exact exprAt_composed _
  · exact .failExpected _

theorem defaultValue_composed : Composed B defaultValue := by
  refine literal?_composed.bind fun e? => ?_
  cases e? with
  | some e => exact .pure e
  | none =>
    refine peek_composed.bind fun kind => ?_
    split
    · exact current_composed.bind fun _ => bracketed_composed.bind fun _ =>
        (spanFrom_composed _).map
    · exact signedNumber_composed
    · exact signedNumber_composed
    · exact .ite ident_composed.map (.failExpected _)

theorem typeWord?_composed : Composed B typeWord? := by
  refine peek_composed.bind fun kind => ?_
  split
  · exact Composed.advance.map
  · exact .pure _

theorem typeParams_composed : Composed B typeParams :=
  (eat_composed _).bind fun _ => .ite
    ((commaSeparated_composed Composed.typeParam).bind fun _ => (expect_composed _ _).map) (.pure _)

theorem typeName?_composed : Composed B typeName? := by
  refine current_composed.bind fun _ => (many_composed typeWord?_composed).bind fun words => ?_
  split
  · exact .pure _
  · exact typeParams_composed.bind fun _ => (spanFrom_composed _).map

theorem foreignKeyClause_composed : Composed B foreignKeyClause :=
  (expectWord_composed _).bind fun _ => tablesHint_composed.bind fun _ =>
    (ident_composed.under _).bind fun _ => (columnsOf_composed _).map

theorem constraintName?_composed : Composed B constraintName? := afterWord_composed _ ident_composed

theorem columnRule?_composed : Composed B columnRule? := by
  refine peek_composed.bind fun kind => ?_
  split
  · exact Composed.advance.bind fun _ => (expectWord_composed _).map
  · exact Composed.advance.map
  · exact Composed.advance.bind fun _ => defaultValue_composed.map
  · exact Composed.advance.bind fun _ => (expectWord_composed _).bind fun _ =>
      direction?_composed.bind fun _ => (eatWord_composed _).map
  · exact Composed.advance.map
  · exact foreignKeyClause_composed.map
  · exact Composed.advance.bind fun _ => ident_composed.map
  · exact Composed.advance.bind fun _ => bracketed_composed.map
  · exact .pure _

theorem columnConstraint?_composed : Composed B columnConstraint? := by
  refine current_composed.bind fun _ => constraintName?_composed.bind fun _ =>
    columnRule?_composed.bind fun rule? => ?_
  cases rule? with
  | some rule => exact (spanFrom_composed _).map
  | none => exact .ite (.failExpected _) (.pure _)

theorem columnDef_composed : Composed B columnDef :=
  ident_composed.bind fun _ => (keywordsHint_composed _).bind fun _ =>
    (typeName?_composed.under _).bind fun _ => (keywordsHint_composed _).bind fun _ =>
    ((many_composed columnConstraint?_composed).under _).bind fun _ => (spanFrom_composed _).map

/-! ### Tables -/

theorem tableRule_composed : Composed B tableRule := by
  refine peek_composed.bind fun kind => ?_
  split
  · exact Composed.advance.bind fun _ => (expectWord_composed _).bind fun _ =>
      identList_composed.map
  · exact Composed.advance.bind fun _ => identList_composed.map
  · exact Composed.advance.bind fun _ => bracketed_composed.map
  · exact Composed.advance.bind fun _ => (expectWord_composed _).bind fun _ =>
      identList_composed.bind fun _ => foreignKeyClause_composed.map
  · exact .failExpected _

theorem tableConstraint_composed : Composed B tableConstraint :=
  current_composed.bind fun _ => constraintName?_composed.bind fun _ =>
    tableRule_composed.bind fun _ => (spanFrom_composed _).map

theorem tableItem_composed : Composed B tableItem :=
  peek_composed.bind fun _ => .ite tableConstraint_composed.map columnDef_composed.map

theorem ifNotExists_composed : Composed B ifNotExists :=
  (check_composed _).bind fun _ => (peekAt_composed 1).bind fun _ => .ite
    (Composed.advance.bind fun _ => Composed.advance.bind fun _ => (expectWord_composed _).map)
    (.pure _)

theorem createTable_beginsWith : BeginsWith B advance createTable :=
  ⟨_, rfl, fun _ => (expectWord_composed _).bind fun _ =>
    ifNotExists_composed.bind fun _ => ident_composed.bind fun _ =>
    (expect_composed _ _).bind fun _ => (commaSeparated_composed tableItem_composed).bind fun _ =>
    (expect_composed _ _).map⟩

theorem alterVerb_composed : Composed B alterVerb := by
  refine peek_composed.bind fun kind => ?_
  split
  · exact Composed.advance.bind fun _ => (eatWord_composed _).map
  · exact Composed.advance.bind fun _ => (eatWord_composed _).map
  · exact Composed.advance.bind fun _ => (eatWord_composed _).bind fun _ =>
      .ite (.pure _) (eatWord_composed _).map
  · exact .failExpected _

theorem alterTable_beginsWith : BeginsWith B advance alterTable := by
  refine ⟨_, rfl, fun _ => (expectWord_composed _).bind fun _ =>
    tablesHint_composed.bind fun _ => (ident_composed.under _).bind fun table =>
    (keywordsHint_composed _).bind fun _ => (alterVerb_composed.under _).bind fun verb => ?_⟩
  cases verb with
  | addColumn => exact columnDef_composed.map
  | dropColumn => exact (columnsOfHint_composed _).bind fun _ => (ident_composed.under _).map
  | renameTo => exact ident_composed.map
  | renameColumn =>
    exact (columnsOfHint_composed _).bind fun _ => (ident_composed.under _).bind fun _ =>
      (expectWord_composed _).bind fun _ => ident_composed.map

theorem ifExists_composed : Composed B ifExists :=
  (check_composed _).bind fun _ => (peekAt_composed 1).bind fun _ => .ite
    (Composed.advance.bind fun _ => Composed.advance.map) (.pure _)

theorem dropTable_beginsWith : BeginsWith B advance dropTable :=
  ⟨_, rfl, fun _ => (expectWord_composed _).bind fun _ =>
    ifExists_composed.bind fun _ => tablesHint_composed.bind fun _ => (ident_composed.under _).map⟩

/-! ### Statements -/

theorem statementBody_composed : Composed B statementBody := by
  refine peek_composed.bind fun kind => ?_
  split
  · exact select_composed.map
  · exact (insert_beginsWith.composed Composed.advance).map
  · exact (update_beginsWith.composed Composed.advance).map
  · exact (delete_beginsWith.composed Composed.advance).map
  · exact (createTable_beginsWith.composed Composed.advance).map
  · exact (alterTable_beginsWith.composed Composed.advance).map
  · exact (dropTable_beginsWith.composed Composed.advance).map
  · exact .failExpected _

theorem statement_composed : Composed B statement :=
  current_composed.bind fun _ => statementBody_composed.bind fun _ => (spanFrom_composed _).map

end Parser
end SqlAnalysis
