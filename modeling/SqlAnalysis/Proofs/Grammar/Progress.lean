import SqlAnalysis.Proofs.Grammar.LayoutStatements
import SqlAnalysis.Proofs.Grammar.Recursion
import SqlAnalysis.Token.Lexer

/-!
# Parsing makes progress

Reading a script comes to an end because every repetition and every level of nesting reads
a token. The numbers by which the definitions bound them are therefore never reached, and
a script has at most as many statements and complaints as it has tokens.
-/
namespace SqlAnalysis

open ParserState

theorem Outline.Fills.ne_nil {o : Outline} {ts : List Token} (h : o.Fills ts) : ts ≠ [] := by
  rintro rfl
  obtain ⟨t, ht, -⟩ := h.covers ⟨nofun, .nil⟩
  cases ht

theorem Laid.ne_nil {o : Outline} {ts : List Token} (h : Laid [o] ts) : ts ≠ [] := by
  obtain ⟨arranged, pieces, hperm, hpieces, hsub⟩ := h
  obtain rfl := List.perm_singleton.mp hperm
  obtain ⟨piece, more, hfills, -, rfl⟩ := List.forall₂_cons_left_iff.mp hpieces
  rw [List.flatten_cons] at hsub
  intro hnil
  rw [hnil] at hsub
  exact hfills.ne_nil (List.append_eq_nil_iff.mp (List.sublist_nil.mp hsub)).1

namespace Parser

variable {α : Type} {n : Nat}

theorem whole_fills : whole.Fills :=
  ⟨exprAt_reads, select_reads⟩

/-! ### What reads a token -/

/-- Whether a parser reads a token if it succeeds. -/
def Consumes (p : Parser α) : Prop :=
  ∀ s : ParserState, Reads p s fun _ read => read ≠ []

/-- Whether it reads one if it gives something. -/
def ConsumesForSome (p : Parser (Option α)) : Prop :=
  ∀ s : ParserState, Reads p s fun a? read => a?.isSome → read ≠ []

theorem ident_consumes : Consumes ident :=
  fun s => (ident_reads s).mono fun _ _ hname => hname.fills.ne_nil

theorem exprAt_consumes (power : Nat) : Consumes (exprAt power) :=
  fun s => (exprAt_reads power s).mono fun _ _ he => Outline.Fills.ne_nil he

theorem typeName?_consumes : ConsumesForSome typeName? := by
  refine fun s => (typeName?_reads s).mono fun name? read hname hsome => ?_
  obtain ⟨name, rfl⟩ := Option.isSome_iff_exists.mp hsome
  exact Laid.ne_nil hname

theorem statement_consumes : Consumes statement :=
  fun s => (statement_reads s).mono fun _ _ h => h.fills.ne_nil

theorem Forward.reads {p : Parser α} (hp : Forward p) (s : ParserState) :
    Reads p s fun _ _ => True := by
  intro _ a u hrun
  obtain ⟨read, hu⟩ := hp s
  rw [hrun] at hu
  exact ⟨read, hu, trivial⟩

theorem consumesForSome {p : Parser (Option α)} {P : α → List Token → Prop}
    (hp : ∀ s, Reads p s (Optional P)) (hP : ∀ a read, P a read → read ≠ []) :
    ConsumesForSome p := by
  refine fun s => (hp s).mono fun a? read ha hsome => ?_
  cases ha with
  | none => cases hsome
  | some ha => exact hP _ _ ha

/-- The parsers that are repeated as long as they give something. -/
inductive IsRepeated : {α : Type} → Parser (Option α) → Prop
  | item {α : Type} {p : Parser α} : Forward p → IsRepeated (after .comma p)
  | join : IsRepeated (join? whole)
  | constraint : IsRepeated columnConstraint?
  | word : IsRepeated typeWord?

theorem IsRepeated.consumes {p : Parser (Option α)} : IsRepeated p → ConsumesForSome p
  | .item hp => consumesForSome (after_reads rfl hp.reads) fun _ _ => Preceded.ne_nil
  | .join => consumesForSome (join?_reads whole_fills) fun _ _ => Outline.Fills.ne_nil
  | .constraint => consumesForSome columnConstraint?_reads fun _ _ => Outline.Fills.ne_nil
  | .word => consumesForSome (fun _ => .of_agree fun h => typeWord?_agree h.toExtends)
      fun _ _ hread => hread

/-! ### Rounds -/

/-- More rounds than there are tokens make no difference. -/
theorem manyUpTo_rounds {p : Parser (Option α)} (hp : ConsumesForSome p) (n : Nat) :
    ∀ n' (s : ParserState), s.final.kind = .eof → s.tokens.length < n → s.tokens.length < n' →
      (manyUpTo p n).run s = (manyUpTo p n').run s := by
  induction n with
  | zero =>
    intro _ _ _ hn
    omega
  | succ n ih =>
    intro n' s hs hn hn'
    obtain ⟨n', rfl⟩ : ∃ m, n' = m + 1 := ⟨n' - 1, by omega⟩
    rw [manyUpTo, manyUpTo, run_bind, run_bind]
    rcases hrun : p.run s with ⟨_ | a?, u⟩
    · rfl
    · obtain ⟨read, hu, hread⟩ := hp s hs _ _ hrun
      cases a? with
      | none => rfl
      | some a =>
        have hlen := hu.length_eq
        have hpos := List.length_pos_iff.mpr (hread rfl)
        have hrest := ih n' u (by rw [hu.final, hs]) (by omega) (by omega)
        dsimp only
        rw [run_bind, run_bind, hrest]

theorem dots_rounds (n : Nat) : ∀ n', n ≤ n' → ∀ e, AlikeBelow n (dots n e) (dots n' e) := by
  induction n with
  | zero =>
    intro _ _ _ s hs
    omega
  | succ n ih =>
    intro n' hn' e
    obtain ⟨n', rfl⟩ : ∃ m, n' = m + 1 := ⟨n' - 1, by omega⟩
    exact .ifEat nofun (.andThen hint_composed fun _ => .andThen (ident_composed.under _) fun _ =>
      ih n' (by omega) _) (.refl _)

theorem operations_rounds (power n : Nat) :
    ∀ n', n ≤ n' → ∀ left, AlikeBelow n (operations whole power n left)
      (operations whole power n' left) := by
  induction n with
  | zero =>
    intro _ _ _ s hs
    omega
  | succ n ih =>
    intro n' hn' left
    obtain ⟨n', rfl⟩ : ∃ m, n' = m + 1 := ⟨n' - 1, by omega⟩
    refine .peek fun kind => .peekAt 1 fun next => ?_
    cases hnext : BinaryOperator.ofTokens? kind next with
    | none => exact (AlikeBelow.refl _).at_kind
    | some first =>
      refine .ite (AlikeBelow.refl _).at_kind (.operatorWords hnext fun _ => ?_)
      exact .andThen (rightOperand_composed whole_composed _) fun right => ih n' (by omega) _

/-! ### The functions of the grammar -/

/-- The parse functions of the grammar, and what is put together of them. -/
inductive IsParseFunction : {α : Type} → Parser α → Prop
  | under {α : Type} {p : Parser α} (h : Hint) : IsParseFunction p → IsParseFunction (under h p)
  | after {α : Type} {p : Parser α} (kind : TokenKind) :
      IsParseFunction p → IsParseFunction (after kind p)
  | many {α : Type} {p : Parser (Option α)} : IsParseFunction p → IsParseFunction (many p)
  | commaSeparated {α : Type} {p : Parser α} :
      IsParseFunction p → IsParseFunction (commaSeparated p)
  | unlessClosing {α : Type} {p : Parser (List α)} :
      IsParseFunction p → IsParseFunction (unlessClosing p)
  | atWord {α : Type} {p : Parser α} (word : Keyword) :
      IsParseFunction p → IsParseFunction (atWord word p)
  | advance : IsParseFunction advance
  | eat (kind : TokenKind) : IsParseFunction (eat kind)
  | expect (kind : TokenKind) (what : String) : IsParseFunction (expect kind what)
  | ident : IsParseFunction ident
  | identList : IsParseFunction identList
  | label : IsParseFunction alias?
  | literal : IsParseFunction literal?
  | bracketTerm : IsParseFunction (bracketTerm whole)
  | call (function : Ident) : IsParseFunction (call whole function)
  | dots (rounds : Nat) (e : Expr) : IsParseFunction (dots rounds e)
  | nameTerm : IsParseFunction (nameTerm whole)
  | minusTerm : IsParseFunction (minusTerm whole)
  | plusTerm : IsParseFunction (plusTerm whole)
  | notTerm : IsParseFunction (notTerm whole)
  | operand : IsParseFunction (operand whole)
  | memberList : IsParseFunction (memberList whole)
  | members (power : Nat) : IsParseFunction (members whole power)
  | operatorWords (width : Nat) : IsParseFunction (operatorWords width)
  | rightOperand (op : BinaryOperator) : IsParseFunction (rightOperand whole op)
  | operations (power rounds : Nat) (left : Expr) :
      IsParseFunction (operations whole power rounds left)
  | exprAt (power : Nat) : IsParseFunction (exprAt power)
  | condition : IsParseFunction (condition whole)
  | resultColumn : IsParseFunction (resultColumn whole)
  | source : IsParseFunction (source whole)
  | joinOperator (natural : Bool) : IsParseFunction (joinOperator? natural)
  | join : IsParseFunction (join? whole)
  | fromClause : IsParseFunction (fromClause whole)
  | groupBy : IsParseFunction (groupBy whole)
  | direction : IsParseFunction direction?
  | nullsOrder : IsParseFunction nullsOrder
  | orderingTerm : IsParseFunction (orderingTerm whole)
  | orderBy : IsParseFunction (orderBy whole)
  | limit : IsParseFunction (limit whole)
  | quantifier : IsParseFunction quantifier
  | select : IsParseFunction select
  | valueRow : IsParseFunction valueRow
  | columnsOf (table : Ident) : IsParseFunction (columnsOf table)
  | insert : IsParseFunction insert
  | rowCondition (table : Ident) : IsParseFunction (rowCondition? table)
  | assignment : IsParseFunction assignment
  | update : IsParseFunction update
  | delete : IsParseFunction delete
  | bracketed : IsParseFunction bracketed
  | signedNumber : IsParseFunction signedNumber
  | defaultValue : IsParseFunction defaultValue
  | typeWord : IsParseFunction typeWord?
  | typeParam : IsParseFunction typeParam
  | typeParams : IsParseFunction typeParams
  | typeName : IsParseFunction typeName?
  | foreignKeyClause : IsParseFunction foreignKeyClause
  | constraintName : IsParseFunction constraintName?
  | columnRule : IsParseFunction columnRule?
  | columnConstraint : IsParseFunction columnConstraint?
  | columnDef : IsParseFunction columnDef
  | tableRule : IsParseFunction tableRule
  | tableConstraint : IsParseFunction tableConstraint
  | tableItem : IsParseFunction tableItem
  | ifNotExists : IsParseFunction ifNotExists
  | createTable : IsParseFunction createTable
  | alterVerb : IsParseFunction alterVerb
  | alterTable : IsParseFunction alterTable
  | ifExists : IsParseFunction ifExists
  | dropTable : IsParseFunction dropTable
  | statementBody : IsParseFunction statementBody
  | statement : IsParseFunction statement

/-- Every one of them is put together from the steps of the grammar. -/
theorem IsParseFunction.composed {p : Parser α} (h : IsParseFunction p) : Composed B p := by
  induction h with
  | under h _ ih => exact ih.under h
  | after kind _ ih => exact after_composed kind ih
  | many _ ih => exact many_composed ih
  | commaSeparated _ ih => exact commaSeparated_composed ih
  | unlessClosing _ ih => exact unlessClosing_composed ih
  | atWord word _ ih => exact atWord_composed word ih
  | advance => exact .advance
  | eat kind => exact eat_composed kind
  | expect kind what => exact expect_composed kind what
  | ident => exact ident_composed
  | identList => exact identList_composed
  | label => exact alias?_composed
  | literal => exact literal?_composed
  | bracketTerm => exact bracketTerm_composed whole_composed
  | call function => exact call_composed whole_composed function
  | dots rounds e => exact dots_composed rounds e
  | nameTerm => exact nameTerm_composed whole_composed
  | minusTerm => exact minusTerm_composed whole_composed
  | plusTerm => exact plusTerm_composed whole_composed
  | notTerm => exact notTerm_composed whole_composed
  | operand => exact operand_composed whole_composed
  | memberList => exact memberList_composed whole_composed
  | members power => exact members_composed whole_composed power
  | operatorWords width => exact operatorWords_composed width
  | rightOperand op => exact rightOperand_composed whole_composed op
  | operations power rounds left => exact operations_composed whole_composed power rounds left
  | exprAt power => exact exprAt_composed power
  | condition => exact condition_composed whole_composed
  | resultColumn => exact resultColumn_composed whole_composed
  | source => exact source_composed whole_composed
  | joinOperator natural => exact joinOperator?_composed natural
  | join => exact join?_composed whole_composed
  | fromClause => exact fromClause_composed whole_composed
  | groupBy => exact groupBy_composed whole_composed
  | direction => exact direction?_composed
  | nullsOrder => exact nullsOrder_composed
  | orderingTerm => exact orderingTerm_composed whole_composed
  | orderBy => exact orderBy_composed whole_composed
  | limit => exact limit_composed whole_composed
  | quantifier => exact quantifier_composed
  | select => exact select_composed
  | valueRow => exact valueRow_composed
  | columnsOf table => exact columnsOf_composed table
  | insert => exact insert_beginsWith.composed .advance
  | rowCondition table => exact rowCondition?_composed table
  | assignment => exact assignment_composed
  | update => exact update_beginsWith.composed .advance
  | delete => exact delete_beginsWith.composed .advance
  | bracketed => exact bracketed_composed
  | signedNumber => exact signedNumber_composed
  | defaultValue => exact defaultValue_composed
  | typeWord => exact typeWord?_composed
  | typeParam => exact .typeParam
  | typeParams => exact typeParams_composed
  | typeName => exact typeName?_composed
  | foreignKeyClause => exact foreignKeyClause_composed
  | constraintName => exact constraintName?_composed
  | columnRule => exact columnRule?_composed
  | columnConstraint => exact columnConstraint?_composed
  | columnDef => exact columnDef_composed
  | tableRule => exact tableRule_composed
  | tableConstraint => exact tableConstraint_composed
  | tableItem => exact tableItem_composed
  | ifNotExists => exact ifNotExists_composed
  | createTable => exact createTable_beginsWith.composed .advance
  | alterVerb => exact alterVerb_composed
  | alterTable => exact alterTable_beginsWith.composed .advance
  | ifExists => exact ifExists_composed
  | dropTable => exact dropTable_beginsWith.composed .advance
  | statementBody => exact statementBody_composed
  | statement => exact statement_composed

/-! ### Statements -/

theorem expect_run {s : ParserState} {kind : TokenKind} (hs : s.kindAt 0 = kind) (what : String) :
    (expect kind what).run s = (.ok s.current, s.advance) := by
  have hcheck : (check kind).run s = (.ok (decide (s.kindAt 0 = kind)), s) := rfl
  rw [expect, run_bind, hcheck, decide_eq_true hs]
  rfl

/-- Whether a parser reads a token at a state, whatever comes of it. -/
def ReadsOn (p : Parser α) (s : ParserState) : Prop :=
  ∃ read, read ≠ [] ∧ s.Took read (p.run s).2

theorem ReadsOn.bind {β : Type} {p : Parser α} {f : α → Parser β} {s : ParserState}
    (hp : ReadsOn p s) (hf : ∀ a, Forward (f a)) : ReadsOn (p >>= f) s := by
  obtain ⟨read, hread, hu⟩ := hp
  rw [ReadsOn, run_bind]
  rcases hrun : p.run s with ⟨_ | a, u⟩
  · rw [hrun] at hu
    exact ⟨read, hread, hu⟩
  · rw [hrun] at hu
    obtain ⟨more, hv⟩ := hf a u
    exact ⟨read ++ more, by simp [hread], hu.trans hv⟩

/-- A result that is put under a constructor. -/
theorem ReadsOn.map {β : Type} {p : Parser α} {g : α → β} {s : ParserState} (hp : ReadsOn p s) :
    ReadsOn (do return g (← p)) s :=
  hp.bind fun _ => .pure _

theorem select_readsOn {s : ParserState} (hne : s.tokens ≠ [])
    (hs : s.kindAt 0 = .keyword .SELECT) : ReadsOn select s := by
  rw [ReadsOn, select_run]
  exact (selectWith_beginsWith whole_composed).startsWith.exists_took hne (expect_run hs _)

/-- A statement that has begun reads a token, even if it fails. -/
theorem statementBody_readsOn {s : ParserState} (hne : s.tokens ≠ [])
    (hstart : (s.kindAt 0).isStatementStart = true) : ReadsOn statementBody s := by
  have hpeek : peek.run s = (.ok (s.kindAt 0), s) := rfl
  rw [ReadsOn, statementBody, run_bind, hpeek]
  dsimp only
  split
  · next hkind => exact (select_readsOn hne hkind).map
  · exact ReadsOn.map (insert_beginsWith.startsWith.exists_took hne rfl)
  · exact ReadsOn.map (update_beginsWith.startsWith.exists_took hne rfl)
  · exact ReadsOn.map (delete_beginsWith.startsWith.exists_took hne rfl)
  · exact ReadsOn.map (createTable_beginsWith.startsWith.exists_took hne rfl)
  · exact ReadsOn.map (alterTable_beginsWith.startsWith.exists_took hne rfl)
  · exact ReadsOn.map (dropTable_beginsWith.startsWith.exists_took hne rfl)
  · next hselect hinsert hupdate hdelete hcreate halter hdrop =>
    generalize s.kindAt 0 = kind at *
    unfold TokenKind.isStatementStart Keyword.isStatementStart at hstart
    split at hstart
    · split at hstart <;> simp_all
    · cases hstart

theorem statement_readsOn {s : ParserState} (hne : s.tokens ≠ [])
    (hstart : s.current.kind.isStatementStart = true) : ReadsOn statement s := by
  obtain ⟨t, ts, hts⟩ := List.exists_cons_of_ne_nil hne
  have hkind : s.kindAt 0 = s.current.kind := by simp [kindAt, ParserState.current, hts]
  have hbody := statementBody_readsOn hne (hkind ▸ hstart)
  exact hbody.bind fun body => (spanFrom_composed _).map.forward

end Parser

/-! ### The main loop -/

namespace ParserState

theorem exists_took_skipWhile (p : TokenKind → Bool) (s : ParserState) :
    ∃ read, s.Took read (s.skipWhile p) := by
  unfold skipWhile
  generalize s.tokens.takeWhile (fun t => p t.kind) = skipped
  induction skipped generalizing s with
  | nil => exact ⟨[], .refl s⟩
  | cons t ts ih =>
    obtain ⟨read, hread⟩ := s.exists_took_advance
    obtain ⟨more, hmore⟩ := ih s.advance
    exact ⟨read ++ more, hread.trans hmore⟩

end ParserState

namespace Script

variable {s : ParserState}

/-- A round of the loop reads a token by itself. -/
theorem step_exists_took (hne : s.tokens ≠ []) :
    ∃ read, read ≠ [] ∧ s.Took read (step s).2.2 := by
  unfold step
  split
  · next hstart =>
    obtain ⟨read, hread, hu⟩ := Parser.statement_readsOn hne hstart
    rcases hrun : Parser.statement.run s with ⟨_ | statement, u⟩
    all_goals rw [hrun] at hu
    all_goals obtain ⟨skipped, hskipped⟩ := u.exists_took_skipWhile isSkipped
    · exact ⟨read ++ skipped, by simp [hread], hu.trans hskipped⟩
    · dsimp only
      split
      · exact ⟨read, hread, hu⟩
      · exact ⟨read ++ skipped, by simp [hread], hu.trans hskipped⟩
  · obtain ⟨t, ts, hts⟩ := List.exists_cons_of_ne_nil hne
    exact ⟨[t], List.cons_ne_nil _ _, took_advance hts⟩

/-- So there is nothing for the next round to skip. -/
theorem nextRound_eq (hne : s.tokens ≠ []) : nextRound s = (step s).2.2 := by
  obtain ⟨read, hread, hu⟩ := step_exists_took hne
  have hpos := List.length_pos_iff.mpr hread
  have hlen := hu.length_eq
  exact if_pos (by omega)

theorem step_length_le (s : ParserState) :
    (step s).1.toList.length ≤ 1 ∧ (step s).2.1.length ≤ 1 := by
  unfold step
  split
  · split
    · split <;> simp
    · simp
  · simp

theorem exists_took_skipGap (separated : Bool) (s : ParserState) :
    ∃ read, s.Took read (skipGap separated s) := by
  obtain ⟨read, hread⟩ := s.exists_took_skipWhile (· = .semicolon)
  unfold skipGap
  split
  · exact ⟨read, hread.tokens, hread.final, hread.lastSpan⟩
  · exact ⟨read, hread⟩

/-- Whether a reading is that of a later state, after a round that has read a token and
given one statement and one complaint at most. -/
def Advances (s : ParserState) (reading : List Statement × List Diagnostic × List Hint) : Prop :=
  ∃ (statements : List Statement) (errors : List Diagnostic) (read : List Token)
    (next : ParserState), read ≠ [] ∧ s.Took read next ∧ statements.length ≤ 1 ∧
      errors.length ≤ 1 ∧ reading = (statements ++ (readFrom false next).1,
        errors ++ (readFrom false next).2.1, (readFrom false next).2.2)

/-- The loop stops at the end of the tokens, or goes on with fewer of them. -/
theorem readFrom_advances (separated : Bool) (s : ParserState) :
    ((skipGap separated s).tokens = [] ∧
        readFrom separated s = ([], [], (skipGap separated s).hints)) ∨
      Advances s (readFrom separated s) := by
  by_cases hnil : (skipGap separated s).tokens = []
  · exact .inl ⟨hnil, readFrom_of_nil hnil⟩
  · obtain ⟨gap, hgap⟩ := exists_took_skipGap separated s
    obtain ⟨read, hread, htook⟩ := step_exists_took hnil
    obtain ⟨hstatements, herrors⟩ := step_length_le (skipGap separated s)
    rw [readFrom_of_ne_nil rfl hnil, nextRound_eq hnil]
    exact .inr ⟨_, _, gap ++ read, _, by simp [hread], hgap.trans htook, hstatements, herrors, rfl⟩

theorem readFrom_length_le (n : Nat) : ∀ separated s, s.tokens.length < n →
    (readFrom separated s).1.length ≤ s.tokens.length ∧
      (readFrom separated s).2.1.length ≤ s.tokens.length := by
  induction n with
  | zero =>
    intro _ _ hn
    omega
  | succ n ih =>
    intro separated s hn
    rcases readFrom_advances separated s with ⟨-, hreading⟩ | ⟨statements, errors, read, next,
      hread, htook, hstatements, herrors, hreading⟩
    · simp [hreading]
    · have hpos := List.length_pos_iff.mpr hread
      have hlen := htook.length_eq
      have hrest := ih false next (by omega)
      rw [hreading]
      simp only [List.length_append]
      omega

end Script

/-- Blanks, comments and whatever stands behind the end are not read. -/
theorem ParserState.length_start_le (tokens : List Token) :
    (start tokens).tokens.length ≤ tokens.countP fun t => !t.kind.isTrivia && t.kind ≠ .eof := by
  have hsub : (start tokens).tokens.Sublist tokens :=
    (List.takeWhile_sublist _).trans List.filter_sublist
  have hall : ∀ t ∈ (start tokens).tokens, (!t.kind.isTrivia && t.kind ≠ .eof) = true := by
    intro t ht
    have hkind := List.mem_takeWhile_imp ht
    have htrivia := (List.mem_filter.mp ((List.takeWhile_sublist _).subset ht)).2
    rw [Bool.and_eq_true]
    exact ⟨htrivia, hkind⟩
  rw [← List.countP_eq_length.mpr hall]
  exact hsub.countP_le

namespace Script

open SqlAnalysis.Parser

/-- Parsing comes to an end, whatever it is given, because it makes progress everywhere.

What can stand inside an expression or a query is read after a token of it, so that the
recursion is one on fewer tokens; the bounds on the depth and on the rounds, which the
definitions have, are never reached. No parse function goes back or past the end, those
that succeed with something read a token, and so does every round of the loop over the
statements. -/
theorem ofTokens_progresses (tokens : List Token) :
    (∀ n (inner inner' : Nested), inner.Forward → Nested.AlikeBelow n inner inner' →
      Nested.AlikeBelow (n + 1) ⟨exprWith inner, selectWith inner⟩
        ⟨exprWith inner', selectWith inner'⟩) ∧
    (∀ s, (∀ power, (exprAt power).run s = (exprWith whole power).run s) ∧
      select.run s = (selectWith whole).run s) ∧
    (∀ depth, Nested.AlikeBelow depth (nested depth) whole) ∧
    (∀ (α : Type) (p : Parser (Option α)), IsRepeated p → ∀ n n' (s : ParserState),
      s.final.kind = .eof → s.tokens.length < n → s.tokens.length < n' →
        (manyUpTo p n).run s = (manyUpTo p n').run s) ∧
    (∀ n n', n ≤ n' → (∀ e, AlikeBelow n (dots n e) (dots n' e)) ∧
      ∀ power left, AlikeBelow n (operations whole power n left)
        (operations whole power n' left)) ∧
    (∀ (α : Type) (p : Parser α), IsParseFunction p → Forward p) ∧
    ((∀ power, Consumes (exprAt power)) ∧ Consumes ident ∧ ConsumesForSome typeName? ∧
      Consumes statement) ∧
    (start tokens).final.kind = .eof ∧
    (∀ separated s, ((skipGap separated s).tokens = [] ∧
        readFrom separated s = ([], [], (skipGap separated s).hints)) ∨
      Advances s (readFrom separated s)) ∧
    (ofTokens tokens).statements.length ≤
      tokens.countP (fun t => !t.kind.isTrivia && t.kind ≠ .eof) ∧
    (ofTokens tokens).errors.length ≤
      tokens.countP fun t => !t.kind.isTrivia && t.kind ≠ .eof := by
  have hlength := readFrom_length_le _ true (start tokens) (Nat.lt_succ_self _)
  have hstart := length_start_le tokens
  refine ⟨?guarded, fun s => ⟨fun power => exprAt_run power s, select_run s⟩,
    nested_below_whole, fun α p hp => manyUpTo_rounds hp.consumes,
    fun n n' hn => ⟨dots_rounds n n' hn, fun power => operations_rounds power n n' hn⟩,
    fun α p hp => hp.composed.forward,
    ⟨exprAt_consumes, ident_consumes, typeName?_consumes, statement_consumes⟩,
    final_start tokens, readFrom_advances, Nat.le_trans hlength.1 hstart,
    Nat.le_trans hlength.2 hstart⟩
  case guarded =>
    intro n inner inner' hforward hin
    exact ⟨exprWith_below hin hforward.composed, selectWith_below hin hforward.composed⟩

/-- `SELECT a FROM t; DROP TABLE s; SELECT b FROM`, cut off in front of a table and without an
end: two statements are read and one is given up. -/
theorem ofTokens_progresses_cut :
    let tokens := (Lexed.ofText "SELECT a FROM t; DROP TABLE s; SELECT b FROM u").tokens.take 21
    let s := start tokens
    (∀ t ∈ tokens, t.kind ≠ .eof) ∧ s.final.kind = .eof ∧
      select.run s = (selectWith whole).run s ∧
      (∃ a u read, statement.run s = (.ok a, u) ∧ s.Took read u ∧ read ≠ []) ∧
      Advances s (readFrom true s) ∧
      (ofTokens tokens).statements.map Statement.span = [⟨0, 15⟩, ⟨17, 29⟩] ∧
      (ofTokens tokens).statements.length ≤ 12 ∧
      (ofTokens tokens).errors.length = 1 ∧ (ofTokens tokens).errors.length ≤ 12 := by
  intro tokens s
  obtain ⟨-, hdepth, -, -, -, -, ⟨-, -, -, hconsumes⟩, hfinal, hadvances, hstatements, herrors⟩ :=
    ofTokens_progresses tokens
  have hcount : tokens.countP (fun t => !t.kind.isTrivia && t.kind ≠ .eof) = 12 := by
    decide +kernel
  rw [hcount] at hstatements herrors
  have hread : ∃ a u read, statement.run s = (.ok a, u) ∧ s.Took read u ∧ read ≠ [] := by
    rcases hrun : statement.run s with ⟨_ | a, u⟩
    · have hok : (statement.run s).1.isOk = true := by decide +kernel
      rw [hrun] at hok
      cases hok
    · exact ⟨a, u, (hconsumes s hfinal a u hrun).imp fun _ h => ⟨rfl, h⟩⟩
  have hrest : (skipGap true s).tokens ≠ [] := by decide +kernel
  exact ⟨by decide +kernel, hfinal, (hdepth s).2, hread,
    (hadvances true s).resolve_left fun h => hrest h.1, by decide +kernel, hstatements,
    by decide +kernel, herrors⟩

end Script
end SqlAnalysis
