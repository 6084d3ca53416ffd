import SqlAnalysis.Proofs.Grammar.Production
import SqlAnalysis.Proofs.Grammar.Rereading

/-!
# What statements are built of

Whatever builds expressions and queries holds of those in the statements of a script.
The rules of a table are built of plain names, types and values too.
-/
namespace SqlAnalysis

namespace ParserState

variable {s : ParserState}

/-- The kinds of a state where more than one token is left. -/
theorem kinds_eq_cons_cons (h : s.kindAt 1 ≠ .eof) :
    s.kinds = s.kindAt 0 :: s.kindAt 1 :: s.kinds.drop 2 := by
  rw [kindAt_kinds] at h
  rw [kindAt_kinds, kindAt_kinds]
  match hkinds : s.kinds with
  | [] => simp [hkinds] at h
  | [k] => simp [hkinds] at h
  | k :: k' :: ks => rfl

end ParserState

section

variable {P : Expr → Prop} {S : Select → Prop}

namespace Parser

/-- What is accepted where a parser starts is what it gives there. -/
theorem Accepts.result {α : Type} {p : Parser α} {left : List TokenKind} {Q : α → Prop}
    {s : ParserState} (h : Accepts p s.kinds left Q) {a : α} (ha : (p.run s).1 = .ok a) : Q a := by
  obtain ⟨b, u, hrun, -, hb⟩ := h s rfl
  rw [hrun] at ha
  cases ha
  exact hb

/-! ### Statements that change rows -/

theorem valueRow_gives (builds : Builds P S) :
    Gives valueRow fun row => ∀ e ∈ row.values, P e :=
  (expect_gives _ _).bind fun _ _ => (unlessClosing_gives
    ((commaSeparated_gives (expr_gives builds)).mono fun _ h => h.2)).bind fun _ hvalues =>
      (expect_gives _ _).bind fun _ _ => (spanFrom_gives _).bind fun _ _ => .pure hvalues

theorem columnsOf_gives (table : Ident) :
    Gives (columnsOf table) fun names => ∀ name ∈ names, name.Plain :=
  (check_gives _).bind fun _ _ => .ite
    ((columnsOfHint_gives _).bind fun _ _ => under_gives _ (identList_gives.mono fun _ h => h.2))
    (.pure (by simp))

theorem insert_gives (builds : Builds P S) : Gives insert (Insert.BuiltOf P) := by
  refine advance_gives.bind fun _ _ => (expect_gives _ _).bind fun _ _ =>
    tablesHint_gives.bind fun _ _ => (under_gives _ ident_gives).bind fun table htable =>
      (columnsOf_gives table).bind fun columns hcolumns => ?_
  refine (keywordsHint_gives _).bind fun _ _ => (under_gives _ (expect_gives _ _)).bind fun _ _ =>
    hint_gives.bind fun _ _ => ?_
  exact (under_gives _ (commaSeparated_gives (valueRow_gives builds))).bind fun rows hrows =>
    .pure ⟨htable, hcolumns, hrows.1, hrows.2, rfl, rfl⟩

theorem rowCondition?_gives (builds : Builds P S) (table : Ident) :
    Gives (rowCondition? table) fun o => ∀ e ∈ o, P e :=
  afterWord_gives _ ((columnsOfHint_gives _).bind fun _ _ => under_gives _ (expr_gives builds))

theorem assignment_gives (builds : Builds P S) : Gives assignment (Assignment.BuiltOf P) :=
  ident_gives.bind fun _ hcolumn => (expect_gives _ _).bind fun _ _ =>
    (expr_gives builds).bind fun _ hvalue => .pure ⟨hcolumn, hvalue, rfl⟩

theorem update_gives (builds : Builds P S) : Gives update (Update.BuiltOf P) := by
  refine advance_gives.bind fun _ _ => tablesHint_gives.bind fun _ _ =>
    (under_gives _ ident_gives).bind fun table htable => (expect_gives _ _).bind fun _ _ => ?_
  refine (columnsOfHint_gives _).bind fun _ _ =>
    (under_gives _ (commaSeparated_gives (assignment_gives builds))).bind fun _ hassignments => ?_
  exact (rowCondition?_gives builds table).bind fun _ hcondition =>
    .pure ⟨htable, hassignments.1, hassignments.2, hcondition, rfl⟩

theorem delete_gives (builds : Builds P S) : Gives delete (Delete.BuiltOf P) :=
  advance_gives.bind fun _ _ => (expect_gives _ _).bind fun _ _ => tablesHint_gives.bind fun _ _ =>
    (under_gives _ ident_gives).bind fun table htable =>
      (rowCondition?_gives builds table).bind fun _ hcondition => .pure ⟨htable, hcondition, rfl⟩

/-! ### Statements that define tables -/

theorem bracketed_gives (builds : Builds P S) : Gives bracketed P :=
  (expect_gives _ _).bind fun _ _ => (expr_gives builds).bind fun _ he =>
    (expect_gives _ _).bind fun _ _ => .pure he

theorem signedNumber_gives (builds : Builds P S) : Gives signedNumber P := by
  refine (peekAt_gives 1).bind fun kind _ => ?_
  split
  · exact exprAt_gives builds _
  · exact exprAt_gives builds _
  · exact .fail _

/-- A number is read after the sign. -/
theorem exists_number {s : ParserState} {e : Expr} (h : (signedNumber.run s).1 = .ok e) :
    ∃ value, literalOf? (s.kindAt 1) = some value ∧ value.isNumber = true ∧
      ((exprAt BinaryOperator.signPower).run s).1 = .ok e := by
  have hpeek : (peekAt 1).run s = (.ok (s.kindAt 1), s) := rfl
  rw [signedNumber, run_bind, hpeek] at h
  dsimp only at h
  cases hkind : s.kindAt 1 with
  | integer n =>
    simp only [hkind] at h
    exact ⟨.integer n, rfl, rfl, h⟩
  | float x =>
    simp only [hkind] at h
    exact ⟨.float x, rfl, rfl, h⟩
  | _ =>
    simp only [hkind] at h
    cases h

theorem signedNumber_built {s : ParserState} (hs : s.Plain)
    (hsign : s.kindAt 0 = .minus ∨ s.kindAt 0 = .plus) {e : Expr}
    (h : (signedNumber.run s).1 = .ok e) : e.DefaultOf P := by
  obtain ⟨value, hvalue, hnumber, hrun⟩ := exists_number h
  have hplain := literal_plain (hs.kindAt 1) hvalue
  have hkinds : s.kinds = s.kindAt 0 :: s.kindAt 1 :: s.kinds.drop 2 := by
    refine ParserState.kinds_eq_cons_cons fun heof => ?_
    rw [heof] at hvalue
    cases hvalue
  rcases hsign with hsign | hsign
  · have haccepts : Accepts (exprAt BinaryOperator.signPower) (.minus :: s.kindAt 1 :: s.kinds.drop 2)
        (s.kinds.drop 2) _ := exprAt_minus hvalue
    rw [← hsign, ← hkinds] at haccepts
    obtain ⟨span, span', rfl⟩ := haccepts.result hrun
    exact .negative hplain hnumber
  · have haccepts : Accepts (exprAt BinaryOperator.signPower) (.plus :: s.kindAt 1 :: s.kinds.drop 2)
        (s.kinds.drop 2) _ := exprAt_plus hvalue
    rw [← hsign, ← hkinds] at haccepts
    obtain ⟨span, rfl⟩ := haccepts.result hrun
    exact .constant hplain

theorem defaultValue_gives (builds : Builds P S) : Gives defaultValue (Expr.DefaultOf P) := by
  refine literal?_plain.bind fun o ho => ?_
  cases o with
  | some e =>
    obtain ⟨span, value, rfl, hvalue⟩ := ho e rfl
    exact .pure (.constant hvalue)
  | none =>
    have hsigned {s : ParserState} (hs : s.Plain)
        (hsign : s.kindAt 0 = .minus ∨ s.kindAt 0 = .plus) :
        (signedNumber.run s).2.Plain ∧
          ∀ e, (signedNumber.run s).1 = .ok e → Expr.DefaultOf P e :=
      ⟨(signedNumber_gives builds s hs).1, fun e he => signedNumber_built hs hsign he⟩
    have hbracket : Gives (do
        let start := (← current).span
        let inner ← bracketed
        return .brackets { span := ← spanFrom start } inner) (Expr.DefaultOf P) :=
      current_gives.bind fun _ _ => (bracketed_gives builds).bind fun _ hinner =>
        (spanFrom_gives _).bind fun _ _ => .pure (.brackets hinner)
    have hname : Gives (do
        let name ← ident
        return .name { span := name.span } name) (Expr.DefaultOf P) :=
      ident_gives.bind fun _ hident => .pure (.name hident)
    intro s hs
    have hpeek : peek.run s = (.ok (s.kindAt 0), s) := rfl
    rw [run_bind, hpeek]
    dsimp only
    split
    · exact hbracket s hs
    · next hkind => exact hsigned hs (.inl hkind)
    · next hkind => exact hsigned hs (.inr hkind)
    · exact Gives.ite hname (.fail _) s hs

theorem typeWord?_gives : Gives typeWord? fun o => ∀ word ∈ o, TokenKind.Plain (.name word) := by
  refine peek_gives.bind fun kind hkind => ?_
  split
  · exact advance_gives.bind fun _ _ => .pure (by simpa using hkind)
  · exact .pure (by simp)

theorem typeParam_gives : Gives typeParam (· ≤ Text.maxWord) := by
  refine current_gives.bind fun t _ => ?_
  split
  · refine advance_gives.bind fun _ _ => ?_
    split
    · next hvalue => exact .pure hvalue
    · exact fun _ hs => ⟨hs, fun _ h => nomatch h⟩
  · exact .fail _

theorem typeParams_gives : Gives typeParams fun params => ∀ n ∈ params, n ≤ Text.maxWord := by
  refine (eat_gives _).bind fun _ _ => .ite ?_ (.pure (by simp))
  exact (commaSeparated_gives typeParam_gives).bind fun _ hparams =>
    (expect_gives _ _).bind fun _ _ => .pure hparams.2

theorem typeName?_gives : Gives typeName? fun o => ∀ t ∈ o, t.Plain := by
  refine current_gives.bind fun _ _ => (many_gives typeWord?_gives).bind fun words hwords => ?_
  split
  · exact .pure (by simp)
  · next hne =>
    refine typeParams_gives.bind fun params hparams => (spanFrom_gives _).bind fun span _ => .pure ?_
    rintro _ ⟨⟩
    refine ⟨fun word hword => hwords word ?_, hparams⟩
    rwa [TypeName.nameWords_joinWith hne hwords] at hword

theorem foreignKeyClause_gives : Gives foreignKeyClause ForeignKeyClause.Plain :=
  (expect_gives _ _).bind fun _ _ => tablesHint_gives.bind fun _ _ =>
    (under_gives _ ident_gives).bind fun table htable => (columnsOf_gives table).bind
      fun _ hcolumns => .pure ⟨htable, hcolumns⟩

theorem constraintName?_gives : Gives constraintName? fun o => ∀ name ∈ o, name.Plain :=
  afterWord_gives _ ident_gives

theorem columnRule?_gives (builds : Builds P S) :
    Gives columnRule? fun o => ∀ rule ∈ o, rule.BuiltOf P := by
  have hsome {rule : ColumnRule} (h : rule.BuiltOf P) :
      ∀ rule' ∈ some rule, rule'.BuiltOf P := by simpa using h
  refine peek_gives.bind fun kind _ => ?_
  split
  · exact advance_gives.bind fun _ _ => (expect_gives _ _).bind fun _ _ => .pure (hsome trivial)
  · exact advance_gives.bind fun _ _ => .pure (hsome trivial)
  · exact advance_gives.bind fun _ _ => (defaultValue_gives builds).bind fun _ hvalue =>
      .pure (hsome hvalue)
  · exact advance_gives.bind fun _ _ => (expect_gives _ _).bind fun _ _ =>
      direction?_gives.bind fun _ _ => (eat_gives _).bind fun _ _ => .pure (hsome trivial)
  · exact advance_gives.bind fun _ _ => .pure (hsome trivial)
  · exact foreignKeyClause_gives.bind fun _ hclause => .pure (hsome hclause)
  · exact advance_gives.bind fun _ _ => ident_gives.bind fun _ hident => .pure (hsome hident)
  · exact advance_gives.bind fun _ _ => (bracketed_gives builds).bind fun _ he => .pure (hsome he)
  · exact .pure (by simp)

theorem columnConstraint?_gives (builds : Builds P S) :
    Gives columnConstraint? fun o => ∀ c ∈ o, c.BuiltOf P := by
  refine current_gives.bind fun _ _ => constraintName?_gives.bind fun name hname =>
    (columnRule?_gives builds).bind fun rule hrule => ?_
  split
  · exact (spanFrom_gives _).bind fun _ _ => .pure (by simpa using ⟨hname, hrule _ rfl⟩)
  · exact .ite (.fail _) (.pure (by simp))

theorem columnDef_gives (builds : Builds P S) : Gives columnDef (ColumnDef.BuiltOf P) :=
  ident_gives.bind fun _ hname => (keywordsHint_gives _).bind fun _ _ =>
    (under_gives _ typeName?_gives).bind fun _ htype => (keywordsHint_gives _).bind fun _ _ =>
      (under_gives _ (many_gives (columnConstraint?_gives builds))).bind fun _ hconstraints =>
        (spanFrom_gives _).bind fun _ _ => .pure ⟨hname, htype, hconstraints, rfl, rfl⟩

theorem tableRule_gives (builds : Builds P S) : Gives tableRule (TableRule.BuiltOf P) := by
  refine peek_gives.bind fun kind _ => ?_
  split
  · exact advance_gives.bind fun _ _ => (expect_gives _ _).bind fun _ _ =>
      identList_gives.bind fun _ hcolumns => .pure hcolumns
  · exact advance_gives.bind fun _ _ => identList_gives.bind fun _ hcolumns => .pure hcolumns
  · exact advance_gives.bind fun _ _ => (bracketed_gives builds).bind fun _ he => .pure he
  · exact advance_gives.bind fun _ _ => (expect_gives _ _).bind fun _ _ =>
      identList_gives.bind fun _ hcolumns => foreignKeyClause_gives.bind fun _ hclause =>
        .pure ⟨hcolumns, hclause⟩
  · exact .fail _

theorem tableConstraint_gives (builds : Builds P S) :
    Gives tableConstraint (TableConstraint.BuiltOf P) :=
  current_gives.bind fun _ _ => constraintName?_gives.bind fun _ hname =>
    (tableRule_gives builds).bind fun _ hrule => (spanFrom_gives _).bind fun _ _ =>
      .pure ⟨hname, hrule⟩

theorem tableItem_gives (builds : Builds P S) :
    Gives tableItem (Sum.elim (ColumnDef.BuiltOf P) (TableConstraint.BuiltOf P)) :=
  peek_gives.bind fun _ _ => .ite
    ((tableConstraint_gives builds).bind fun _ hconstraint => .pure hconstraint)
    ((columnDef_gives builds).bind fun _ hcolumn => .pure hcolumn)

theorem ifNotExists_gives : Gives ifNotExists fun _ => True := by
  refine (check_gives _).bind fun _ _ => (peekAt_gives 1).bind fun _ _ => .ite ?_ (.pure trivial)
  exact advance_gives.bind fun _ _ => advance_gives.bind fun _ _ => (expect_gives _ _).bind
    fun _ _ => .pure trivial

theorem createTable_gives (builds : Builds P S) : Gives createTable (CreateTable.BuiltOf P) := by
  refine advance_gives.bind fun _ _ => (expect_gives _ _).bind fun _ _ => ifNotExists_gives.bind
    fun _ _ => ident_gives.bind fun name hname => (expect_gives _ _).bind fun _ _ => ?_
  refine (commaSeparated_gives (tableItem_gives builds)).bind fun items hitems =>
    (expect_gives _ _).bind fun _ _ => .pure ⟨hname, ?_, ?_, ?_, rfl⟩
  · obtain ⟨item, items, rfl⟩ := List.exists_cons_of_ne_nil hitems.1
    cases item <;> simp [CreateTable.items]
  · intro d hd
    obtain ⟨item, hitem, hleft⟩ := List.mem_filterMap.mp hd
    obtain rfl := Sum.getLeft?_eq_some_iff.mp hleft
    exact hitems.2 _ hitem
  · intro c hc
    obtain ⟨item, hitem, hright⟩ := List.mem_filterMap.mp hc
    obtain rfl := Sum.getRight?_eq_some_iff.mp hright
    exact hitems.2 _ hitem

/-! ### Scripts -/

/-- What is known of a result holds of it under a constructor. -/
theorem body_built {α : Type} {p : Parser α} {f : α → StatementBody} {Q : α → Prop}
    {s : ParserState} {body : StatementBody} (h : ((do return f (← p)).run s).1 = .ok body)
    (hp : ∀ a, (p.run s).1 = .ok a → Q a) (hf : ∀ a, Q a → (f a).BuiltOf P S) :
    body.BuiltOf P S := by
  rw [run_bind] at h
  split at h
  · next a _ hrun =>
    cases h
    exact hf a (hp a (by rw [hrun]))
  · cases h

/-- Every statement leaves plain tokens. -/
theorem statementBody_gives (builds : Builds P S) :
    Gives statementBody (StatementBody.BuiltOf P S) := by
  intro s hs
  constructor
  · have hagree := statementBody_agree (ParserState.InStep.refl hs.final).toExtends
    unfold Agree at hagree
    rcases hrun : statementBody.run s with ⟨result, u⟩
    rw [hrun] at hagree
    cases hagree with
    | ok hu => exact hs.took hu
    | error hu => exact hs.took hu
  · intro body hbody
    have hpeek : peek.run s = (.ok (s.kindAt 0), s) := rfl
    rw [statementBody, run_bind, hpeek] at hbody
    dsimp only at hbody
    split at hbody
    · exact body_built hbody (select_gives builds s hs).2 fun _ h => h
    · exact body_built hbody (insert_gives builds s hs).2 fun _ h => h
    · exact body_built hbody (update_gives builds s hs).2 fun _ h => h
    · exact body_built hbody (delete_gives builds s hs).2 fun _ h => h
    · exact body_built hbody (createTable_gives builds s hs).2 fun _ h => h
    · exact body_built hbody (fun _ _ => trivial) fun _ _ => trivial
    · exact body_built hbody (fun _ _ => trivial) fun _ _ => trivial
    · cases hbody

theorem statement_gives (builds : Builds P S) :
    Gives statement fun statement => statement.body.BuiltOf P S :=
  current_gives.bind fun _ _ => (statementBody_gives builds).bind fun _ hbody =>
    (spanFrom_gives _).bind fun _ _ => .pure hbody

end Parser

namespace ParserState.Plain

variable {s after : ParserState}

theorem skipWhile (h : s.Plain) (p : TokenKind → Bool) : (s.skipWhile p).Plain := by
  refine ⟨fun t ht => h.tokens t ?_, by rw [final_skipWhile, h.final]⟩
  rw [tokens_skipWhile] at ht
  exact (List.dropWhile_sublist _).subset ht

theorem skipGap (h : s.Plain) (separated : Bool) : (Script.skipGap separated s).Plain := by
  refine ⟨fun t ht => h.tokens t ?_, by rw [Script.final_skipGap, h.final]⟩
  rw [Script.tokens_skipGap] at ht
  exact (List.dropWhile_sublist _).subset ht

theorem orSkip (h : s.Plain) (hafter : after.Plain) : (s.orSkip after).Plain := by
  unfold ParserState.orSkip
  split
  · exact hafter
  · exact ⟨h.advance.tokens, h.advance.final⟩

end ParserState.Plain

namespace Script

variable {P : Expr → Prop} {S : Select → Prop} {s : ParserState}

theorem step_built (builds : Builds P S) (hs : s.Plain) :
    (∀ statement ∈ (step s).1, statement.body.BuiltOf P S) ∧ (step s).2.2.Plain := by
  unfold step
  split
  · obtain ⟨hleft, hgives⟩ := Parser.statement_gives builds s hs
    split
    · next statement u hrun =>
      rw [hrun] at hleft hgives
      have hstatement := hgives statement rfl
      split
      · exact ⟨by simpa using hstatement, hleft⟩
      · exact ⟨by simpa using hstatement, hleft.skipWhile _⟩
    · next d u hrun =>
      rw [hrun] at hleft
      exact ⟨by simp, hleft.skipWhile _⟩
  · exact ⟨by simp, hs.advance⟩

theorem readFrom_built (builds : Builds P S) (n : Nat) :
    ∀ separated s, ParserState.Plain s → s.tokens.length < n →
      ∀ statement ∈ (readFrom separated s).1, statement.body.BuiltOf P S := by
  induction n with
  | zero =>
    intro _ _ _ hn
    omega
  | succ n ih =>
    intro separated s hs hn
    have hlen := length_skipGap_le separated s
    have hready := hs.skipGap separated
    by_cases hnil : (skipGap separated s).tokens = []
    · simp [readFrom_of_nil hnil]
    · obtain ⟨hstatement, hafter⟩ := step_built builds hready
      have hlt := ParserState.length_orSkip_lt hnil (step (skipGap separated s)).2.2
      rw [readFrom_of_ne_nil rfl hnil]
      intro statement hmem
      rcases List.mem_append.mp hmem with hmem | hmem
      · exact hstatement statement (by simpa using hmem)
      · exact ih false _ (hready.orSkip hafter) (by omega) statement hmem

/-- Whatever builds trees holds of all queries and changes of a script that is made of
plain tokens. -/
theorem ofTokens_built (builds : Builds P S) {tokens : List Token}
    (htokens : ∀ t ∈ tokens, t.kind.Plain) :
    ∀ statement ∈ (ofTokens tokens).statements, statement.body.BuiltOf P S := by
  refine readFrom_built builds _ true (ParserState.start tokens) ⟨fun t ht => ?_, ?_⟩
    (Nat.lt_succ_self _)
  · exact htokens t (List.mem_filter.mp ((List.takeWhile_sublist _).subset ht)).1
  · exact ParserState.final_start tokens

end Script
end
end SqlAnalysis
