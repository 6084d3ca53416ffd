import SqlAnalysis.Proofs.Grammar.Isolation
import SqlAnalysis.Proofs.Grammar.RespelledQueries

/-!
# Scripts on respelled tokens

Statements, and with them whole scripts, are read alike: there are as many of them, at
the same places, and the same is complained about.
-/
namespace SqlAnalysis

open Text

namespace Parser

open ParserState

variable {forget : Prop}

/-! ### Statements that change rows -/

theorem valueRow_alike : Alike valueRow valueRow (ValueRow.Like forget) := by
  apply (expect_alike rfl _).bind
  intro t t' ht
  dsimp only
  rw [ht.span]
  apply (unlessClosing_alike (commaSeparated_alike expr_alike)).bind
  intro values values' hvalues
  apply (expect_alike rfl _).bind
  intro _ _ _
  exact (spanFrom_alike _).bind fun _ _ hspan => .pure ⟨hvalues, hspan⟩

theorem columnsOf_alike (table table' : Ident) :
    Alike (columnsOf table) (columnsOf table') (List.Forall₂ Ident.Like) := by
  apply (check_alike rfl).bind
  rintro opens _ rfl
  split
  · exact (columnsOfHint_alike table table').underHint identList_alike
  · exact .pure .nil

/-- The name of a table, for which all tables are offered. -/
theorem tableName_alike :
    Alike (do under (← tablesHint) ident) (do under (← tablesHint) ident) Ident.Like :=
  tablesHint_alike.underHint ident_alike

theorem insert_alike : Alike insert insert (Insert.Like forget) := by
  apply advance_alike.bind
  intro _ _ _
  apply (expectWord_alike .INTO).bind
  intro _ _ _
  apply tableName_alike.bind
  intro table table' htable
  apply (columnsOf_alike table table').bind
  intro columns columns' hcolumns
  apply ((keywordsHint_alike _).underHint (expectWord_alike .VALUES)).bind
  intro _ _ _
  apply hint_alike.bind
  intro _ _ _
  apply ((commaSeparated_alike valueRow_alike).under _ _).bind
  exact fun _ _ hrows => .pure ⟨htable, rfl, hcolumns, hrows, rfl⟩

theorem rowCondition?_alike (table table' : Ident) :
    Alike (rowCondition? table) (rowCondition? table') (Option.Rel (Expr.Like forget)) := by
  apply afterWord_alike .WHERE
  exact (columnsOfHint_alike table table').bind fun _ _ _ => expr_alike.under _ _

theorem assignment_alike : Alike assignment assignment (Assignment.Like forget) := by
  apply ident_alike.bind
  intro column column' hcolumn
  apply (expect_alike rfl _).bind
  intro _ _ _
  exact expr_alike.bind fun _ _ hvalue => .pure ⟨hcolumn, rfl, hvalue⟩

theorem update_alike : Alike update update (Update.Like forget) := by
  apply advance_alike.bind
  intro _ _ _
  apply tableName_alike.bind
  intro table table' htable
  apply (expectWord_alike .SET).bind
  intro _ _ _
  apply ((columnsOfHint_alike table table').underHint (commaSeparated_alike assignment_alike)).bind
  intro assignments assignments' hassignments
  apply (rowCondition?_alike table table').bind
  exact fun _ _ hcondition => .pure ⟨htable, rfl, hassignments, hcondition⟩

theorem delete_alike : Alike delete delete (Delete.Like forget) := by
  apply advance_alike.bind
  intro _ _ _
  apply (expectWord_alike .FROM).bind
  intro _ _ _
  apply tableName_alike.bind
  intro table table' htable
  apply (rowCondition?_alike table table').bind
  exact fun _ _ hcondition => .pure ⟨htable, rfl, hcondition⟩

/-! ### Columns -/

theorem bracketed_alike : Alike bracketed bracketed (Expr.Like forget) := by
  apply (expect_alike rfl _).bind
  intro _ _ _
  apply expr_alike.bind
  intro e e' he
  exact (expect_alike rfl _).bind fun _ _ _ => .pure he

theorem signedNumber_alike : Alike signedNumber signedNumber (Expr.Like forget) := by
  apply (peekAt_alike 1).bind
  rintro _ _ (kind | hname | hname)
  · split
    · exact exprAt_alike _
    · exact exprAt_alike _
    · exact failExpected_alike _
  · exact failExpected_alike _
  · exact failExpected_alike _

theorem defaultValue_alike : Alike defaultValue defaultValue (Expr.Like forget) := by
  have hname : Alike (do let name ← ident; return .name { span := name.span } name)
      (do let name ← ident; return .name { span := name.span } name) (Expr.Like forget) :=
    ident_alike.bind fun _ _ hname => .pure (.name (noteOf_like hname.span) hname)
  apply literal?_alike.bind
  intro e? e?' he
  cases he with
  | some he => exact .pure he
  | none =>
    apply peek_alike.bind
    rintro _ _ (kind | _ | _)
    · split
      · apply current_alike.bind
        intro t t' ht
        dsimp only
        rw [ht.span]
        apply bracketed_alike.bind
        intro inner inner' hinner
        apply (spanFrom_alike _).bind
        exact fun _ _ hspan => .pure (.brackets (noteOf_like hspan) hinner)
      · exact signedNumber_alike
      · exact signedNumber_alike
      · split
        · exact hname
        · exact failExpected_alike _
    · exact hname
    · exact hname

/-- Words of type names that differ in case only. -/
def WordLike (a b : String) : Prop := foldCase a = foldCase b

theorem typeWord?_alike : Alike typeWord? typeWord? (Option.Rel WordLike) := by
  apply peek_alike.bind
  rintro _ _ (kind | hname | hname)
  · split
    · exact advance_alike.bind fun _ _ _ => .pure (.some rfl)
    · exact .pure .none
  · exact advance_alike.bind fun _ _ _ => .pure (.some hname)
  · exact .pure .none

theorem typeParam_alike : Alike typeParam typeParam Eq := by
  apply current_alike.bind
  intro t t' ht
  have hrange : t.range = t'.range := congrArg₂ Range.mk ht.start ht.stop
  have hkind := ht.kind
  rw [hrange]
  generalize t.kind = kind at hkind
  generalize t'.kind = kind' at hkind
  cases hkind with
  | refl =>
    split
    · apply advance_alike.bind
      intro _ _ _
      split
      · exact .pure rfl
      · exact .throw ⟨rfl, rfl, rfl⟩
    · exact failExpected_alike _
  | name _ => exact failExpected_alike _
  | quotedName _ => exact failExpected_alike _

theorem typeParams_alike : Alike typeParams typeParams Eq := by
  apply (eat_alike rfl).bind
  rintro opens _ rfl
  split
  · apply (commaSeparated_alike typeParam_alike).bind
    intro params params' hparams
    rw [List.forall₂_eq_eq_eq] at hparams
    exact (expect_alike rfl _).bind fun _ _ _ => .pure hparams
  · exact .pure rfl

theorem foldCase_joinWords {words words' : List String} (h : List.Forall₂ WordLike words words') :
    foldCase (joinWith " " words) = foldCase (joinWith " " words') := by
  have hfolded : List.Forall₂ Eq (words.map foldCase) (words'.map foldCase) :=
    List.forall₂_map_left_iff.mpr (List.forall₂_map_right_iff.mpr h)
  rw [List.forall₂_eq_eq_eq] at hfolded
  rw [foldCase_joinWith, foldCase_joinWith, hfolded]

theorem typeName?_alike : Alike typeName? typeName? (Option.Rel TypeName.Like) := by
  apply current_alike.bind
  intro t t' ht
  dsimp only
  rw [ht.span]
  apply (many_alike typeWord?_alike).bind
  intro words words' hwords
  have hjoined := foldCase_joinWords hwords
  cases hwords with
  | nil => exact .pure .none
  | cons _ _ =>
    apply typeParams_alike.bind
    rintro params _ rfl
    exact (spanFrom_alike _).bind fun _ _ hspan => .pure (.some ⟨hjoined, rfl, hspan⟩)

theorem foreignKeyClause_alike : Alike foreignKeyClause foreignKeyClause ForeignKeyClause.Like := by
  apply (expectWord_alike .REFERENCES).bind
  intro _ _ _
  apply tableName_alike.bind
  intro table table' htable
  exact (columnsOf_alike table table').bind fun _ _ hcolumns => .pure ⟨htable, hcolumns⟩

theorem constraintName?_alike :
    Alike constraintName? constraintName? (Option.Rel Ident.Like) :=
  afterWord_alike .CONSTRAINT ident_alike

theorem columnRule?_alike :
    Alike columnRule? columnRule? (Option.Rel (ColumnRule.Like forget)) := by
  apply peek_alike.bind
  rintro _ _ (kind | _ | _)
  · split
    · apply advance_alike.bind
      intro _ _ _
      exact (expectWord_alike .NULL).bind fun _ _ _ => .pure (.some .notNull)
    · exact advance_alike.bind fun _ _ _ => .pure (.some .null)
    · apply advance_alike.bind
      intro _ _ _
      exact defaultValue_alike.bind fun _ _ hvalue => .pure (.some (.default hvalue))
    · apply advance_alike.bind
      intro _ _ _
      apply (expectWord_alike .KEY).bind
      intro _ _ _
      apply direction?_alike.bind
      rintro direction _ rfl
      apply (eatWord_alike .AUTOINCREMENT).bind
      rintro autoincrement _ rfl
      exact .pure (.some (.primaryKey direction autoincrement))
    · exact advance_alike.bind fun _ _ _ => .pure (.some .unique)
    · exact foreignKeyClause_alike.bind fun _ _ hclause => .pure (.some (.references hclause))
    · apply advance_alike.bind
      intro _ _ _
      exact ident_alike.bind fun _ _ hcollation => .pure (.some (.collate hcollation))
    · apply advance_alike.bind
      intro _ _ _
      exact bracketed_alike.bind fun _ _ hcondition => .pure (.some (.check hcondition))
    · exact .pure .none
  · exact .pure .none
  · exact .pure .none

theorem columnConstraint?_alike :
    Alike columnConstraint? columnConstraint? (Option.Rel (ColumnConstraint.Like forget)) := by
  apply current_alike.bind
  intro t t' ht
  dsimp only
  rw [ht.span]
  apply constraintName?_alike.bind
  intro name name' hname
  apply columnRule?_alike.bind
  intro rule rule' hrule
  cases hrule with
  | some hrule =>
    exact (spanFrom_alike _).bind fun _ _ hspan => .pure (.some ⟨hname, hrule, hspan⟩)
  | none =>
    have hisSome : name.isSome = name'.isSome := by cases hname <;> rfl
    dsimp only
    rw [hisSome]
    split
    · exact failExpected_alike _
    · exact .pure .none

theorem columnDef_alike : Alike columnDef columnDef (ColumnDef.Like forget) := by
  apply ident_alike.bind
  intro name name' hname
  apply ((keywordsHint_alike _).underHint typeName?_alike).bind
  intro typeName typeName' htypeName
  apply ((keywordsHint_alike _).underHint (many_alike columnConstraint?_alike)).bind
  intro constraints constraints' hconstraints
  rw [hname.span]
  apply (spanFrom_alike _).bind
  exact fun _ _ hspan => .pure ⟨hname, htypeName, hconstraints, hspan, rfl, rfl⟩

/-! ### Tables -/

theorem tableRule_alike : Alike tableRule tableRule (TableRule.Like forget) := by
  apply peek_alike.bind
  rintro _ _ (kind | _ | _)
  · split
    · apply advance_alike.bind
      intro _ _ _
      apply (expectWord_alike .KEY).bind
      intro _ _ _
      exact identList_alike.bind fun _ _ hcolumns => .pure (.primaryKey hcolumns)
    · apply advance_alike.bind
      intro _ _ _
      exact identList_alike.bind fun _ _ hcolumns => .pure (.unique hcolumns)
    · apply advance_alike.bind
      intro _ _ _
      exact bracketed_alike.bind fun _ _ hcondition => .pure (.check hcondition)
    · apply advance_alike.bind
      intro _ _ _
      apply (expectWord_alike .KEY).bind
      intro _ _ _
      apply identList_alike.bind
      intro columns columns' hcolumns
      apply foreignKeyClause_alike.bind
      exact fun _ _ hclause => .pure (.foreignKey hcolumns hclause)
    · exact failExpected_alike _
  · exact failExpected_alike _
  · exact failExpected_alike _

theorem tableConstraint_alike :
    Alike tableConstraint tableConstraint (TableConstraint.Like forget) := by
  apply current_alike.bind
  intro t t' ht
  dsimp only
  rw [ht.span]
  apply constraintName?_alike.bind
  intro name name' hname
  apply tableRule_alike.bind
  intro rule rule' hrule
  exact (spanFrom_alike _).bind fun _ _ hspan => .pure ⟨hname, hrule, hspan⟩

/-- The items are both columns or both constraints, and alike. -/
inductive ItemLike (forget : Prop) :
    ColumnDef ⊕ TableConstraint → ColumnDef ⊕ TableConstraint → Prop
  | column {d d' : ColumnDef} (h : d.Like forget d') : ItemLike forget (.inl d) (.inl d')
  | constraint {c c' : TableConstraint} (h : c.Like forget c') :
    ItemLike forget (.inr c) (.inr c')

theorem startsTableConstraint_eq {kind kind' : TokenKind} (h : kind.Like kind') :
    startsTableConstraint kind = startsTableConstraint kind' := by
  cases h <;> rfl

theorem tableItem_alike : Alike tableItem tableItem (ItemLike forget) := by
  apply peek_alike.bind
  intro kind kind' hkind
  rw [startsTableConstraint_eq hkind]
  split
  · exact tableConstraint_alike.bind fun _ _ hconstraint => .pure (.constraint hconstraint)
  · exact columnDef_alike.bind fun _ _ hcolumn => .pure (.column hcolumn)

theorem columns_like {items items' : List (ColumnDef ⊕ TableConstraint)}
    (h : List.Forall₂ (ItemLike forget) items items') :
    List.Forall₂ (ColumnDef.Like forget) (items.filterMap Sum.getLeft?)
      (items'.filterMap Sum.getLeft?) := by
  refine List.rel_filterMap (fun _ _ hitem => ?_) h
  cases hitem with
  | column hcolumn => exact .some hcolumn
  | constraint _ => exact .none

theorem constraints_like {items items' : List (ColumnDef ⊕ TableConstraint)}
    (h : List.Forall₂ (ItemLike forget) items items') :
    List.Forall₂ (TableConstraint.Like forget) (items.filterMap Sum.getRight?)
      (items'.filterMap Sum.getRight?) := by
  refine List.rel_filterMap (fun _ _ hitem => ?_) h
  cases hitem with
  | column _ => exact .none
  | constraint hconstraint => exact .some hconstraint

theorem ifNotExists_alike : Alike ifNotExists ifNotExists Eq := by
  apply (check_alike rfl).bind
  rintro found _ rfl
  apply (peekAt_alike 1).bind
  intro kind kind' hkind
  have hnot : (kind == .keyword .NOT) = (kind' == .keyword .NOT) :=
    decide_eq_decide.mpr (hkind.eq_iff rfl)
  rw [hnot]
  split
  · apply advance_alike.bind
    intro _ _ _
    apply advance_alike.bind
    intro _ _ _
    exact (expectWord_alike .EXISTS).bind fun _ _ _ => .pure rfl
  · exact .pure rfl

theorem createTable_alike : Alike createTable createTable (CreateTable.Like forget) := by
  apply advance_alike.bind
  intro _ _ _
  apply (expectWord_alike .TABLE).bind
  intro _ _ _
  apply ifNotExists_alike.bind
  intro guarded guarded' hguarded
  apply ident_alike.bind
  intro name name' hname
  apply (expect_alike rfl _).bind
  intro _ _ _
  apply (commaSeparated_alike tableItem_alike).bind
  intro items items' hitems
  apply (expect_alike rfl _).bind
  exact fun _ _ _ => .pure ⟨hguarded, hname, columns_like hitems, constraints_like hitems, rfl⟩

theorem alterVerb_alike : Alike alterVerb alterVerb Eq := by
  apply peek_alike.bind
  rintro _ _ (kind | _ | _)
  · split
    · apply advance_alike.bind
      intro _ _ _
      exact (eatWord_alike .COLUMN).bind fun _ _ _ => .pure rfl
    · apply advance_alike.bind
      intro _ _ _
      exact (eatWord_alike .COLUMN).bind fun _ _ _ => .pure rfl
    · apply advance_alike.bind
      intro _ _ _
      apply (eatWord_alike .TO).bind
      rintro isTable _ rfl
      split
      · exact .pure rfl
      · exact (eatWord_alike .COLUMN).bind fun _ _ _ => .pure rfl
    · exact failExpected_alike _
  · exact failExpected_alike _
  · exact failExpected_alike _

theorem alterTable_alike : Alike alterTable alterTable (AlterTable.Like forget) := by
  have hcolumn : ∀ table table' : Ident, Alike (do under (← columnsOfHint table) ident)
      (do under (← columnsOfHint table') ident) Ident.Like := fun table table' =>
    (columnsOfHint_alike table table').underHint ident_alike
  apply advance_alike.bind
  intro _ _ _
  apply (expectWord_alike .TABLE).bind
  intro _ _ _
  apply tableName_alike.bind
  intro table table' htable
  apply ((keywordsHint_alike _).underHint alterVerb_alike).bind
  rintro verb _ rfl
  cases verb with
  | addColumn => exact columnDef_alike.bind fun _ _ hd => .pure ⟨htable, rfl, .addColumn hd⟩
  | dropColumn =>
    apply (hcolumn table table').bind
    exact fun _ _ hcolumn => .pure ⟨htable, rfl, .dropColumn hcolumn⟩
  | renameTo => exact ident_alike.bind fun _ _ hname => .pure ⟨htable, rfl, .renameTo hname⟩
  | renameColumn =>
    apply (hcolumn table table').bind
    intro column column' hcolumn
    apply (expectWord_alike .TO).bind
    intro _ _ _
    exact ident_alike.bind fun _ _ hname => .pure ⟨htable, rfl, .renameColumn hcolumn hname⟩

theorem ifExists_alike : Alike ifExists ifExists Eq := by
  apply (check_alike rfl).bind
  rintro found _ rfl
  apply (peekAt_alike 1).bind
  intro kind kind' hkind
  have hexists : (kind == .keyword .EXISTS) = (kind' == .keyword .EXISTS) :=
    decide_eq_decide.mpr (hkind.eq_iff rfl)
  rw [hexists]
  split
  · apply advance_alike.bind
    intro _ _ _
    exact advance_alike.bind fun _ _ _ => .pure rfl
  · exact .pure rfl

theorem dropTable_alike : Alike dropTable dropTable DropTable.Like := by
  apply advance_alike.bind
  intro _ _ _
  apply (expectWord_alike .TABLE).bind
  intro _ _ _
  apply ifExists_alike.bind
  intro guarded guarded' hguarded
  apply tableName_alike.bind
  exact fun _ _ htable => .pure ⟨hguarded, htable, rfl⟩

/-! ### Statements -/

theorem statementBody_alike :
    Alike statementBody statementBody (StatementBody.Like forget) := by
  apply peek_alike.bind
  rintro _ _ (kind | _ | _)
  · split
    · exact select_alike.bind fun _ _ h => .pure (.select h)
    · exact insert_alike.bind fun _ _ h => .pure (.insert h)
    · exact update_alike.bind fun _ _ h => .pure (.update h)
    · exact delete_alike.bind fun _ _ h => .pure (.delete h)
    · exact createTable_alike.bind fun _ _ h => .pure (.createTable h)
    · exact alterTable_alike.bind fun _ _ h => .pure (.alterTable h)
    · exact dropTable_alike.bind fun _ _ h => .pure (.dropTable h)
    · exact failExpected_alike _
  · exact failExpected_alike _
  · exact failExpected_alike _

theorem statement_alike : Alike statement statement (Statement.Like forget) := by
  apply current_alike.bind
  intro first first' hfirst
  apply statementBody_alike.bind
  intro body body' hbody
  rw [hfirst.span]
  apply (spanFrom_alike _).bind
  exact fun _ _ hspan => .pure ⟨hbody, hspan, hfirst.leadingComment⟩

end Parser

/-! ### Scripts -/

namespace ParserState.Like

variable {s s' after after' : ParserState}

theorem isNil_iff (h : s.Like s') : s.tokens = [] ↔ s'.tokens = [] := by
  rw [← List.length_eq_zero_iff, ← List.length_eq_zero_iff, h.tokens.length_eq]

theorem skipWhile (h : s.Like s') {p : TokenKind → Bool}
    (hp : ∀ kind kind' : TokenKind, kind.Like kind' → p kind = p kind') :
    (s.skipWhile p).Like (s'.skipWhile p) :=
  List.rel_foldl (fun _ _ hs _ _ _ => hs.advance) h
    (forall₂_takeWhile (fun _ _ ht => hp _ _ ht.kind) h.tokens)

theorem synchronize (h : s.Like s') : s.synchronize.Like s'.synchronize := by
  refine h.skipWhile fun kind kind' hkind => ?_
  have hsemicolon : kind ≠ .semicolon ↔ kind' ≠ .semicolon := not_congr (hkind.eq_iff rfl)
  simp only [isSkipped, hsemicolon, hkind.isStatementStart_eq]

theorem orSkip (h : s.Like s') (hafter : after.Like after') :
    (s.orSkip after).Like (s'.orSkip after') := by
  unfold ParserState.orSkip
  rw [hafter.tokens.length_eq, h.tokens.length_eq]
  split
  · exact hafter
  · exact h.advance.withHints _ _

theorem skipGap (h : s.Like s') (separated : Bool) :
    (Script.skipGap separated s).Like (Script.skipGap separated s') := by
  have hnext : (s.skipWhile (· = .semicolon)).Like (s'.skipWhile (· = .semicolon)) :=
    h.skipWhile fun _ _ hkind => decide_eq_decide.mpr (hkind.eq_iff rfl)
  have hsemicolon : s.current.kind = .semicolon ↔ s'.current.kind = .semicolon :=
    h.current.kind.eq_iff rfl
  unfold Script.skipGap
  simp only [hsemicolon]
  split
  · exact hnext.withHints _ _
  · exact hnext

theorem start {tokens tokens' : List Token} (h : List.Forall₂ Token.Like tokens tokens') :
    (ParserState.start tokens).Like (ParserState.start tokens') := by
  have hfound : Option.Rel Token.Like (tokens.find? fun t => t.kind = .eof)
      (tokens'.find? fun t => t.kind = .eof) :=
    forall₂_find? (fun _ _ ht => decide_eq_decide.mpr (ht.kind.eq_iff rfl)) h
  have hlast := forall₂_getLast? h
  have hafter : (finalAfter tokens).Like (finalAfter tokens') := by
    unfold finalAfter
    generalize tokens.getLast? = last at hlast
    generalize tokens'.getLast? = last' at hlast
    cases hlast with
    | none => exact ⟨.refl _, rfl, rfl, rfl, rfl⟩
    | some ht =>
      have hspan := congrArg (fun span : Span => Span.mk span.stop span.stop) ht.span
      exact ⟨.refl _, hspan, ht.stop, ht.stop, rfl⟩
  refine ⟨forall₂_takeWhile (fun t t' ht => ?_) (List.rel_filter (fun t t' ht => ?_) h),
    rel_getD hfound hafter, rfl⟩
  · exact decide_eq_decide.mpr (not_congr (ht.kind.eq_iff rfl))
  · simp only [ht.kind.isTrivia_eq]

end ParserState.Like

namespace Script

variable {forget : Prop} {s s' : ParserState}

theorem step_like (forget : Prop) (h : s.Like s') :
    Option.Rel (Statement.Like forget) (step s).1 (step s').1 ∧
      List.Forall₂ Diagnostic.Like (step s).2.1 (step s').2.1 ∧
      (step s).2.2.Like (step s').2.2 := by
  unfold step
  rw [h.current.kind.isStatementStart_eq]
  split
  · have hrun : OutcomeLike (Statement.Like forget) _ _ ∧ _ := Parser.statement_alike h
    generalize Parser.statement.run s = r at hrun
    generalize Parser.statement.run s' = r' at hrun
    obtain ⟨result, u⟩ := r
    obtain ⟨result', u'⟩ := r'
    obtain ⟨hresult, hafter⟩ := hrun
    cases hresult with
    | error hd => exact ⟨.none, .cons hd .nil, hafter.synchronize⟩
    | ok hstatement =>
      have hends : (u.tokens = [] ∨ u.current.kind = .semicolon) ↔
          (u'.tokens = [] ∨ u'.current.kind = .semicolon) :=
        or_congr hafter.isNil_iff (hafter.current.kind.eq_iff rfl)
      dsimp only at hafter ⊢
      by_cases hend : u'.tokens = [] ∨ u'.current.kind = .semicolon
      · rw [if_pos hend, if_pos (hends.mpr hend)]
        exact ⟨.some hstatement, .nil, hafter⟩
      · rw [if_neg hend, if_neg (mt hends.mp hend)]
        exact ⟨.some hstatement, .cons (hafter.expected _) .nil, hafter.synchronize⟩
  · have hrange : s.current.range = s'.current.range :=
      congrArg₂ Range.mk h.current.start h.current.stop
    exact ⟨.none, .cons ⟨rfl, rfl, hrange⟩ .nil, h.advance⟩

theorem readFrom_like (separated : Bool) (s : ParserState) :
    ∀ s', s.Like s' →
      List.Forall₂ (Statement.Like forget) (readFrom separated s).1 (readFrom separated s').1 ∧
        List.Forall₂ Diagnostic.Like (readFrom separated s).2.1 (readFrom separated s').2.1 := by
  fun_induction readFrom separated s with
  | case1 separated s ready hnil =>
    intro s' h
    rw [readFrom_of_nil ((h.skipGap separated).isNil_iff.mp hnil)]
    exact ⟨.nil, .nil⟩
  | case2 separated s ready hne statement errors after hstep statements laterErrors hints hrest
      ih =>
    intro s' h
    have hready := h.skipGap separated
    obtain ⟨hstatement, herrors, hafter⟩ := step_like forget hready
    rw [hstep] at hstatement herrors hafter
    obtain ⟨hstatements, hlaterErrors⟩ := ih _ (hready.orSkip hafter)
    rw [hrest] at hstatements hlaterErrors
    rw [readFrom_of_ne_nil rfl (mt hready.isNil_iff.mpr hne)]
    exact ⟨List.rel_append (rel_toList hstatement) hstatements,
      List.rel_append herrors hlaterErrors⟩

theorem ofTokens_like (forget : Prop) {tokens tokens' : List Token}
    (h : List.Forall₂ Token.Like tokens tokens') :
    List.Forall₂ (Statement.Like forget) (ofTokens tokens).statements
        (ofTokens tokens').statements ∧
      List.Forall₂ Diagnostic.Like (ofTokens tokens).errors (ofTokens tokens').errors :=
  readFrom_like true _ _ (.start h)

end Script
end SqlAnalysis
