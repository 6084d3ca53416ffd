import SqlAnalysis.Proofs.Grammar.CutQueries

/-!
# Statements on an excerpt

A query, a change to rows or to a table is read from the excerpt that ends with it, shifted
to the left.
-/
namespace SqlAnalysis.Parser

open ParserState

variable {α β : Type} {n : Nat} {behind : List Token} {c : Prop} {kind : TokenKind}

/-! ### Changes -/

theorem expr_cuts : Cuts n behind c (Expr.shift n) expr expr :=
  whole_cuts.expr 0

theorem hintedIdent_cuts (h h' : Hint) :
    Cuts n behind c (Ident.shift n) (under h ident) (under h' ident) :=
  ident_cuts.under h h'

theorem columnsOf_cuts (table table' : Ident) :
    Cuts n behind c (List.map (Ident.shift n)) (columnsOf table) (columnsOf table') := by
  have hconsumes : Consumes identList := fun s => (identList_reads s).mono fun _ _ => fun
    | .mk _ _ _ => List.cons_ne_nil _ _
  have hlist : CutsAt n behind .leftParen c (List.map (Ident.shift n)) identList identList :=
    identList_cuts.at_kind hconsumes
  refine .ifCheck nofun (.look (columnsOfHint_looks _) (columnsOfHint_looks _) fun _ _ => ?_)
    (.pure fun _ => rfl)
  exact hlist.under _ _

theorem valueRow_cuts : Cuts n behind c (ValueRow.shift n) valueRow valueRow := by
  have hvalues : ∀ {c}, Cuts n behind c (List.map (Expr.shift n)) (commaSeparated expr)
      (commaSeparated expr) := commaSeparated_cuts expr_cuts expr_composed
  exact .expect rfl nofun fun _ _ => listed_cuts hvalues fun _ _ =>
    .spanFrom (fun hc => hc.1.2.span) fun _ _ => .pure fun hc => by simp [ValueRow.shift, hc]

theorem insert_cuts :
    CutsAt n behind (.keyword .INSERT) c (Insert.shift n) insert insert := by
  have hrows : ∀ {c}, Cuts n behind c (List.map (ValueRow.shift n)) (commaSeparated valueRow)
      (commaSeparated valueRow) := commaSeparated_cuts valueRow_cuts valueRow_composed
  exact .advance rfl nofun fun _ _ => .expect rfl nofun fun _ _ =>
    .look tablesHint_looks tablesHint_looks fun _ _ => .bind (hintedIdent_cuts _ _)
      fun table table' => .bind (columnsOf_cuts table table') fun _ _ =>
        .look (keywordsHint_looks _) (keywordsHint_looks _) fun h h' =>
          .underExpectWord _ (.look hint_looks hint_looks fun _ _ =>
            .bind (hrows.under _ _) fun _ _ => .pure fun hc => by simp [Insert.shift, hc]) h h'

theorem rowCondition?_cuts (table table' : Ident) :
    Cuts n behind c (Option.map (Expr.shift n)) (rowCondition? table) (rowCondition? table') :=
  afterWord_cuts _ <| .look (columnsOfHint_looks _) (columnsOfHint_looks _) fun _ _ =>
    expr_cuts.under _ _

theorem assignment_cuts : Cuts n behind c (Assignment.shift n) assignment assignment :=
  .bind ident_cuts fun _ _ => .expect rfl nofun fun _ _ => .bind expr_cuts fun _ _ =>
    .pure fun hc => by simp [Assignment.shift, hc]

theorem update_cuts :
    CutsAt n behind (.keyword .UPDATE) c (Update.shift n) update update := by
  have hassignments : ∀ {c}, Cuts n behind c (List.map (Assignment.shift n))
      (commaSeparated assignment) (commaSeparated assignment) :=
    commaSeparated_cuts assignment_cuts assignment_composed
  exact .advance rfl nofun fun _ _ => .look tablesHint_looks tablesHint_looks fun _ _ =>
    .bind (hintedIdent_cuts _ _) fun table table' => .expect rfl nofun fun _ _ =>
      .look (columnsOfHint_looks _) (columnsOfHint_looks _) fun _ _ =>
        .bind (hassignments.under _ _) fun _ _ => .bind (rowCondition?_cuts table table')
          fun _ _ => .pure fun hc => by simp [Update.shift, hc]

theorem delete_cuts :
    CutsAt n behind (.keyword .DELETE) c (Delete.shift n) delete delete :=
  .advance rfl nofun fun _ _ => .expect rfl nofun fun _ _ =>
    .look tablesHint_looks tablesHint_looks fun _ _ => .bind (hintedIdent_cuts _ _)
      fun table table' => .bind (rowCondition?_cuts table table') fun _ _ =>
        .pure fun hc => by simp [Delete.shift, hc]

/-! ### Columns -/

theorem bracketed_cuts : Cuts n behind c (Expr.shift n) bracketed bracketed :=
  .expect rfl nofun fun _ _ => .bind expr_cuts fun _ _ => .expect rfl nofun fun _ _ =>
    .pure fun hc => hc.1.2

theorem bracketed_consumes : Consumes bracketed :=
  fun s => (bracketed_reads s).mono fun _ _ => And.right

/-- A sign is read together with an operand. -/
theorem exprAt_reads_two {s : ParserState} (hs : s.kindAt 0 = .minus ∨ s.kindAt 0 = .plus)
    (power : Nat) : Reads (exprAt power) s fun _ read => 2 ≤ read.length := by
  have hterm : ∀ {k} {f : Token → Expr → Expr}, s.kindAt 0 = k → k.endsStatement = false →
      Reads (do let t ← advance; let e ← whole.expr BinaryOperator.signPower; return f t e) s
        fun _ read => 2 ≤ read.length := by
    intro k f hk hends
    refine .advance hk hends fun t u _ _ => (exprAt_consumes _ u).map fun e read hread => ?_
    have := List.length_pos_iff.mpr hread
    rw [List.length_cons]
    omega
  have hoperand : Reads (operand whole) s fun _ read => 2 ≤ read.length := by
    refine .look none ?_ (.peek fun k hk => ?_)
    · have hpeek : peek.run s = (.ok (s.kindAt 0), s) := rfl
      rw [literal?, run_bind, hpeek]
      rcases hs with hs | hs <;> rw [hs] <;> rfl
    · rcases hs with hs | hs <;> obtain rfl := hk.symm.trans hs
      · exact hterm hs rfl
      · exact hterm hs rfl
  have hexpr : Reads (exprWith whole power) s fun _ read => 2 ≤ read.length := by
    refine hoperand.bind fun e read v _ hread => ?_
    refine (Composed.forward (.get fun _ => operations_composed whole_composed _ _ _) |>.reads v).mono
      fun _ more _ => ?_
    rw [List.length_append]
    omega
  intro hfinal e u hrun
  rw [exprAt_run] at hrun
  exact hexpr hfinal e u hrun

theorem signedNumber_cuts (hk : kind = .minus ∨ kind = .plus) :
    CutsAt n behind kind c (Expr.shift n) signedNumber signedNumber := by
  have hexpr : CutsAt n behind kind c (Expr.shift n) (exprAt BinaryOperator.signPower)
      (exprAt BinaryOperator.signPower) := (whole_cuts.expr _).at_kind (exprAt_consumes _)
  refine .peekNext (fun s hs next => ?_) fun next => ?_
  · have hsign : s.kindAt 0 = .minus ∨ s.kindAt 0 = .plus := hs ▸ hk
    split
    · exact exprAt_reads_two hsign _
    · exact exprAt_reads_two hsign _
    · exact .failExpected _
  · split
    · exact hexpr
    · exact hexpr
    · exact .failExpected _

theorem defaultValue_cuts : Cuts n behind c (Expr.shift n) defaultValue defaultValue := by
  refine .bindOption literal?_cuts (.peek fun k => ?_) fun e e' => .pure And.right
  split
  · exact .current rfl fun start start' => .bind (bracketed_cuts.at_kind bracketed_consumes)
      fun _ _ => .spanFrom (fun hc => hc.1.2.span) fun _ _ => .pure fun hc => by
        simp [Expr.shift, Note.shift, hc]
  · exact signedNumber_cuts (.inl rfl)
  · exact signedNumber_cuts (.inr rfl)
  · refine .ite (fun _ => .bind (ident_cuts.at_kind ident_consumes) fun _ _ => .pure fun hc => ?_)
      fun _ => .failExpected _
    simp [Expr.shift, Note.shift, Ident.shift, hc]

theorem typeWord?_cuts : Cuts n behind c id typeWord? typeWord? := by
  refine .peekOr rfl (fun _ => rfl) fun k => ?_
  split
  · exact .inl (.advance rfl nofun fun _ _ => .pure fun _ => rfl)
  · exact .inr ⟨rfl, rfl⟩

theorem typeParam_cuts : Cuts n behind c id typeParam typeParam := by
  refine .current fun t t' hkind => ?_
  rw [← hkind]
  split
  · next value hvalue =>
    rw [hvalue]
    exact .advance rfl nofun fun _ _ => .ite (.pure fun _ => rfl)
      (.of_error fun _ _ _ hrun => nomatch hrun)
  · exact .failExpected _

theorem typeParams_cuts : Cuts n behind c id typeParams typeParams := by
  have hparams : ∀ {c}, Cuts n behind c id (commaSeparated typeParam)
      (commaSeparated typeParam) := by
    intro c
    rw [← List.map_id_fun]
    exact commaSeparated_cuts typeParam_cuts Composed.typeParam
  exact .ifEat rfl nofun (.bindId hparams fun _ => .expect rfl nofun fun _ _ =>
    .pure fun _ => rfl) (.pure fun _ => rfl)

theorem typeName?_cuts :
    Cuts n behind c (Option.map (TypeName.shift n)) typeName? typeName? := by
  have hwords : ∀ {c}, Cuts n behind c id (many typeWord?) (many typeWord?) := by
    intro c
    rw [← List.map_id_fun]
    exact many_cuts (by rw [Option.map_id_fun]; exact typeWord?_cuts) IsRepeated.word.consumes
  refine .start typeName?_consumes (fun _ => ?_) fun start start' => .bindId hwords fun words => ?_
  · exact .bind (.many (.peek (.pure none))) (.pure none)
  · split
    · exact .pure fun _ => rfl
    · exact .bindId typeParams_cuts fun params => .spanFrom (fun hc => hc.2.span) fun _ _ =>
        .pure fun hc => by simp [TypeName.shift, hc]

theorem foreignKeyClause_cuts :
    Cuts n behind c (ForeignKeyClause.shift n) foreignKeyClause foreignKeyClause :=
  .expect rfl nofun fun _ _ => .look tablesHint_looks tablesHint_looks fun _ _ =>
    .bind (hintedIdent_cuts _ _) fun table table' => .bind (columnsOf_cuts table table')
      fun _ _ => .pure fun hc => by simp [ForeignKeyClause.shift, hc]

theorem foreignKeyClause_consumes : Consumes foreignKeyClause := by
  refine fun s => .expect rfl fun t u _ _ => ?_
  refine ((tablesHint_composed.bind fun _ => (ident_composed.under _).bind
    fun _ => (columnsOf_composed _).map).forward.reads u).mono fun _ _ _ => List.cons_ne_nil _ _

theorem constraintName?_cuts :
    Cuts n behind c (Option.map (Ident.shift n)) constraintName? constraintName? :=
  afterWord_cuts _ ident_cuts

theorem columnRule?_cuts :
    Cuts n behind c (Option.map (ColumnRule.shift n)) columnRule? columnRule? := by
  refine .peekOr rfl (fun _ => rfl) fun k => ?_
  split
  · exact .inl (.advance rfl nofun fun _ _ => .expect rfl nofun fun _ _ => .pure fun _ => rfl)
  · exact .inl (.advance rfl nofun fun _ _ => .pure fun _ => rfl)
  · exact .inl (.advance rfl nofun fun _ _ => .bind defaultValue_cuts fun _ _ =>
      .pure fun hc => by simp [ColumnRule.shift, hc])
  · exact .inl (.advance rfl nofun fun _ _ => .expect rfl nofun fun _ _ =>
      .bindId direction?_cuts fun _ => .bindId (eatWord_cuts _) fun _ => .pure fun _ => rfl)
  · exact .inl (.advance rfl nofun fun _ _ => .pure fun _ => rfl)
  · exact .inl (.bind (foreignKeyClause_cuts.at_kind foreignKeyClause_consumes) fun _ _ =>
      .pure fun hc => by simp [ColumnRule.shift, hc])
  · exact .inl (.advance rfl nofun fun _ _ => .bind ident_cuts fun _ _ =>
      .pure fun hc => by simp [ColumnRule.shift, hc])
  · exact .inl (.advance rfl nofun fun _ _ => .bind bracketed_cuts fun _ _ =>
      .pure fun hc => by simp [ColumnRule.shift, hc])
  · exact .inr ⟨rfl, rfl⟩

theorem columnConstraint?_cuts :
    Cuts n behind c (Option.map (ColumnConstraint.shift n)) columnConstraint?
      columnConstraint? := by
  refine .start (consumesForSome columnConstraint?_reads fun _ _ => Outline.Fills.ne_nil)
    (fun _ => ?_) fun start start' => .bind constraintName?_cuts fun name name' =>
      .bindOption columnRule?_cuts ?_ fun rule rule' => ?_
  · exact .bind (.bind (.eat nofun) (.pure none)) (.bind (.peek (.pure none)) (.pure none))
  · refine .assuming (fun _ => .ite (fun _ => .failExpected _) fun _ => .pure .nil) fun hc => ?_
    rw [hc.2]
    cases name' with
    | none => exact .pure fun _ => rfl
    | some _ => exact .failExpected _
  · exact .spanFrom (fun hc => hc.1.1.2.span) fun _ _ => .pure fun hc => by
      simp [ColumnConstraint.shift, hc]

theorem columnDef_cuts : Cuts n behind c (ColumnDef.shift n) columnDef columnDef := by
  have hconstraints : ∀ {c}, Cuts n behind c (List.map (ColumnConstraint.shift n))
      (many columnConstraint?) (many columnConstraint?) :=
    many_cuts columnConstraint?_cuts IsRepeated.constraint.consumes
  refine .bind ident_cuts fun name name' => .look (keywordsHint_looks _) (keywordsHint_looks _)
    fun _ _ => .bind (typeName?_cuts.under _ _) fun _ _ => .look (keywordsHint_looks _)
      (keywordsHint_looks _) fun _ _ => .bind (hconstraints.under _ _) fun _ _ =>
        .spanFrom (fun hc => ?_) fun _ _ => .pure fun hc => ?_
  · rw [hc.1.1.2, Ident.shift]
  · simp [ColumnDef.shift, hc]

/-! ### Tables -/

theorem tableRule_cuts : Cuts n behind c (TableRule.shift n) tableRule tableRule := by
  refine .peek fun k => ?_
  split
  · exact .advance rfl nofun fun _ _ => .expect rfl nofun fun _ _ => .bind identList_cuts
      fun _ _ => .pure fun hc => by simp [TableRule.shift, hc]
  · exact .advance rfl nofun fun _ _ => .bind identList_cuts fun _ _ =>
      .pure fun hc => by simp [TableRule.shift, hc]
  · exact .advance rfl nofun fun _ _ => .bind bracketed_cuts fun _ _ =>
      .pure fun hc => by simp [TableRule.shift, hc]
  · exact .advance rfl nofun fun _ _ => .expect rfl nofun fun _ _ => .bind identList_cuts
      fun _ _ => .bind foreignKeyClause_cuts fun _ _ => .pure fun hc => by
        simp [TableRule.shift, hc]
  · exact .failExpected _

theorem tableConstraint_consumes : Consumes tableConstraint :=
  fun s => (tableConstraint_reads s).mono fun _ _ => Outline.Fills.ne_nil

theorem tableConstraint_cuts :
    Cuts n behind c (TableConstraint.shift n) tableConstraint tableConstraint :=
  .first tableConstraint_consumes fun _ _ => .bind constraintName?_cuts fun _ _ =>
    .bind tableRule_cuts fun _ _ => .spanFrom (fun hc => hc.1.1.2.span) fun _ _ =>
      .pure fun hc => by simp [TableConstraint.shift, hc]

theorem columnDef_consumes : Consumes columnDef :=
  fun s => (columnDef_reads s).mono fun _ _ hd => hd.fills.ne_nil

theorem tableItem_cuts :
    Cuts n behind c (Sum.map (ColumnDef.shift n) (TableConstraint.shift n)) tableItem
      tableItem := by
  refine .peek fun k => .ite (fun _ => ?_) fun _ => ?_
  · exact .bind (tableConstraint_cuts.at_kind tableConstraint_consumes) fun _ _ =>
      .pure fun hc => by simp [hc]
  · exact .bind (columnDef_cuts.at_kind columnDef_consumes) fun _ _ => .pure fun hc => by simp [hc]

theorem ifNotExists_cuts : Cuts n behind c id ifNotExists ifNotExists := by
  have hexists : Cuts n behind c id (do let _ ← expectWord .EXISTS; return true)
      (do let _ ← expectWord .EXISTS; return true) := .expect rfl nofun fun _ _ => .pure fun _ => rfl
  refine .ifBoth nofun nofun (fun s hs hs1 => ?_)
    (fun hc s s' b v hcut _ _ hlen => hexists.run hc _ _ b v (hcut.advanceTwice hlen))
    (.pure fun _ => rfl)
  refine .advance hs rfl fun first u hu _ => ?_
  refine .advance ((hu.kindAt_eq 0).symm.trans hs1) rfl fun second v _ hkind => ?_
  refine (hexists.closes v).mono fun _ read hread => ⟨by simp, ?_⟩
  have hsecond : Finished [first, second] :=
    Finished.append_right [first] (List.cons_ne_nil second []) (.singleton (by simp [hkind]))
  exact hsecond.append hread

theorem createTable_cuts :
    CutsAt n behind (.keyword .CREATE) c (CreateTable.shift n) createTable createTable := by
  have hitems : ∀ {c}, Cuts n behind c
      (List.map (Sum.map (ColumnDef.shift n) (TableConstraint.shift n))) (commaSeparated tableItem)
      (commaSeparated tableItem) := commaSeparated_cuts tableItem_cuts tableItem_composed
  refine .advance rfl nofun fun _ _ => .expect rfl nofun fun _ _ => .bindId ifNotExists_cuts
    fun _ => .bind ident_cuts fun _ _ => .expect rfl nofun fun _ _ => .bind hitems
      fun items items' => .expect rfl nofun fun _ _ => .pure fun hc => ?_
  simp [CreateTable.shift, hc, List.filterMap_map, List.map_filterMap]

/-! ### Changes to tables -/

theorem alterVerb_cuts : Cuts n behind c id alterVerb alterVerb := by
  refine .peek fun k => ?_
  split
  · exact .advance rfl nofun fun _ _ => .bindId (eatWord_cuts _) fun _ => .pure fun _ => rfl
  · exact .advance rfl nofun fun _ _ => .bindId (eatWord_cuts _) fun _ => .pure fun _ => rfl
  · exact .advance rfl nofun fun _ _ => .ifEat rfl nofun (.pure fun _ => rfl)
      (.bindId (eatWord_cuts _) fun _ => .pure fun _ => rfl)
  · exact .failExpected _

theorem alterTable_cuts :
    CutsAt n behind (.keyword .ALTER) c (AlterTable.shift n) alterTable alterTable := by
  refine .advance rfl nofun fun _ _ => .expect rfl nofun fun _ _ =>
    .look tablesHint_looks tablesHint_looks fun _ _ => .bind (hintedIdent_cuts _ _)
      fun table table' => .look (keywordsHint_looks _) (keywordsHint_looks _) fun _ _ =>
        .bindId (alterVerb_cuts.under _ _) fun verb => ?_
  split
  · exact .bind columnDef_cuts fun _ _ => .pure fun hc => by
      simp [AlterTable.shift, AlterAction.shift, hc]
  · exact .look (columnsOfHint_looks _) (columnsOfHint_looks _) fun _ _ =>
      .bind (hintedIdent_cuts _ _) fun _ _ => .pure fun hc => by
        simp [AlterTable.shift, AlterAction.shift, hc]
  · exact .bind ident_cuts fun _ _ => .pure fun hc => by
      simp [AlterTable.shift, AlterAction.shift, hc]
  · exact .look (columnsOfHint_looks _) (columnsOfHint_looks _) fun _ _ =>
      .bind (hintedIdent_cuts _ _) fun _ _ => .expect rfl nofun fun _ _ =>
        .bind ident_cuts fun _ _ => .pure fun hc => by
          simp [AlterTable.shift, AlterAction.shift, hc]

theorem ifExists_cuts : Cuts n behind c id ifExists ifExists := by
  refine .ifBoth nofun nofun (fun s hs hs1 => ?_) (fun _ s s' b v hcut _ _ hlen hrun _ => ?_)
    (.pure fun _ => rfl)
  · refine .advance hs rfl fun first u hu _ => ?_
    refine .advance ((hu.kindAt_eq 0).symm.trans hs1) rfl fun second _ _ hkind => .pure ⟨by simp, ?_⟩
    exact Finished.append_right [first] (List.cons_ne_nil second [])
      (.singleton (by simp [hkind]))
  · obtain ⟨rfl, rfl⟩ : true = b ∧ s.advance.advance = v := by cases hrun; exact ⟨rfl, rfl⟩
    exact ⟨true, _, rfl, rfl, hcut.advanceTwice hlen⟩

theorem dropTable_cuts :
    CutsAt n behind (.keyword .DROP) c (DropTable.shift n) dropTable dropTable :=
  .advance rfl nofun fun _ _ => .expect rfl nofun fun _ _ => .bindId ifExists_cuts fun _ =>
    .look tablesHint_looks tablesHint_looks fun _ _ => .bind (hintedIdent_cuts _ _) fun _ _ =>
      .pure fun hc => by simp [DropTable.shift, hc]

/-! ### Statements -/

theorem statementBody_cuts :
    Cuts n behind c (StatementBody.shift n) statementBody statementBody := by
  refine .peek fun k => ?_
  split
  · have hselect : CutsAt n behind (.keyword .SELECT) c (Select.shift n) select select :=
      whole_cuts.select.at_kind whole_fills.select_consumes
    exact .bind hselect fun _ _ => .pure fun hc => by simp [StatementBody.shift, hc]
  · exact .bind insert_cuts fun _ _ => .pure fun hc => by simp [StatementBody.shift, hc]
  · exact .bind update_cuts fun _ _ => .pure fun hc => by simp [StatementBody.shift, hc]
  · exact .bind delete_cuts fun _ _ => .pure fun hc => by simp [StatementBody.shift, hc]
  · exact .bind createTable_cuts fun _ _ => .pure fun hc => by simp [StatementBody.shift, hc]
  · exact .bind alterTable_cuts fun _ _ => .pure fun hc => by simp [StatementBody.shift, hc]
  · exact .bind dropTable_cuts fun _ _ => .pure fun hc => by simp [StatementBody.shift, hc]
  · exact .failExpected _

end SqlAnalysis.Parser
