import SqlAnalysis.Grammar.Script
import SqlAnalysis.Proofs.Grammar.Queries

/-!
# Reading statements in step

Two runs of the parser for statements agree. What the statements are made of is
not followed further than the recovery needs: a statement that is read has read
at least its first word.
-/
namespace SqlAnalysis.Parser

open ParserState

variable {α β : Type} {tail : List Token} {s s' : ParserState}

/-- Whether two runs agree, whatever they read. -/
def InUnison (p p' : Parser α) (s s' : ParserState) : Prop :=
  Agree p p' s s' fun _ _ _ => True

theorem Agree.unison {p p' : Parser α} {Q : α → List Token → List Token → Prop}
    (h : Agree p p' s s' Q) : InUnison p p' s s' :=
  h.mono fun _ _ _ _ => trivial

theorem InUnison.bind {p p' : Parser α} {f f' : α → Parser β} (h : InStep tail s s')
    (hp : InUnison p p' s s') (hf : ∀ a u u', InStep tail u u' → InUnison (f a) (f' a) u u') :
    InUnison (p >>= f) (p' >>= f') s s' :=
  Agree.bind h hp fun a _ u u' _ hu _ => hf a u u' hu

/-- Whether something is read at all. -/
def ReadsToken (_ : α) (read : List Token) : Prop := read ≠ []

/-- A parser that begins with the word that was looked at reads something. -/
theorem advance_reads {f f' : Token → Parser β} {kind : TokenKind} (h : Extends tail s s')
    (hs : s.kindAt 0 = kind) (hk : kind.endsStatement = false)
    (hf : ∀ t u u', InStep tail u u' → InUnison (f t) (f' t) u u') :
    Agree (advance >>= f) (advance >>= f') s s' fun b read _ => ReadsToken b read :=
  .advance h hs hk fun t u u' _ hu _ => (hf t u u' hu).mono fun _ _ _ _ => List.cons_ne_nil _ _

theorem expr_unison (h : InStep tail s s') : InUnison expr expr s s' :=
  (exprAt_agree trivial_rules h 0).unison

theorem identList_unison (h : Extends tail s s') : InUnison identList identList s s' :=
  (identList_agree h).unison

theorem commaSeparated_unison {p p' : Parser α} (h : InStep tail s s')
    (hp : ∀ u u', InStep tail u u' → InUnison p p' u u') :
    InUnison (commaSeparated p) (commaSeparated p') s s' :=
  (commaSeparated_agree h fun u u' hu _ => hp u u' hu).unison

theorem under_unison {p p' : Parser α} {hint hint' : Hint} (h : InStep tail s s')
    (hp : ∀ u u', InStep tail u u' → InUnison p p' u u') :
    InUnison (under hint p) (under hint' p') s s' :=
  .under h fun u u' hu _ => hp u u' hu

/-! ### Changes -/

theorem valueRow_unison (h : InStep tail s s') : InUnison valueRow valueRow s s' := by
  apply Agree.expect h.toExtends rfl
  intro opening u u' _ hu _
  apply Agree.bind hu (unlessClosing_agree hu (commaSeparated_agree hu fun v v' hv _ =>
    expr_unison hv))
  intro values _ v v' _ hv _
  exact .expect hv.toExtends rfl fun closing w w' _ hw _ => .spanFrom hw fun _ => .pure trivial

theorem columnsOf_unison (h : InStep tail s s') (table : Ident) :
    InUnison (columnsOf table) (columnsOf table) s s' := by
  refine .ifCheck h.toExtends rfl (fun _ => ?_) fun _ => .pure trivial
  exact .skip _ _ rfl rfl (under_unison h fun u u' hu => identList_unison hu.toExtends)

theorem tableName_unison (h : InStep tail s s') {hint hint' : Hint} :
    InUnison (under hint ident) (under hint' ident) s s' :=
  under_unison h fun _ _ hu => (ident_agree hu.toExtends).unison

theorem insert_agree (h : Extends tail s s') (hword : s.kindAt 0 = .keyword .INSERT) :
    Agree insert insert s s' fun change read _ => ReadsToken change read := by
  apply advance_reads h hword rfl
  intro _ u u' hu
  apply Agree.expect hu.toExtends rfl
  intro _ u u' _ hu _
  apply Agree.skip _ _ rfl rfl
  apply InUnison.bind hu (tableName_unison hu)
  intro table u u' hu
  apply InUnison.bind hu (columnsOf_unison hu table)
  intro columns u u' hu
  apply Agree.skip _ _ rfl rfl
  apply InUnison.bind hu (under_unison hu fun v v' hv => (expect_agree hv.toExtends rfl _).unison)
  intro _ u u' hu
  apply Agree.skip _ _ rfl rfl
  refine InUnison.bind hu (under_unison hu fun v v' hv => commaSeparated_unison hv
    fun w w' hw => valueRow_unison hw) fun rows u u' hu => .pure trivial

theorem afterWord_unison {p p' : Parser α} (h : InStep tail s s') (word : Keyword)
    (hp : ∀ u u', InStep tail u u' → InUnison p p' u u') :
    InUnison (afterWord word p) (afterWord word p') s s' :=
  (afterWord_agree (P := fun _ _ => True) h word fun u u' hu _ => hp u u' hu).unison

theorem rowCondition?_unison (h : InStep tail s s') (table : Ident) :
    InUnison (rowCondition? table) (rowCondition? table) s s' := by
  apply afterWord_unison h .WHERE
  intro u u' hu
  apply Agree.skip _ _ rfl rfl
  exact under_unison hu fun _ _ hv => expr_unison hv

theorem assignment_unison (h : InStep tail s s') : InUnison assignment assignment s s' := by
  apply InUnison.bind h (ident_agree h.toExtends).unison
  intro column u u' hu
  apply Agree.expect hu.toExtends rfl
  intro _ v v' _ hv _
  exact InUnison.bind hv (expr_unison hv) fun _ _ _ _ => .pure trivial

theorem update_agree (h : Extends tail s s') (hword : s.kindAt 0 = .keyword .UPDATE) :
    Agree update update s s' fun change read _ => ReadsToken change read := by
  apply advance_reads h hword rfl
  intro _ u u' hu
  apply Agree.skip _ _ rfl rfl
  apply InUnison.bind hu (tableName_unison hu)
  intro table u u' hu
  apply Agree.expect hu.toExtends rfl
  intro _ u u' _ hu _
  apply Agree.skip _ _ rfl rfl
  apply InUnison.bind hu (under_unison hu fun v v' hv => commaSeparated_unison hv
    fun w w' hw => assignment_unison hw)
  intro _ u u' hu
  exact InUnison.bind hu (rowCondition?_unison hu table) fun _ _ _ _ => .pure trivial

theorem delete_agree (h : Extends tail s s') (hword : s.kindAt 0 = .keyword .DELETE) :
    Agree delete delete s s' fun change read _ => ReadsToken change read := by
  apply advance_reads h hword rfl
  intro _ u u' hu
  apply Agree.expect hu.toExtends rfl
  intro _ u u' _ hu _
  apply Agree.skip _ _ rfl rfl
  apply InUnison.bind hu (tableName_unison hu)
  intro table u u' hu
  exact InUnison.bind hu (rowCondition?_unison hu table) fun _ _ _ _ => .pure trivial

/-! ### Definitions -/

theorem bracketed_unison (h : Extends tail s s') : InUnison bracketed bracketed s s' := by
  apply Agree.expect h rfl
  intro opening u u' _ hu _
  apply InUnison.bind hu (expr_unison hu)
  intro e u u' hu
  exact .expect hu.toExtends rfl fun closing _ _ _ _ _ => .pure trivial

theorem signedNumber_unison (h : InStep tail s s') (hs : s.tokens ≠ []) :
    InUnison signedNumber signedNumber s s' := by
  refine .skip (s.kindAt 1) (s'.kindAt 1) rfl rfl ?_
  rcases h.kindAt_cases (n := 1) (List.length_pos_iff.mpr hs) with heq | ⟨heof, hsemicolon⟩
  · rw [heq]
    split
    · exact (exprAt_agree trivial_rules h _).unison
    · exact (exprAt_agree trivial_rules h _).unison
    · exact .failExpected _
  · rw [heof, hsemicolon]
    exact .failExpected _

theorem defaultValue_unison (h : InStep tail s s') :
    InUnison defaultValue defaultValue s s' := by
  refine InUnison.bind h (literal?_agree h.toExtends).unison fun e? u u' hu => ?_
  cases e? with
  | some e => exact .pure trivial
  | none =>
    refine .peek hu.toExtends (fun t ts hts => ?_) fun _ k hk => ?_
    · have hne : u.tokens ≠ [] := by simp [hts]
      split
      · refine .current hu.toExtends (fun first _ _ => ?_) fun hnil => absurd hnil hne
        exact InUnison.bind hu (bracketed_unison hu.toExtends) fun e v v' hv =>
          .spanFrom hv fun _ => .pure trivial
      · exact signedNumber_unison hu hne
      · exact signedNumber_unison hu hne
      · split
        · exact InUnison.bind hu (ident_agree hu.toExtends).unison fun _ _ _ _ => .pure trivial
        · exact .failExpected _
    · rcases hk with rfl | rfl <;> exact .failExpected _

theorem typeWord?_agree (h : Extends tail s s') :
    Agree typeWord? typeWord? s s' fun word? read _ => Optional ReadsToken word? read := by
  refine .peek h (fun t ts hts => ?_) fun _ k hk => ?_
  · split
    · refine .bind_after (advance_agree h hts) ?_
      rintro _ _ u u' _ _ ⟨-, rfl, -⟩
      exact .pure (.some (List.cons_ne_nil _ _))
    · exact .pure .none
  · rcases hk with rfl | rfl <;> exact .pure .none

theorem typeParam_unison (h : Extends tail s s') : InUnison typeParam typeParam s s' := by
  refine .current h (fun t ts hts => ?_) fun _ t t' ht ht' => ?_
  · split
    · apply Agree.bind_after (advance_agree h hts)
      intro _ _ u u' _ _ _
      split
      · exact .pure trivial
      · exact .throw
    · exact .failExpected _
  · rw [ht]
    rcases ht' with ht' | ht' <;> rw [ht'] <;> exact .failExpected _

theorem typeParams_unison (h : InStep tail s s') : InUnison typeParams typeParams s s' := by
  refine .ifEat h.toExtends rfl (fun opening u u' _ hu _ => ?_) fun _ => .pure trivial
  apply InUnison.bind hu (commaSeparated_unison hu fun v v' hv => typeParam_unison hv.toExtends)
  intro params u u' hu
  exact .expect hu.toExtends rfl fun closing _ _ _ _ _ => .pure trivial

theorem typeName?_unison (h : InStep tail s s') : InUnison typeName? typeName? s s' := by
  apply Agree.start h.toExtends
  intro first first' hfirst
  have hwords := many_agree (P := ReadsToken) h (fun _ _ hne => hne)
    fun u u' hu _ => typeWord?_agree hu.toExtends
  apply Agree.bind h hwords
  intro words read u u' hu hu' hread
  cases hread with
  | nil => exact .pure trivial
  | cons hne _ =>
    have hne : _ ≠ [] := hne
    obtain rfl : first = first' := hfirst (by simp [hu.tokens, hne])
    exact InUnison.bind hu' (typeParams_unison hu') fun params v v' hv =>
      .spanFrom hv fun _ => .pure trivial

theorem foreignKeyClause_agree (h : Extends tail s s') :
    Agree foreignKeyClause foreignKeyClause s s' fun clause read _ => ReadsToken clause read := by
  apply Agree.expect h rfl
  intro _ u u' _ hu _
  apply Agree.skip _ _ rfl rfl
  apply Agree.bind hu (tableName_unison hu)
  intro table _ u u' _ hu _
  exact .bind hu (columnsOf_unison hu table) fun _ _ _ _ _ _ _ => .pure (List.cons_ne_nil _ _)

theorem constraintName?_agree (h : InStep tail s s') :
    Agree constraintName? constraintName? s s' fun name? read _ =>
      Optional (Preceded (.keyword .CONSTRAINT) Ident.Spelled) name? read :=
  afterWord_agree h .CONSTRAINT fun _ _ hu _ => ident_agree hu.toExtends

theorem columnRule?_agree (h : InStep tail s s') :
    Agree columnRule? columnRule? s s' fun rule? read _ => Optional ReadsToken rule? read := by
  refine .peek h.toExtends (fun t ts hts => ?_) fun _ k hk => ?_
  · have hkind : s.kindAt 0 = t.kind := by simp [ParserState.kindAt, hts]
    split <;> rename_i hword
    · apply Agree.advance h.toExtends (hkind.trans hword) rfl
      intro _ u u' _ hu _
      exact .expect hu.toExtends rfl fun _ _ _ _ _ _ => .pure (.some (List.cons_ne_nil _ _))
    · exact .advance h.toExtends (hkind.trans hword) rfl fun _ _ _ _ _ _ =>
        .pure (.some (List.cons_ne_nil _ _))
    · apply Agree.advance h.toExtends (hkind.trans hword) rfl
      intro _ u u' _ hu _
      exact .bind hu (defaultValue_unison hu) fun _ _ _ _ _ _ _ =>
        .pure (.some (List.cons_ne_nil _ _))
    · apply Agree.advance h.toExtends (hkind.trans hword) rfl
      intro _ u u' _ hu _
      apply Agree.expect hu.toExtends rfl
      intro _ u u' _ hu _
      apply Agree.bind hu (direction?_agree hu)
      intro _ _ u u' _ hu _
      exact .bind hu (eat_agree hu.toExtends rfl) fun _ _ _ _ _ _ _ =>
        .pure (.some (List.cons_ne_nil _ _))
    · exact .advance h.toExtends (hkind.trans hword) rfl fun _ _ _ _ _ _ =>
        .pure (.some (List.cons_ne_nil _ _))
    · apply Agree.bind h (foreignKeyClause_agree h.toExtends)
      intro _ read _ _ _ _ hread
      apply Agree.pure
      exact .some (by simpa [ReadsToken] using hread)
    · apply Agree.advance h.toExtends (hkind.trans hword) rfl
      intro _ u u' _ hu _
      exact .bind hu (ident_agree hu.toExtends) fun _ _ _ _ _ _ _ =>
        .pure (.some (List.cons_ne_nil _ _))
    · apply Agree.advance h.toExtends (hkind.trans hword) rfl
      intro _ u u' _ hu _
      exact .bind hu (bracketed_unison hu.toExtends) fun _ _ _ _ _ _ _ =>
        .pure (.some (List.cons_ne_nil _ _))
    · exact .pure .none
  · rcases hk with rfl | rfl <;> exact .pure .none

theorem columnConstraint?_agree (h : InStep tail s s') :
    Agree columnConstraint? columnConstraint? s s' fun constraint? read _ =>
      Optional ReadsToken constraint? read := by
  apply Agree.start h.toExtends
  intro first first' hfirst
  refine .bind h (constraintName?_agree h) fun name? read u u' hu hu' hname => ?_
  refine .bind hu' (columnRule?_agree hu') fun rule? more v v' hv hv' hrule => ?_
  cases hrule with
  | some hmore =>
    have hmore : more ≠ [] := hmore
    obtain rfl : first = first' := hfirst (by simp [(hu.trans hv).tokens, hmore])
    refine .spanFrom hv' fun _ => .pure (.some ?_)
    simpa [ReadsToken] using fun _ => hmore
  | none =>
    cases hname with
    | none => exact .pure .none
    | some _ => exact .failExpected _

theorem columnDef_unison (h : InStep tail s s') : InUnison columnDef columnDef s s' := by
  apply InUnison.bind h (ident_agree h.toExtends).unison
  intro name u u' hu
  apply Agree.skip _ _ rfl rfl
  apply InUnison.bind hu (under_unison hu fun v v' hv => typeName?_unison hv)
  intro typeName u u' hu
  apply Agree.skip _ _ rfl rfl
  apply InUnison.bind hu (under_unison hu fun v v' hv => Agree.unison (many_agree hv
    (fun _ _ hread => hread) fun w w' hw _ => columnConstraint?_agree hw))
  intro _ u u' hu
  exact .spanFrom hu fun _ => .pure trivial

theorem tableRule_agree (h : InStep tail s s') :
    Agree tableRule tableRule s s' fun rule read _ => ReadsToken rule read := by
  refine .peek h.toExtends (fun t ts hts => ?_) fun _ k hk => ?_
  · have hkind : s.kindAt 0 = t.kind := by simp [ParserState.kindAt, hts]
    split <;> rename_i hword
    · apply Agree.advance h.toExtends (hkind.trans hword) rfl
      intro _ u u' _ hu _
      apply Agree.expect hu.toExtends rfl
      intro _ u u' _ hu _
      exact .bind hu (identList_agree hu.toExtends) fun _ _ _ _ _ _ _ =>
        .pure (List.cons_ne_nil _ _)
    · apply Agree.advance h.toExtends (hkind.trans hword) rfl
      intro _ u u' _ hu _
      exact .bind hu (identList_agree hu.toExtends) fun _ _ _ _ _ _ _ =>
        .pure (List.cons_ne_nil _ _)
    · apply Agree.advance h.toExtends (hkind.trans hword) rfl
      intro _ u u' _ hu _
      exact .bind hu (bracketed_unison hu.toExtends) fun _ _ _ _ _ _ _ =>
        .pure (List.cons_ne_nil _ _)
    · apply Agree.advance h.toExtends (hkind.trans hword) rfl
      intro _ u u' _ hu _
      apply Agree.expect hu.toExtends rfl
      intro _ u u' _ hu _
      apply Agree.bind hu (identList_agree hu.toExtends)
      intro _ _ u u' _ hu _
      exact .bind hu (foreignKeyClause_agree hu.toExtends) fun _ _ _ _ _ _ _ =>
        .pure (List.cons_ne_nil _ _)
    · exact .failExpected _
  · rcases hk with rfl | rfl <;> exact .failExpected _

theorem tableConstraint_unison (h : InStep tail s s') :
    InUnison tableConstraint tableConstraint s s' := by
  apply Agree.start h.toExtends
  intro first first' hfirst
  refine .bind h (constraintName?_agree h) fun name? read u u' hu hu' _ => ?_
  apply Agree.bind hu' (tableRule_agree hu')
  intro rule more v v' hv hv' hmore
  have hmore : more ≠ [] := hmore
  obtain rfl : first = first' := hfirst (by simp [(hu.trans hv).tokens, hmore])
  exact .spanFrom hv' fun _ => .pure trivial

theorem tableItem_unison (h : InStep tail s s') : InUnison tableItem tableItem s s' := by
  refine .peek h.toExtends (fun t ts hts => ?_) fun _ k hk => ?_
  · split
    · exact InUnison.bind h (tableConstraint_unison h) fun _ _ _ _ => .pure trivial
    · exact InUnison.bind h (columnDef_unison h) fun _ _ _ _ => .pure trivial
  · rcases hk with rfl | rfl <;>
      exact InUnison.bind h (columnDef_unison h) fun _ _ _ _ => .pure trivial

theorem ifNotExists_unison (h : InStep tail s s') : InUnison ifNotExists ifNotExists s s' := by
  refine .ifBoth h.toExtends rfl rfl (fun hif hnot => ?_) (.pure trivial)
  apply Agree.advance h.toExtends hif rfl
  intro _ u u' hu hu' _
  apply Agree.advance hu'.toExtends ((hu.kindAt_eq 0).symm.trans hnot) rfl
  intro _ v v' _ hv _
  exact .expect hv.toExtends rfl fun _ _ _ _ _ _ => .pure trivial

theorem createTable_agree (h : Extends tail s s') (hword : s.kindAt 0 = .keyword .CREATE) :
    Agree createTable createTable s s' fun change read _ => ReadsToken change read := by
  apply advance_reads h hword rfl
  intro _ u u' hu
  apply Agree.expect hu.toExtends rfl
  intro _ u u' _ hu _
  apply InUnison.bind hu (ifNotExists_unison hu)
  intro _ u u' hu
  apply InUnison.bind hu (ident_agree hu.toExtends).unison
  intro _ u u' hu
  apply Agree.expect hu.toExtends rfl
  intro _ u u' _ hu _
  apply InUnison.bind hu (commaSeparated_unison hu fun v v' hv => tableItem_unison hv)
  intro _ u u' hu
  exact .expect hu.toExtends rfl fun _ _ _ _ _ _ => .pure trivial

theorem alterVerb_unison (h : InStep tail s s') : InUnison alterVerb alterVerb s s' := by
  refine .peek h.toExtends (fun t ts hts => ?_) fun _ k hk => ?_
  · have hkind : s.kindAt 0 = t.kind := by simp [ParserState.kindAt, hts]
    split <;> rename_i hword
    · apply Agree.advance h.toExtends (hkind.trans hword) rfl
      intro _ u u' _ hu _
      exact InUnison.bind hu (eat_agree hu.toExtends rfl).unison fun _ _ _ _ => .pure trivial
    · apply Agree.advance h.toExtends (hkind.trans hword) rfl
      intro _ u u' _ hu _
      exact InUnison.bind hu (eat_agree hu.toExtends rfl).unison fun _ _ _ _ => .pure trivial
    · apply Agree.advance h.toExtends (hkind.trans hword) rfl
      intro _ u u' _ hu _
      refine .ifEat hu.toExtends rfl (fun _ _ _ _ _ _ => .pure trivial) fun _ => ?_
      exact InUnison.bind hu (eat_agree hu.toExtends rfl).unison fun _ _ _ _ => .pure trivial
    · exact .failExpected _
  · rcases hk with rfl | rfl <;> exact .failExpected _

theorem alterTable_agree (h : Extends tail s s') (hword : s.kindAt 0 = .keyword .ALTER) :
    Agree alterTable alterTable s s' fun change read _ => ReadsToken change read := by
  apply advance_reads h hword rfl
  intro _ u u' hu
  apply Agree.expect hu.toExtends rfl
  intro _ u u' _ hu _
  apply Agree.skip _ _ rfl rfl
  apply InUnison.bind hu (tableName_unison hu)
  intro table u u' hu
  apply Agree.skip _ _ rfl rfl
  apply InUnison.bind hu (under_unison hu fun v v' hv => alterVerb_unison hv)
  intro verb u u' hu
  cases verb with
  | addColumn => exact InUnison.bind hu (columnDef_unison hu) fun _ _ _ _ => .pure trivial
  | dropColumn =>
    refine .skip _ _ rfl rfl ?_
    exact InUnison.bind hu (tableName_unison hu) fun _ _ _ _ => .pure trivial
  | renameTo =>
    exact InUnison.bind hu (ident_agree hu.toExtends).unison fun _ _ _ _ => .pure trivial
  | renameColumn =>
    refine .skip _ _ rfl rfl ?_
    apply InUnison.bind hu (tableName_unison hu)
    intro _ u u' hu
    apply Agree.expect hu.toExtends rfl
    intro _ u u' _ hu _
    exact InUnison.bind hu (ident_agree hu.toExtends).unison fun _ _ _ _ => .pure trivial

theorem ifExists_unison (h : InStep tail s s') : InUnison ifExists ifExists s s' := by
  refine .ifBoth h.toExtends rfl rfl (fun hif hexists => ?_) (.pure trivial)
  apply Agree.advance h.toExtends hif rfl
  intro _ u u' hu hu' _
  exact .advance hu'.toExtends ((hu.kindAt_eq 0).symm.trans hexists) rfl
    fun _ _ _ _ _ _ => .pure trivial

theorem dropTable_agree (h : Extends tail s s') (hword : s.kindAt 0 = .keyword .DROP) :
    Agree dropTable dropTable s s' fun change read _ => ReadsToken change read := by
  apply advance_reads h hword rfl
  intro _ u u' hu
  apply Agree.expect hu.toExtends rfl
  intro _ u u' _ hu _
  apply InUnison.bind hu (ifExists_unison hu)
  intro _ u u' hu
  apply Agree.skip _ _ rfl rfl
  exact InUnison.bind hu (tableName_unison hu) fun _ _ _ _ => .pure trivial

/-! ### Statements -/

theorem statementBody_agree (h : Extends tail s s') :
    Agree statementBody statementBody s s' fun body read _ => ReadsToken body read := by
  have hlift : ∀ {γ : Type} {p : Parser γ} {body : γ → StatementBody},
      Agree p p s s' (fun a read _ => ReadsToken a read) →
      Agree (do return body (← p)) (do return body (← p)) s s'
        fun body read _ => ReadsToken body read := by
    intro γ p body hp
    apply hp.bind_after
    intro a read u u' _ _ hread
    apply Agree.pure
    simpa [ReadsToken] using hread
  refine .peek h (fun t ts hts => ?_) fun _ k hk => ?_
  · have hkind : s.kindAt 0 = t.kind := by simp [ParserState.kindAt, hts]
    split <;> (rename_i hword; try have hword := hkind.trans hword)
    · exact hlift ((select_agree spelled_rules h).mono fun _ _ _ hread => hread.ne_nil)
    · exact hlift (insert_agree h hword)
    · exact hlift (update_agree h hword)
    · exact hlift (delete_agree h hword)
    · exact hlift (createTable_agree h hword)
    · exact hlift (alterTable_agree h hword)
    · exact hlift (dropTable_agree h hword)
    · exact .failExpected _
  · rcases hk with rfl | rfl <;> exact .failExpected _

theorem statement_agree (h : Extends tail s s') :
    Agree statement statement s s' fun statement read _ => ReadsToken statement read := by
  apply Agree.start h
  intro first first' hfirst
  apply Agree.bind_read h (statementBody_agree h) (fun _ _ _ hread => hread)
  intro body read u u' hu hu' hread
  obtain rfl : first = first' := hfirst (by
    rw [hu.tokens]
    exact List.append_ne_nil_of_left_ne_nil hread _)
  apply Agree.spanFrom hu'
  intro span
  apply Agree.pure
  simpa [ReadsToken] using hread

end SqlAnalysis.Parser
