import SqlAnalysis.Proofs.Grammar.Segments
import SqlAnalysis.Proofs.Grammar.SeatedQueries

/-!
# Where the marks of statements stand

The marks of every statement of a text are seated: whatever else touches a byte of a name
in it is longer than the name.
-/
namespace SqlAnalysis

/-- The marks of an item of a table. -/
def itemMarks : ColumnDef ⊕ TableConstraint → List Mark :=
  Sum.elim ColumnDef.marks fun c => c.rule.marks

theorem itemMarks_perm (items : List (ColumnDef ⊕ TableConstraint)) :
    (items.flatMap itemMarks).Perm
      ((items.filterMap Sum.getLeft?).flatMap ColumnDef.marks ++
        (items.filterMap Sum.getRight?).flatMap fun c => c.rule.marks) := by
  induction items with
  | nil => exact .nil
  | cons item items ih =>
    cases item with
    | inl d =>
      have h := ih.append_left d.marks
      rw [← List.append_assoc] at h
      exact h
    | inr c => exact (ih.append_left c.rule.marks).trans (List.perm_append_comm_assoc _ _ _)

namespace Parser

open ParserState

variable {s : ParserState}

theorem exprAt_seats (power : Nat) (s : ParserState) : Reads (exprAt power) s Expr.IsSeated :=
  .of_agree fun h => (exprAt_agree seated_rules h power).mono fun _ _ _ he => he.spelled

theorem expr_seats (s : ParserState) : Reads expr s Expr.IsSeated :=
  exprAt_seats 0 s

theorem select_seats (s : ParserState) : Reads select s Select.IsSeated :=
  .of_agree fun h => select_agree seated_rules h.toExtends

/-! ### Changes -/

theorem valueRow_seats (s : ParserState) :
    Reads valueRow s fun row read => Sheltered (exprMarks row.values) read := by
  refine .expect rfl fun opening u hu _ => ?_
  refine (unlessClosing_reads (commaSeparated_reads expr_seats u)).bind
    fun values read v hv hvalues => ?_
  refine .expect rfl fun closing w hw _ => ?_
  refine .spanFrom ((hu.trans hv).trans hw) rfl fun span hspan => .pure ?_
  exact ((listed_seated hvalues).before [closing]).sheltered (List.cons_ne_nil opening [])

theorem columnsOf_seats (table : Ident) (s : ParserState) :
    Reads (columnsOf table) s fun columns read =>
      Sheltered (columns.map fun name => .column name none) read := by
  refine .ifCheck (fun _ => .look _ rfl (.under ?_)) (.pure (.nil _))
  refine (identList_reads _).mono fun columns read hcolumns => ?_
  rw [List.map_eq_flatMap]
  exact hcolumns.sheltered fun _ hnames => hnames.seated fun _ _ hname =>
    (hname.sheltered none).toSeated

theorem insert_seats (hword : s.kindAt 0 = .keyword .INSERT) :
    Reads insert s fun i read => Sheltered (StatementBody.insert i).marks read := by
  refine .advance hword rfl fun word u _ _ => .expect rfl fun into v _ _ => .look _ rfl ?_
  refine (hintedIdent_reads _ v).bind fun table read w _ htable => ?_
  refine (columnsOf_seats table w).bind fun columns more x _ hcolumns => .look _ rfl ?_
  have hvalues : ∀ h, Reads (under h (expectWord .VALUES)) x fun _ read => ∃ t, read = [t] :=
    fun h => .under (Reads.mono (.of_agree fun h => expect_agree h.toExtends rfl _)
      fun t _ hread => ⟨t, hread.2⟩)
  refine (hvalues _).bind fun _ values y _ _ => .look _ rfl ?_
  refine (Reads.under (commaSeparated_reads valueRow_seats _)).map fun rows rest hrows => ?_
  have hrows := (hrows.sheltered fun _ _ h => h).after values
  rw [StatementBody.marks, Insert.listed_of_nil rfl]
  exact ((htable.sheltered none).append (hcolumns.append hrows)).after [word, into]

theorem rowCondition?_seats (table : Ident) (s : ParserState) :
    Reads (rowCondition? table) s fun condition read => Sheltered (optionMarks condition) read := by
  have hcondition : ∀ s, Reads (do
      let h ← columnsOfHint table
      under { h with keywords := conditionKeywords } expr) s Expr.IsSeated :=
    fun s => .look _ rfl (.under (expr_seats _))
  exact (afterWord_reads .WHERE hcondition s).mono fun _ _ => option_sheltered

theorem assignment_seats (s : ParserState) :
    Reads assignment s fun a read => Sheltered a.marks read := by
  refine (ident_reads s).bind fun column read u _ hcolumn => ?_
  refine .expect rfl fun mark v _ _ => ?_
  refine (expr_seats v).map fun value more hvalue => ?_
  exact (hcolumn.sheltered none).append (hvalue.sheltered mark)

theorem update_seats (hword : s.kindAt 0 = .keyword .UPDATE) :
    Reads update s fun u read => Sheltered (StatementBody.update u).marks read := by
  refine .advance hword rfl fun word u _ _ => .look _ rfl ?_
  refine (hintedIdent_reads _ u).bind fun table read v _ htable => ?_
  refine .expect rfl fun mark w _ _ => .look _ rfl ?_
  refine (Reads.under (commaSeparated_reads assignment_seats _)).bind
    fun assignments more x _ hassignments => ?_
  refine (rowCondition?_seats table x).map fun condition rest hcondition => ?_
  have hassignments := hassignments.sheltered fun _ _ h => h
  exact ((htable.sheltered none).append ((hassignments.append hcondition).after [mark])).after
    [word]

theorem delete_seats (hword : s.kindAt 0 = .keyword .DELETE) :
    Reads delete s fun d read => Sheltered (StatementBody.delete d).marks read := by
  refine .advance hword rfl fun word u _ _ => .expect rfl fun mark v _ _ => .look _ rfl ?_
  refine (hintedIdent_reads _ v).bind fun table read w _ htable => ?_
  refine (rowCondition?_seats table w).map fun condition rest hcondition => ?_
  exact ((htable.sheltered none).append hcondition).after [word, mark]

/-! ### Columns -/

theorem bracketed_seats (s : ParserState) : Reads bracketed s (Bracketed Expr.IsSeated) := by
  refine .expect rfl fun opening u _ hopening => ?_
  refine (expr_seats u).bind fun e read v _ he => ?_
  exact .expect rfl fun closing _ _ hclosing => .pure (.mk hopening he hclosing)

theorem signedNumber_seats (s : ParserState) : Reads signedNumber s Expr.IsSeated := by
  refine .look (s.kindAt 1) rfl ?_
  split
  · exact exprAt_seats _ s
  · exact exprAt_seats _ s
  · exact .failExpected _

theorem defaultValue_seats (s : ParserState) : Reads defaultValue s Expr.IsSeated := by
  have hliteral : ∀ s, Reads literal? s (Optional Expr.IsSeated) := fun s =>
    Reads.mono (.of_agree fun h => literal?_agree h.toExtends) fun o read ho => by
      cases ho with
      | none => exact .none
      | some he =>
        obtain ⟨hvalue⟩ := he
        exact .some (seated_rules.constant hvalue (.singleton _))
  refine (hliteral s).bind fun e? read u _ he => ?_
  cases he with
  | some he => exact .pure (by simpa using he)
  | none =>
    simp only [List.nil_append]
    refine .peek fun k _ => ?_
    split
    · refine .look u.current rfl ?_
      refine (bracketed_seats u).bind fun inner more v hv hinner => ?_
      have hmore : more ≠ [] := by
        obtain ⟨_, _, _⟩ := hinner
        simp
      refine .spanFrom hv (hv.current_mem_head? hmore) fun span hspan => .pure ?_
      rw [List.append_nil]
      exact seated_rules.brackets hinner hspan
    · exact signedNumber_seats u
    · exact signedNumber_seats u
    · refine .ite (fun _ => ?_) fun _ => .failExpected _
      exact (ident_reads u).map fun name more hname => .name hname.runs

theorem columnRule?_seats (s : ParserState) :
    Reads columnRule? s fun (rule : Option ColumnRule) read =>
      Sheltered (rule.toList.flatMap ColumnRule.marks) read := by
  have hrule : ∀ {rule : ColumnRule} {read : List Token}, Sheltered rule.marks read →
      Sheltered ((some rule).toList.flatMap ColumnRule.marks) read := fun h => by simpa using h
  refine .peek fun k hk => ?_
  split
  · exact .advance hk rfl fun _ _ _ _ => .expect rfl fun _ _ _ _ => .pure (.nil _)
  · exact .advance hk rfl fun _ _ _ _ => .pure (.nil _)
  · refine .advance hk rfl fun word u _ _ => (defaultValue_seats u).map fun e read he => ?_
    exact hrule (he.sheltered word)
  · refine .advance hk rfl fun _ u _ _ => .expect rfl fun _ v _ _ => ?_
    refine (Reads.of_agree direction?_agree).bind fun _ _ w _ _ => ?_
    exact (Reads.of_agree fun h => eat_agree h.toExtends rfl).map fun _ _ _ => .nil _
  · exact .advance hk rfl fun _ _ _ _ => .pure (.nil _)
  · exact (foreignKeyClause_reads s).map fun _ _ _ => .nil _
  · exact .advance hk rfl fun word u _ _ => (ident_reads u).map fun _ _ _ => .nil _
  · refine .advance hk rfl fun word u _ _ => (bracketed_seats u).map fun e read he => ?_
    exact hrule ((he.sheltered fun _ he => he.marks).after [word])
  · exact .pure (.nil _)

theorem columnConstraint?_seats (s : ParserState) :
    Reads columnConstraint? s
      (Optional fun c read => Sheltered (ColumnRule.marks c.rule) read) := by
  refine .look s.current rfl ?_
  refine ((constraintName?_reads s).and (.of_agree constraintName?_agree)).bind
    fun name read u hu hname => ?_
  refine ((columnRule?_seats u).and (.of_agree columnRule?_agree)).bind
    fun rule? more v hv hrule => ?_
  obtain ⟨hrule, hmore⟩ := hrule
  cases hmore with
  | some hmore =>
    have hmore : more ≠ [] := hmore
    have htook := hu.trans hv
    refine .spanFrom htook (htook.current_mem_head? (by simp [hmore])) fun span hspan => .pure ?_
    have hconstraint : Optional (fun (c : ColumnConstraint) read => Sheltered c.rule.marks read)
        (some ⟨name, _, span⟩) (read ++ more) := .some (.after (by simpa using hrule) read)
    simpa using hconstraint
  | none =>
    obtain ⟨-, hname⟩ := hname
    cases hname with
    | none => exact .pure .none
    | some _ => exact .failExpected _

theorem columnDef_seats (s : ParserState) :
    Reads columnDef s fun d read => Sheltered d.marks read := by
  refine (ident_reads s).bind fun name read u hu hname => .look _ rfl ?_
  refine (Reads.under (typeName?_reads _)).bind fun typeName more v hv _ => .look _ rfl ?_
  refine (Reads.under (many_reads columnConstraint?_seats _)).bind
    fun constraints rest w hw hconstraints => ?_
  obtain ⟨first, rfl, hfirst⟩ := hname.exists_span
  rw [hfirst]
  refine .spanFrom ((hu.trans hv).trans hw) rfl fun span hspan => .pure ?_
  have hconstraints := (hconstraints.sheltered fun _ _ h => h).after more
  have hcolumn : Sheltered (ColumnDef.mk name typeName constraints span none none).marks
      ([first] ++ (more ++ rest)) := (hname.sheltered none).append hconstraints
  simpa using hcolumn

/-! ### Tables -/

theorem tableRule_seats (s : ParserState) :
    Reads tableRule s fun rule read => Sheltered rule.marks read := by
  refine .peek fun k hk => ?_
  split
  · refine .advance hk rfl fun _ u _ _ => .expect rfl fun _ v _ _ => ?_
    exact (identList_reads v).map fun _ _ _ => .nil _
  · exact .advance hk rfl fun _ u _ _ => (identList_reads u).map fun _ _ _ => .nil _
  · refine .advance hk rfl fun word u _ _ => (bracketed_seats u).map fun _ _ he => ?_
    exact (he.sheltered fun _ he => he.marks).after [word]
  · refine .advance hk rfl fun word u _ _ => .expect rfl fun mark v _ _ => ?_
    refine (identList_reads v).bind fun _ _ w _ _ => ?_
    exact (foreignKeyClause_reads w).map fun _ _ _ => .nil _
  · exact .failExpected _

theorem tableConstraint_seats (s : ParserState) :
    Reads tableConstraint s fun c read => Sheltered c.rule.marks read := by
  refine .look s.current rfl ?_
  refine (constraintName?_reads s).bind fun name read u hu _ => ?_
  refine ((tableRule_seats u).and (.of_agree tableRule_agree)).bind
    fun rule more v hv hrule => ?_
  obtain ⟨hrule, hmore⟩ := hrule
  have hmore : more ≠ [] := hmore
  have htook := hu.trans hv
  refine .spanFrom htook (htook.current_mem_head? (by simp [hmore])) fun span hspan => .pure ?_
  rw [List.append_nil]
  exact hrule.after read

theorem tableItem_seats (s : ParserState) :
    Reads tableItem s fun item read => Sheltered (itemMarks item) read := by
  refine .peek fun k _ => .ite (fun _ => ?_) fun _ => ?_
  · exact (tableConstraint_seats s).map fun _ _ hc => hc
  · exact (columnDef_seats s).map fun _ _ hd => hd

theorem createTable_seats (hword : s.kindAt 0 = .keyword .CREATE) :
    Reads createTable s fun t read => Sheltered (StatementBody.createTable t).marks read := by
  refine .advance hword rfl fun word u _ _ => .expect rfl fun table v _ _ => ?_
  refine (Reads.of_agree ifNotExists_unison).bind fun guarded words w _ _ => ?_
  refine (ident_reads w).bind fun name read x _ hname => ?_
  refine .expect rfl fun opening y _ _ => ?_
  refine (commaSeparated_reads tableItem_seats y).bind fun items more z _ hitems => ?_
  refine .expect rfl fun closing _ _ _ => .pure ?_
  have hitems := ((hitems.sheltered fun _ _ h => h).perm (itemMarks_perm items)).before [closing]
  exact ((hname.sheltered none).append (hitems.after [opening])).after ([word, table] ++ words)

theorem alterTable_seats (hword : s.kindAt 0 = .keyword .ALTER) :
    Reads alterTable s fun t read => Sheltered (StatementBody.alterTable t).marks read := by
  refine .advance hword rfl fun word u _ _ => .expect rfl fun mark v _ _ => .look _ rfl ?_
  refine (hintedIdent_reads _ v).bind fun table read w _ htable => .look _ rfl ?_
  refine (Reads.under (.of_agree alterVerb_unison)).bind fun verb words x _ _ => ?_
  have hrest : ∀ {ms : List Mark} {more : List Token}, Sheltered ms more →
      Sheltered (.table table none :: ms) (word :: mark :: (read ++ (words ++ more))) := fun h =>
    ((htable.sheltered none).append (h.after words)).after [word, mark]
  cases verb with
  | addColumn => exact (columnDef_seats x).map fun _ _ hd => hrest hd
  | dropColumn =>
    exact .look _ rfl ((hintedIdent_reads _ x).map fun _ _ _ => hrest (.nil _))
  | renameTo => exact (ident_reads x).map fun _ _ _ => hrest (.nil _)
  | renameColumn =>
    refine .look _ rfl ((hintedIdent_reads _ x).bind fun column more y _ _ => ?_)
    exact .expect rfl fun _ z _ _ => (ident_reads z).map fun _ _ _ => hrest (.nil _)

theorem dropTable_seats (hword : s.kindAt 0 = .keyword .DROP) :
    Reads dropTable s fun t read => Sheltered (StatementBody.dropTable t).marks read := by
  refine .advance hword rfl fun word u _ _ => .expect rfl fun mark v _ _ => ?_
  refine (Reads.of_agree ifExists_unison).bind fun _ words w _ _ => .look _ rfl ?_
  refine (hintedIdent_reads _ w).map fun table read htable => ?_
  exact (htable.sheltered none).after ([word, mark] ++ words)

/-! ### Statements -/

theorem statementBody_seats (s : ParserState) :
    Reads statementBody s fun body read => Sheltered body.marks read := by
  refine .peek fun k hk => ?_
  split
  · exact (select_seats s).map fun _ _ h => h
  · exact (insert_seats hk).map fun _ _ h => h
  · exact (update_seats hk).map fun _ _ h => h
  · exact (delete_seats hk).map fun _ _ h => h
  · exact (createTable_seats hk).map fun _ _ h => h
  · exact (alterTable_seats hk).map fun _ _ h => h
  · exact (dropTable_seats hk).map fun _ _ h => h
  · exact .failExpected _

theorem statement_seats (s : ParserState) :
    Reads statement s fun statement read => Sheltered statement.body.marks read := by
  refine .look s.current rfl ?_
  refine ((statementBody_seats s).and (.of_agree fun h => statementBody_agree h.toExtends)).bind
    fun body read u hu hbody => ?_
  obtain ⟨hbody, hread⟩ := hbody
  refine .spanFrom hu (hu.current_mem_head? hread) fun span hspan => .pure ?_
  rw [List.append_nil]
  exact hbody

end Parser

theorem Statement.IsRead.sheltered {statement : Statement} {piece : List Token} :
    statement.IsRead piece → Sheltered statement.body.marks piece
  | .mk final _ took run => by
    obtain ⟨read, htook, hmarks⟩ := Parser.statement_seats _ final _ _ run
    obtain rfl : piece = read := List.append_cancel_right (took.tokens.symm.trans htook.tokens)
    exact hmarks

end SqlAnalysis
