import SqlAnalysis.Proofs.Grammar.Isolation
import SqlAnalysis.Proofs.Grammar.Layout

/-!
# Where statements stand

The outline of every statement of a script fills the tokens it was read from, and no name
in it is bound to anything yet.
-/
namespace SqlAnalysis

open Outline

def ValueRow.Fills (row : ValueRow) (ts : List Token) : Prop :=
  row.outline.Fills ts

def ColumnConstraint.Fills (c : ColumnConstraint) (ts : List Token) : Prop :=
  c.outline.Fills ts

/-- Nothing is filled in of a column yet. -/
structure ColumnDef.IsUnbound (d : ColumnDef) : Prop where
  type : d.type = none
  binding : d.binding = none

/-- Whether a column stands over some tokens and is not resolved. -/
structure ColumnDef.FillsUnbound (d : ColumnDef) (ts : List Token) : Prop where
  fills : d.outline.Fills ts
  unbound : d.IsUnbound

/-- No column is bound that a statement defines. -/
def StatementBody.IsUnbound : StatementBody → Prop
  | .createTable t => ∀ d ∈ t.columns, d.IsUnbound
  | _ => True

/-- Whether a statement stands over some tokens and is not resolved. -/
structure StatementBody.FillsUnbound (body : StatementBody) (ts : List Token) : Prop where
  laid : Laid body.outlines ts
  unbound : body.IsUnbound

structure Statement.FillsUnbound (s : Statement) (ts : List Token) : Prop where
  fills : s.outline.Fills ts
  unbound : s.body.IsUnbound

theorem label_laid {label : Option Ident} {kind : TokenKind} {ts : List Token}
    (h : Optional (Preceded kind Ident.Spelled) label ts) : Laid (labelOutlines label) ts :=
  h.laid rfl (Preceded.laid fun _ _ hname => .of_fills hname.fills)

/-- The columns of a table and its constraints, in whichever order they were read. -/
def itemOutline : ColumnDef ⊕ TableConstraint → Outline :=
  Sum.elim ColumnDef.outline TableConstraint.outline

theorem itemOutline_perm (items : List (ColumnDef ⊕ TableConstraint)) :
    (items.map itemOutline).Perm
      ((items.filterMap Sum.getLeft?).map ColumnDef.outline ++
        (items.filterMap Sum.getRight?).map TableConstraint.outline) := by
  induction items with
  | nil => exact .nil
  | cons item items ih =>
    cases item with
    | inl d => exact ih.cons _
    | inr c => exact (ih.cons _).trans List.perm_middle.symm

namespace Parser

open ParserState

variable {α β : Type} {s : ParserState}

/-- Two things that are known of what one parser reads. -/
theorem Reads.and {p : Parser α} {P P' : α → List Token → Prop} (h : Reads p s P)
    (h' : Reads p s P') : Reads p s fun a read => P a read ∧ P' a read := by
  intro hfinal a u hrun
  obtain ⟨read, hu, hP⟩ := h hfinal a u hrun
  obtain ⟨read', hu', hP'⟩ := h' hfinal a u hrun
  obtain rfl : read = read' := List.append_cancel_right (hu.tokens.symm.trans hu'.tokens)
  exact ⟨read, hu, hP, hP'⟩

/-! ### Changes -/

theorem valueRow_reads (s : ParserState) : Reads valueRow s ValueRow.Fills := by
  refine .expect rfl fun opening u hu _ => ?_
  refine (unlessClosing_reads (commaSeparated_reads expr_reads u)).bind
    fun values read v hv hvalues => ?_
  refine .expect rfl fun closing w hw _ => ?_
  refine .spanFrom ((hu.trans hv).trans hw) rfl fun span hspan => .pure ?_
  have hrow : (ValueRow.mk values span).Fills ([opening] ++ read ++ [closing]) :=
    .of_laid hspan (((listed_laid hvalues).after [opening]).before [closing])
  simpa using hrow

theorem columnsOf_reads (table : Ident) (s : ParserState) :
    Reads (columnsOf table) s fun columns read => Laid (columns.map Ident.outline) read := by
  refine .ifCheck (fun _ => .look _ rfl (.under ?_)) (.pure (.nil _))
  exact (identList_reads _).mono fun _ _ => identList_laid

/-- The name of a table, under a hint. -/
theorem hintedIdent_reads (h : Hint) (s : ParserState) : Reads (under h ident) s Ident.Spelled :=
  .under (ident_reads _)

theorem insert_reads (hword : s.kindAt 0 = .keyword .INSERT) :
    Reads insert s fun i read => Laid (StatementBody.insert i).outlines read := by
  refine .advance hword rfl fun word u _ _ => .expect rfl fun into v _ _ => .look _ rfl ?_
  refine (hintedIdent_reads _ v).bind fun table read w _ htable => ?_
  refine (columnsOf_reads table w).bind fun columns more x _ hcolumns => .look _ rfl ?_
  have hvalues : ∀ h, Reads (under h (expectWord .VALUES)) x fun _ read => ∃ t, read = [t] :=
    fun h => .under (Reads.mono (.of_agree fun h => expect_agree h.toExtends rfl _)
      fun t _ hread => ⟨t, hread.2⟩)
  refine (hvalues _).bind fun _ values y _ _ => .look _ rfl ?_
  refine (Reads.under (commaSeparated_reads valueRow_reads _)).map fun rows rest hrows => ?_
  have hrows : Laid (rows.map ValueRow.outline) rest := hrows.laid_map fun _ _ => id
  exact (Laid.cons htable.fills (hcolumns.append (hrows.after values))).after [word, into]

theorem rowCondition?_reads (table : Ident) (s : ParserState) :
    Reads (rowCondition? table) s fun condition read => Laid (optionOutlines condition) read := by
  have hcondition : ∀ s, Reads (do
      let h ← columnsOfHint table
      under { h with keywords := conditionKeywords } expr) s Expr.Fills :=
    fun s => .look _ rfl (.under (expr_reads _))
  exact (afterWord_reads .WHERE hcondition s).mono fun _ _ => option_laid

theorem assignment_reads (s : ParserState) :
    Reads assignment s fun a read => Laid a.outlines read := by
  refine (ident_reads s).bind fun column read u _ hcolumn => ?_
  refine .expect rfl fun mark v _ _ => ?_
  refine (expr_reads v).map fun value more hvalue => ?_
  exact .cons hcolumn.fills ((Laid.of_fills hvalue).after [mark])

theorem update_reads (hword : s.kindAt 0 = .keyword .UPDATE) :
    Reads update s fun u read => Laid (StatementBody.update u).outlines read := by
  refine .advance hword rfl fun word u _ _ => .look _ rfl ?_
  refine (hintedIdent_reads _ u).bind fun table read v _ htable => ?_
  refine .expect rfl fun mark w _ _ => .look _ rfl ?_
  refine (Reads.under (commaSeparated_reads assignment_reads _)).bind
    fun assignments more x _ hassignments => ?_
  refine (rowCondition?_reads table x).map fun condition rest hcondition => ?_
  have hassignments : Laid (assignments.flatMap Assignment.outlines) more :=
    hassignments.laid fun _ _ => id
  exact (Laid.cons htable.fills ((hassignments.append hcondition).after [mark])).after [word]

theorem delete_reads (hword : s.kindAt 0 = .keyword .DELETE) :
    Reads delete s fun d read => Laid (StatementBody.delete d).outlines read := by
  refine .advance hword rfl fun word u _ _ => .expect rfl fun mark v _ _ => .look _ rfl ?_
  refine (hintedIdent_reads _ v).bind fun table read w _ htable => ?_
  refine (rowCondition?_reads table w).map fun condition rest hcondition => ?_
  exact (Laid.cons htable.fills hcondition).after [word, mark]

/-! ### Columns -/

/-- The brackets around an expression belong to what it is part of. -/
theorem bracketed_reads (s : ParserState) :
    Reads bracketed s fun e read => Laid [e.outline] read ∧ read ≠ [] := by
  refine .expect rfl fun opening u _ _ => ?_
  refine (expr_reads u).bind fun e read v _ he => ?_
  refine .expect rfl fun closing _ _ _ => .pure ⟨?_, by simp⟩
  exact ((Laid.of_fills he).before [closing]).after [opening]

theorem signedNumber_reads (s : ParserState) : Reads signedNumber s Expr.Fills := by
  refine .look (s.kindAt 1) rfl ?_
  split
  · exact exprAt_reads _ s
  · exact exprAt_reads _ s
  · exact .failExpected _

theorem defaultValue_reads (s : ParserState) : Reads defaultValue s Expr.Fills := by
  refine (literal?_reads s).bind fun e? read u _ he => ?_
  cases he with
  | some he => exact .pure (by simpa using he)
  | none =>
    simp only [List.nil_append]
    refine .peek fun k _ => ?_
    split
    · refine .look u.current rfl ?_
      refine (bracketed_reads u).bind fun inner more v hv hinner => ?_
      refine .spanFrom hv (hv.current_mem_head? hinner.2) fun span hspan => .pure ?_
      rw [List.append_nil]
      exact .of_laid hspan hinner.1
    · exact signedNumber_reads u
    · exact signedNumber_reads u
    · refine .ite (fun _ => ?_) fun _ => .failExpected _
      exact (ident_reads u).map fun name more hname => name_fills hname

theorem typeName?_reads (s : ParserState) :
    Reads typeName? s fun typeName read => Laid (typeName.toList.map TypeName.outline) read := by
  refine .look s.current rfl ?_
  have hword : ∀ s, Reads typeWord? s (Optional ReadsToken) := fun s =>
    .of_agree fun h => typeWord?_agree h.toExtends
  refine (many_reads hword s).bind fun words read u hu hwords => ?_
  cases hwords with
  | nil => exact .pure (.nil _)
  | cons hne _ =>
    have hparams : Reads typeParams u fun _ _ => True := .of_agree typeParams_unison
    refine hparams.bind fun params more v hv _ => ?_
    have hne : _ ≠ [] := hne
    have htook := hu.trans hv
    refine .spanFrom htook (htook.current_mem_head? (by simp [hne])) fun span hspan => .pure ?_
    rw [List.append_nil]
    exact .of_fills (.of_laid hspan (.nil _))

theorem foreignKeyClause_reads (s : ParserState) :
    Reads foreignKeyClause s fun clause read => Laid clause.outlines read := by
  refine .expect rfl fun word u _ _ => .look _ rfl ?_
  refine (hintedIdent_reads _ u).bind fun table read v _ htable => ?_
  refine (columnsOf_reads table v).map fun columns more hcolumns => ?_
  exact (Laid.cons htable.fills hcolumns).after [word]

theorem constraintName?_reads (s : ParserState) :
    Reads constraintName? s fun name read => Laid (labelOutlines name) read :=
  (afterWord_reads .CONSTRAINT ident_reads s).mono fun _ _ => label_laid

theorem columnRule?_reads (s : ParserState) :
    Reads columnRule? s fun (rule : Option ColumnRule) read =>
      Laid (rule.toList.flatMap ColumnRule.outlines) read := by
  have hrule : ∀ {rule : ColumnRule} {read : List Token}, Laid rule.outlines read →
      Laid ((some rule).toList.flatMap ColumnRule.outlines) read := fun h => by simpa using h
  refine .peek fun k hk => ?_
  split
  · exact .advance hk rfl fun _ _ _ _ => .expect rfl fun _ _ _ _ => .pure (.nil _)
  · exact .advance hk rfl fun _ _ _ _ => .pure (.nil _)
  · refine .advance hk rfl fun word u _ _ => (defaultValue_reads u).map fun e read he => ?_
    exact hrule ((Laid.of_fills he).after [word])
  · refine .advance hk rfl fun _ u _ _ => .expect rfl fun _ v _ _ => ?_
    refine (Reads.of_agree direction?_agree).bind fun _ _ w _ _ => ?_
    exact (Reads.of_agree fun h => eat_agree h.toExtends rfl).map fun _ _ _ => .nil _
  · exact .advance hk rfl fun _ _ _ _ => .pure (.nil _)
  · exact (foreignKeyClause_reads s).map fun _ _ hclause => hrule hclause
  · refine .advance hk rfl fun word u _ _ => (ident_reads u).map fun name read hname => ?_
    exact hrule ((Laid.of_fills hname.fills).after [word])
  · refine .advance hk rfl fun word u _ _ => (bracketed_reads u).map fun e read he => ?_
    exact hrule (he.1.after [word])
  · exact .pure (.nil _)

theorem columnConstraint?_reads (s : ParserState) :
    Reads columnConstraint? s (Optional ColumnConstraint.Fills) := by
  refine .look s.current rfl ?_
  refine ((constraintName?_reads s).and (.of_agree constraintName?_agree)).bind
    fun name read u hu hname => ?_
  refine ((columnRule?_reads u).and (.of_agree columnRule?_agree)).bind
    fun rule? more v hv hrule => ?_
  obtain ⟨hrule, hmore⟩ := hrule
  cases hmore with
  | some hmore =>
    have hmore : more ≠ [] := hmore
    have htook := hu.trans hv
    refine .spanFrom htook (htook.current_mem_head? (by simp [hmore])) fun span hspan => .pure ?_
    have hparts : Laid _ (read ++ more) := hname.1.append hrule
    have hconstraint : Optional ColumnConstraint.Fills (some ⟨name, _, span⟩) (read ++ more) :=
      .some (.of_laid hspan (by simpa using hparts))
    simpa using hconstraint
  | none =>
    obtain ⟨-, hname⟩ := hname
    cases hname with
    | none => exact .pure .none
    | some _ => exact .failExpected _

theorem columnDef_reads (s : ParserState) : Reads columnDef s ColumnDef.FillsUnbound := by
  refine (ident_reads s).bind fun name read u hu hname => .look _ rfl ?_
  refine (Reads.under (typeName?_reads _)).bind fun typeName more v hv htype => .look _ rfl ?_
  refine (Reads.under (many_reads columnConstraint?_reads _)).bind
    fun constraints rest w hw hconstraints => ?_
  obtain ⟨first, rfl, hfirst⟩ := hname.exists_span
  rw [hfirst]
  refine .spanFrom ((hu.trans hv).trans hw) rfl fun span hspan => .pure ⟨?_, rfl, rfl⟩
  have hconstraints : Laid (constraints.map ColumnConstraint.outline) rest :=
    hconstraints.laid_map fun _ _ => id
  have hparts := (Laid.cons hname.fills htype).append hconstraints
  have hcolumn : (ColumnDef.mk name typeName constraints span none none).outline.Fills
      ([first] ++ more ++ rest) := .of_laid hspan hparts
  simpa using hcolumn

/-! ### Tables -/

theorem tableRule_reads (s : ParserState) :
    Reads tableRule s fun rule read => Laid rule.outlines read := by
  have hnames : ∀ s, Reads identList s fun names read => Laid (names.map Ident.outline) read :=
    fun s => (identList_reads s).mono fun _ _ => identList_laid
  refine .peek fun k hk => ?_
  split
  · refine .advance hk rfl fun word u _ _ => .expect rfl fun mark v _ _ => ?_
    exact (hnames v).map fun _ _ hcolumns => hcolumns.after [word, mark]
  · refine .advance hk rfl fun word u _ _ => ?_
    exact (hnames u).map fun _ _ hcolumns => hcolumns.after [word]
  · refine .advance hk rfl fun word u _ _ => ?_
    exact (bracketed_reads u).map fun _ _ he => he.1.after [word]
  · refine .advance hk rfl fun word u _ _ => .expect rfl fun mark v _ _ => ?_
    refine (hnames v).bind fun columns read w _ hcolumns => ?_
    refine (foreignKeyClause_reads w).map fun clause more hclause => ?_
    exact (hcolumns.append hclause).after [word, mark]
  · exact .failExpected _

theorem tableConstraint_reads (s : ParserState) :
    Reads tableConstraint s fun c read => c.outline.Fills read := by
  refine .look s.current rfl ?_
  refine (constraintName?_reads s).bind fun name read u hu hname => ?_
  refine ((tableRule_reads u).and (.of_agree tableRule_agree)).bind
    fun rule more v hv hrule => ?_
  obtain ⟨hrule, hmore⟩ := hrule
  have hmore : more ≠ [] := hmore
  have htook := hu.trans hv
  refine .spanFrom htook (htook.current_mem_head? (by simp [hmore])) fun span hspan => .pure ?_
  rw [List.append_nil]
  exact .of_laid hspan (hname.append hrule)

/-- What is known of an item of a table. -/
structure ItemFills (item : ColumnDef ⊕ TableConstraint) (ts : List Token) : Prop where
  fills : (itemOutline item).Fills ts
  unbound : ∀ d ∈ item.getLeft?, d.IsUnbound

theorem tableItem_reads (s : ParserState) : Reads tableItem s ItemFills := by
  refine .peek fun k _ => .ite (fun _ => ?_) fun _ => ?_
  · exact (tableConstraint_reads s).map fun c read hc => ⟨hc, by simp⟩
  · exact (columnDef_reads s).map fun d read hd => ⟨hd.fills, by simpa using hd.unbound⟩

theorem createTable_reads (hword : s.kindAt 0 = .keyword .CREATE) :
    Reads createTable s fun t read => (StatementBody.createTable t).FillsUnbound read := by
  refine .advance hword rfl fun word u _ _ => .expect rfl fun table v _ _ => ?_
  refine (Reads.of_agree ifNotExists_unison).bind fun guarded words w _ _ => ?_
  refine (ident_reads w).bind fun name read x _ hname => ?_
  refine .expect rfl fun opening y _ _ => ?_
  refine (commaSeparated_reads tableItem_reads y).bind fun items more z _ hitems => ?_
  refine .expect rfl fun closing _ _ _ => .pure ⟨?_, ?_⟩
  · have hitems : Laid (items.map itemOutline) more := hitems.laid_map fun _ _ h => h.fills
    have hparts := (hitems.perm (itemOutline_perm items)).before [closing]
    exact (Laid.cons hname.fills (hparts.after [opening])).after ([word, table] ++ words)
  · intro d hd
    obtain ⟨item, hitem, hleft⟩ := List.mem_filterMap.mp hd
    have hunbound := hitems.all (p := fun item => ∀ d ∈ item.getLeft?, d.IsUnbound)
      fun _ _ h => h.unbound
    exact hunbound item hitem d hleft

theorem alterTable_reads (hword : s.kindAt 0 = .keyword .ALTER) :
    Reads alterTable s fun t read => Laid (StatementBody.alterTable t).outlines read := by
  refine .advance hword rfl fun word u _ _ => .expect rfl fun mark v _ _ => .look _ rfl ?_
  refine (hintedIdent_reads _ v).bind fun table read w _ htable => .look _ rfl ?_
  refine (Reads.under (.of_agree alterVerb_unison)).bind fun verb words x _ _ => ?_
  have hrest : ∀ {os : List Outline} {more : List Token}, Laid os more →
      Laid (table.outline :: os) (word :: mark :: (read ++ (words ++ more))) := fun h =>
    (Laid.cons htable.fills (h.after words)).after [word, mark]
  cases verb with
  | addColumn =>
    exact (columnDef_reads x).map fun d more hd => hrest (.of_fills hd.fills)
  | dropColumn =>
    refine .look _ rfl ?_
    exact (hintedIdent_reads _ x).map fun name more hname => hrest (.of_fills hname.fills)
  | renameTo =>
    exact (ident_reads x).map fun name more hname => hrest (.of_fills hname.fills)
  | renameColumn =>
    refine .look _ rfl ?_
    refine (hintedIdent_reads _ x).bind fun column more y _ hcolumn => ?_
    refine .expect rfl fun mark z _ _ => (ident_reads z).map fun name more' hname => hrest ?_
    exact .cons hcolumn.fills ((Laid.of_fills hname.fills).after [mark])

theorem dropTable_reads (hword : s.kindAt 0 = .keyword .DROP) :
    Reads dropTable s fun t read => Laid (StatementBody.dropTable t).outlines read := by
  refine .advance hword rfl fun word u _ _ => .expect rfl fun mark v _ _ => ?_
  refine (Reads.of_agree ifExists_unison).bind fun _ words w _ _ => .look _ rfl ?_
  refine (hintedIdent_reads _ w).map fun table read htable => ?_
  exact (Laid.of_fills htable.fills).after ([word, mark] ++ words)

/-! ### Statements -/

theorem statementBody_reads (s : ParserState) :
    Reads statementBody s StatementBody.FillsUnbound := by
  refine .peek fun k hk => ?_
  split
  · exact (select_reads s).map fun _ _ h => ⟨.of_fills h, trivial⟩
  · exact (insert_reads hk).map fun _ _ h => ⟨h, trivial⟩
  · exact (update_reads hk).map fun _ _ h => ⟨h, trivial⟩
  · exact (delete_reads hk).map fun _ _ h => ⟨h, trivial⟩
  · exact (createTable_reads hk).map fun _ _ h => h
  · exact (alterTable_reads hk).map fun _ _ h => ⟨h, trivial⟩
  · exact (dropTable_reads hk).map fun _ _ h => ⟨h, trivial⟩
  · exact .failExpected _

theorem statement_reads (s : ParserState) : Reads statement s Statement.FillsUnbound := by
  refine .look s.current rfl ?_
  refine ((statementBody_reads s).and (.of_agree fun h => statementBody_agree h.toExtends)).bind
    fun body read u hu hbody => ?_
  obtain ⟨hbody, hread⟩ := hbody
  refine .spanFrom hu (hu.current_mem_head? hread) fun span hspan => .pure ?_
  rw [List.append_nil]
  exact ⟨.of_laid hspan hbody.laid, hbody.unbound⟩

end Parser
end SqlAnalysis
