import SqlAnalysis.Proofs.Grammar.RereadQueries

/-!
# Statements read back

Changes to rows are read back like queries, and so is a script that is one statement.
-/
namespace SqlAnalysis

def ValueRow.Kept (a b : ValueRow) : Prop := SqlAnalysis.Kept ValueRow.render ValueRow.skeleton a b

def Assignment.Kept (a b : Assignment) : Prop :=
  SqlAnalysis.Kept Assignment.render Assignment.skeleton a b

def Insert.Kept (a b : Insert) : Prop := SqlAnalysis.Kept Insert.render Insert.skeleton a b

def Update.Kept (a b : Update) : Prop := SqlAnalysis.Kept Update.render Update.skeleton a b

def Delete.Kept (a b : Delete) : Prop := SqlAnalysis.Kept Delete.render Delete.skeleton a b

namespace Parser

variable {left : List TokenKind}

theorem expr_accepts {e : Expr} (h : e.Reread) (hleft : (headKind left).endsExpr = true) :
    Accepts expr (e.words ++ left) left e.Kept := by
  refine .get fun s hs => h.nested_expr ?_ hleft
  rw [← hs, s.length_kinds]
  omega

theorem select_accepts {s : Select} (h : s.Reread)
    (hleft : headKind left = .rightParen ∨ headKind left = .eof) :
    Accepts select (s.words ++ left) left s.Kept := by
  refine .get fun u hu => nested_select h ?_ hleft
  rw [← hu, u.length_kinds]
  omega

theorem identList_accepts {names : List Ident} (hne : names ≠ []) (h : ∀ name ∈ names, name.Plain) :
    Accepts identList (enclosed (commaWords (names.map fun name => [name.word])) ++ left) left
      (List.Forall₂ Ident.Kept names) := by
  rw [enclosed_append]
  refine (expect_accepts _).bind fun _ _ => ?_
  refine (commaSeparated_accepts rfl rfl (by simp [headKind]) hne
    fun name hname rest (_ : (headKind rest).endsItem = true) _ => ident_accepts (h name hname)).bind
      fun names' hnames' => ?_
  exact (expect_accepts _).bind fun _ _ => .pure hnames'

theorem columnsOf_accepts (table : Ident) {names : List Ident} (h : ∀ name ∈ names, name.Plain)
    (hleft : headKind left ≠ .leftParen) :
    Accepts (columnsOf table) (nameListWords names ++ left) left (List.Forall₂ Ident.Kept names) := by
  cases names with
  | nil => exact .check_other hleft (.pure .nil)
  | cons name names =>
    exact .check_head ((columnsOfHint_accepts table).bind fun _ _ =>
      under_accepts _ (identList_accepts (List.cons_ne_nil name names) h))

theorem valueRow_accepts {row : ValueRow} (h : ∀ e ∈ row.values, e.Reread) :
    Accepts valueRow (row.words ++ left) left row.Kept := by
  rw [ValueRow.words, enclosed_append]
  have halone := fun e he => (h e he).toRereadAlone
  have hvalues (hne : row.values ≠ []) : Accepts (commaSeparated expr)
      (commaWords (row.values.map Expr.words) ++ .rightParen :: left) (.rightParen :: left)
      (List.Forall₂ Expr.Kept row.values) :=
    commaSeparated_accepts rfl rfl (by simp [headKind]) hne fun e he rest hrest _ =>
      expr_accepts (h e he) hrest
  refine (expect_accepts _).bind fun _ _ => (unlessClosing_accepts halone hvalues).bind
    fun values' hvalues' => (expect_accepts _).bind fun _ _ => (spanFrom_accepts _).bind
      fun span _ => .pure ?_
  obtain ⟨htexts, hbares⟩ := Kept.map hvalues'
  exact ⟨congrArg bracketList htexts, by rw [ValueRow.skeleton, ValueRow.skeleton, hbares]⟩

/-- The columns of a table before the keyword that follows them. -/
theorem columnList_kept {names names' : List Ident} (h : List.Forall₂ Ident.Kept names names') :
    renderColumnList names' = renderColumnList names ∧
      names'.map Ident.skeleton = names.map Ident.skeleton := by
  obtain ⟨htexts, hbares⟩ := Kept.map h
  refine ⟨?_, hbares⟩
  cases h with
  | nil => rfl
  | cons hname hnames =>
    rw [renderColumnList, renderColumnList, renderIdents, renderIdents, htexts]
    all_goals exact List.cons_ne_nil _ _

theorem insert_accepts {s : Insert} (h : s.BuiltOf Expr.Reread) :
    Accepts insert s.words [] s.Kept := by
  have hrows : Accepts (commaSeparated valueRow) (commaWords (s.rows.map ValueRow.words)) []
      (List.Forall₂ ValueRow.Kept s.rows) := by
    rw [← List.append_nil (commaWords _)]
    exact commaSeparated_accepts rfl rfl (by simp [headKind]) h.rows_ne_nil
      fun row hrow rest (_ : (headKind rest).endsItem = true) _ => valueRow_accepts (h.rows row hrow)
  have hvalues : headKind (.keyword .VALUES :: commaWords (s.rows.map ValueRow.words)) ≠ .leftParen := by
    rintro ⟨⟩
  rw [Insert.words, List.cons_append, List.cons_append, List.cons_append]
  refine advance_accepts.bind fun _ _ => (expect_accepts _).bind fun _ _ =>
    tablesHint_accepts.bind fun _ _ => (under_accepts _ (ident_accepts h.table)).bind
      fun table' htable' => (columnsOf_accepts table' h.columns hvalues).bind fun columns' hcolumns' => ?_
  refine (keywordsHint_accepts _).bind fun _ _ => (under_accepts _ (expect_accepts _)).bind
    fun _ _ => hint_accepts.bind fun _ _ => (under_accepts _ hrows).bind fun rows' hrows' => .pure ?_
  obtain ⟨hcolumnTexts, hcolumnBares⟩ := columnList_kept hcolumns'
  obtain ⟨htexts, hbares⟩ := Kept.map hrows'
  constructor
  · rw [Insert.render, Insert.render, htable'.text, hcolumnTexts, htexts]
  · rw [Insert.skeleton, Insert.skeleton, htable'.bare, hcolumnBares, hbares, h.binding, h.targets]

theorem rowCondition?_accepts (table : Ident) {o : Option Expr} (h : ∀ e ∈ o, e.Reread) :
    Accepts (rowCondition? table) (o.elim [] whereWords) [] (Option.Rel Expr.Kept o) := by
  rw [← List.append_nil (o.elim [] whereWords)]
  exact option_accepts nofun fun e he => (columnsOfHint_accepts table).bind fun _ _ =>
    under_accepts _ (expr_accepts (h e he) rfl)

theorem renderCondition_kept {o o' : Option Expr} (h : Option.Rel Expr.Kept o o') :
    renderCondition o' = renderCondition o := by
  cases h with
  | none => rfl
  | some he => exact congrArg (" WHERE " ++ ·) he.text

theorem assignment_accepts {a : Assignment} (h : a.BuiltOf Expr.Reread)
    (hleft : (headKind left).endsItem = true) :
    Accepts assignment (a.words ++ left) left a.Kept := by
  refine (ident_accepts h.column).bind fun column' hcolumn' => (expect_accepts _).bind fun _ _ =>
    (expr_accepts h.value (TokenKind.endsExpr_of_endsItem hleft)).bind fun value' hvalue' =>
      .pure ⟨?_, ?_⟩
  · rw [Assignment.render, Assignment.render, hcolumn'.text, hvalue'.text]
  · rw [Assignment.skeleton, Assignment.skeleton, hcolumn'.bare, hvalue'.bare, h.binding]

theorem update_accepts {s : Update} (h : s.BuiltOf Expr.Reread) :
    Accepts update s.words [] s.Kept := by
  have hplace : 0 < (headKind (s.condition.elim [] whereWords)).place := by
    cases s.condition <;> exact Nat.succ_pos _
  have hassignments : Accepts (commaSeparated assignment)
      (commaWords (s.assignments.map Assignment.words) ++ s.condition.elim [] whereWords)
      (s.condition.elim [] whereWords) (List.Forall₂ Assignment.Kept s.assignments) :=
    commaSeparated_accepts rfl (TokenKind.endsItem_of_place_pos hplace)
      (TokenKind.ne_of_place hplace rfl) h.assignments_ne_nil
      fun a ha rest hrest _ => assignment_accepts (h.assignments a ha) hrest
  refine advance_accepts.bind fun _ _ => tablesHint_accepts.bind fun _ _ =>
    (under_accepts _ (ident_accepts h.table)).bind fun table' htable' => (expect_accepts _).bind
      fun _ _ => (columnsOfHint_accepts table').bind fun _ _ => (under_accepts _ hassignments).bind
        fun assignments' hassignments' => (rowCondition?_accepts table' h.condition).bind
          fun condition' hcondition' => .pure ?_
  obtain ⟨htexts, hbares⟩ := Kept.map hassignments'
  constructor
  · rw [Update.render, Update.render, htable'.text, htexts, renderCondition_kept hcondition']
  · rw [Update.skeleton, Update.skeleton, htable'.bare, hbares, (Kept.option hcondition').2, h.binding]

theorem delete_accepts {s : Delete} (h : s.BuiltOf Expr.Reread) :
    Accepts delete s.words [] s.Kept := by
  refine advance_accepts.bind fun _ _ => (expect_accepts _).bind fun _ _ =>
    tablesHint_accepts.bind fun _ _ => (under_accepts _ (ident_accepts h.table)).bind
      fun table' htable' => (rowCondition?_accepts table' h.condition).bind
        fun condition' hcondition' => .pure ⟨?_, ?_⟩
  · rw [Delete.render, Delete.render, htable'.text, renderCondition_kept hcondition']
  · rw [Delete.skeleton, Delete.skeleton, htable'.bare, (Kept.option hcondition').2, h.binding]

end Parser
/-! ### Whole statements -/

/-- Whether a statement defines tables. The canonical texts of the others can be read
back. -/
def StatementBody.isDefinition : StatementBody → Bool
  | .createTable _ | .alterTable _ | .dropTable _ => true
  | _ => false

/-- The tokens of a query or of a change to rows. -/
def StatementBody.words : StatementBody → List TokenKind
  | .select s => s.words
  | .insert s => s.words
  | .update s => s.words
  | .delete s => s.words
  | _ => []

def Statement.Kept (a b : Statement) : Prop :=
  SqlAnalysis.Kept Statement.render Statement.skeleton a b

namespace Parser

/-- The parser for a statement that begins with a keyword. -/
theorem statementBody_accepts {body : StatementBody} (hbody : body.isDefinition = false)
    (h : body.BuiltOf Expr.Reread Select.Reread) :
    Accepts statementBody body.words []
      (SqlAnalysis.Kept StatementBody.render StatementBody.skeleton body) := by
  cases body with
  | select s =>
    have hread : Accepts select (s.words ++ []) [] s.Kept := select_accepts h (.inr rfl)
    obtain ⟨ks, hks⟩ := s.exists_words
    rw [List.append_nil, hks] at hread
    rw [StatementBody.words, hks]
    exact .peek (hread.bind fun s' hs' => .pure ⟨hs'.text, congrArg StatementBody.select hs'.bare⟩)
  | insert s =>
    exact .peek ((insert_accepts h).bind fun s' hs' =>
      .pure ⟨hs'.text, congrArg StatementBody.insert hs'.bare⟩)
  | update s =>
    exact .peek ((update_accepts h).bind fun s' hs' =>
      .pure ⟨hs'.text, congrArg StatementBody.update hs'.bare⟩)
  | delete s =>
    exact .peek ((delete_accepts h).bind fun s' hs' =>
      .pure ⟨hs'.text, congrArg StatementBody.delete hs'.bare⟩)
  | _ => cases hbody

theorem statement_accepts {s : Statement} (hbody : s.body.isDefinition = false)
    (h : s.body.BuiltOf Expr.Reread Select.Reread) :
    Accepts statement s.body.words [] s.Kept :=
  current_accepts_any.bind fun _ _ => (statementBody_accepts hbody h).bind fun body' hbody' =>
    (spanFrom_accepts _).bind fun span _ => .pure ⟨hbody'.text, by
      rw [Statement.skeleton, Statement.skeleton, hbody'.bare]⟩

end Parser

/-- The keyword that a statement begins with. -/
theorem StatementBody.head_words {body : StatementBody} (h : body.isDefinition = false) :
    (headKind body.words).isStatementStart = true := by
  cases body with
  | select s =>
    obtain ⟨ks, hks⟩ := s.exists_words
    rw [StatementBody.words, hks]
    rfl
  | insert s => rfl
  | update s => rfl
  | delete s => rfl
  | _ => cases h

namespace Script

/-- The kinds of the tokens that the grammar sees. -/
theorem kinds_start {tokens : List Token} {ks : List TokenKind}
    (h : (tokens.map Token.kind).filter (fun k => !k.isTrivia) = ks ++ [.eof])
    (hks : ∀ k ∈ ks, k ≠ .eof) : (ParserState.start tokens).kinds = ks := by
  have hstart : (ParserState.start tokens).kinds =
      (((tokens.map Token.kind).filter fun k => !k.isTrivia).takeWhile fun k => k ≠ .eof) := by
    rw [List.filter_map, List.takeWhile_map]
    rfl
  rw [hstart, h, List.takeWhile_append_of_pos (by simpa using hks)]
  simp

theorem skipGap_of_start {s : ParserState} (separated : Bool)
    (h : (headKind s.kinds).isStatementStart = true) : (skipGap separated s).kinds = s.kinds := by
  unfold ParserState.kinds at h ⊢
  rw [tokens_skipGap]
  cases hs : s.tokens with
  | nil => rfl
  | cons t ts =>
    have ht : t.kind ≠ .semicolon := by
      rintro heq
      rw [hs, List.map_cons, show headKind (t.kind :: ts.map Token.kind) = t.kind from rfl, heq] at h
      cases h
    rw [List.dropWhile_cons_of_neg (by simpa using ht)]

/-- Tokens that one statement is read from, with nothing left, are a script of it alone. -/
theorem ofTokens_of_run {tokens : List Token} {statement : Statement} {u : ParserState}
    (hne : (skipGap true (ParserState.start tokens)).tokens ≠ [])
    (hstart : (skipGap true (ParserState.start tokens)).current.kind.isStatementStart = true)
    (hrun : Parser.statement.run (skipGap true (ParserState.start tokens)) = (.ok statement, u))
    (hleft : u.tokens = []) :
    (ofTokens tokens).statements = [statement] ∧ (ofTokens tokens).errors = [] := by
  have hstep : step (skipGap true (ParserState.start tokens)) = (some statement, [], u) := by
    rw [step, if_pos hstart, hrun]
    simp [hleft]
  have hnext : nextRound (skipGap true (ParserState.start tokens)) = u := by
    rw [nextRound, hstep, ParserState.orSkip, if_pos]
    rw [hleft]
    exact List.length_pos_iff.mpr hne
  have hrest : (skipGap false u).tokens = [] := by
    rw [tokens_skipGap, hleft]
    rfl
  have hread : readFrom true (ParserState.start tokens) = _ := readFrom_of_ne_nil rfl hne
  rw [hstep, hnext, readFrom_of_nil hrest] at hread
  constructor <;> simp [ofTokens, hread]

/-- Tokens that are accepted as one statement are a script of this statement alone. -/
theorem ofTokens_single {tokens : List Token} {ks : List TokenKind} {Q : Statement → Prop}
    (hkinds : (ParserState.start tokens).kinds = ks)
    (hstart : (headKind ks).isStatementStart = true) (h : Parser.Accepts Parser.statement ks [] Q) :
    ∃ s, (ofTokens tokens).statements = [s] ∧ (ofTokens tokens).errors = [] ∧ Q s := by
  subst hkinds
  have hready := skipGap_of_start true hstart
  obtain ⟨s, u, hrun, hu, hs⟩ := h _ hready
  have hleft : u.tokens = [] := List.map_eq_nil_iff.mp hu
  have hne : (skipGap true (ParserState.start tokens)).tokens ≠ [] := by
    intro hnil
    rw [← hready, ParserState.kinds, hnil] at hstart
    cases hstart
  have hcurrent : (skipGap true (ParserState.start tokens)).current.kind.isStatementStart = true := by
    rw [← hready] at hstart
    cases hkinds : (skipGap true (ParserState.start tokens)).kinds with
    | nil =>
      rw [hkinds] at hstart
      cases hstart
    | cons k ks =>
      rw [hkinds] at hstart
      rwa [ParserState.current_kind hkinds]
  obtain ⟨hstatements, herrors⟩ := ofTokens_of_run hne hcurrent hrun hleft
  exact ⟨s, hstatements, herrors, hs⟩

end Script
end SqlAnalysis
