import SqlAnalysis.Proofs.Syntax.Rendering

/-!
# Canonical texts of definitions lex to their tokens

The columns and the rules of a table are written like the clauses of a query, one after
the other with blanks and commas between them.
-/
namespace SqlAnalysis

theorem append_bracket (lead text : String) :
    lead ++ " (" ++ text ++ ")" = lead ++ (" " ++ ("(" ++ text ++ ")")) := by
  rw [show " (" = " " ++ "(" from rfl]
  simp only [String.append_assoc]

/-- A keyword with something in brackets after it. -/
theorem Written.bracketed {text : String} {words : List TokenKind} (k : Keyword)
    (h : Written endsExpr text words) :
    Written endsExpr (k.spelling ++ " (" ++ text ++ ")") (.keyword k :: SqlAnalysis.enclosed words) := by
  rw [append_bracket, ← String.append_assoc]
  exact (Written.word k).append_any (h.enclosed.mono fun _ _ => rfl)

/-- Something after a blank. -/
theorem ClauseWritten.blank {text : String} {words : List TokenKind}
    (h : Written endsExpr text words) : ClauseWritten (" " ++ text) words :=
  of_lead .blank ⟨' ', rfl, rfl⟩ h

theorem renderIdents_written (names : List Ident) :
    Written endsExpr (renderIdents names) (identWords names) :=
  (Written.bracketList fun name _ => Ident.written_expr name).mono fun _ _ => rfl

/-! ### Types -/

theorem Written.name {word : String} (h : TokenKind.Plain (.name word)) :
    Written Scan.endsWord word [.name word] := by
  obtain ⟨⟨c, more, hword, hc, hmore⟩, hkind⟩ := h
  refine .token hword (fun rest hrest => ?_) rfl nofun nofun
  rw [Scan.scan_word hc hmore hrest, ← hword, hkind]

/-- Words with a blank between them. -/
theorem Written.names {words : List String} (h : ∀ word ∈ words, TokenKind.Plain (.name word)) :
    Written Scan.endsWord (Text.joinWith " " words) (words.map .name) := by
  induction words with
  | nil => exact .empty _
  | cons word words ih =>
    obtain ⟨hword, hwords⟩ := List.forall_mem_cons.mp h
    cases words with
    | nil => exact .name hword
    | cons next words =>
      have htext : Text.joinWith " " (word :: next :: words) =
          word ++ (" " ++ Text.joinWith " " (next :: words)) := by
        simp [Text.joinWith, String.intercalate_cons_cons, String.append_assoc]
      rw [htext]
      exact (Written.name hword).append_begins (Written.blank.append_any (ih hwords))
        (.append ⟨' ', rfl, rfl⟩ _)

theorem Written.param {n : Nat} (h : n ≤ Text.maxWord) :
    Written endsExpr (toString n) [.integer n] := by
  have hplain : Literal.Plain (.integer n) := ⟨Nat.le_trans h (by decide), rfl⟩
  exact Literal.written hplain

/-- The text of parameters with something between them. -/
def paramText (sep : String) : List Nat → String
  | [] => ""
  | params => "(" ++ Text.joinWith sep (params.map toString) ++ ")"

/-- The name of a type with parameters after it. -/
theorem Written.type {name sep : String} {words : List String} {params : List Nat}
    (hname : Written Scan.endsWord name (words.map .name)) (hsep : Written endsAny sep [.comma])
    (hbegins : Begins (· = ',') sep) (hparams : ∀ n ∈ params, n ≤ Text.maxWord) :
    Written endsExpr (name ++ paramText sep params) (words.map .name ++ paramWords params) := by
  cases params with
  | nil =>
    rw [paramText, String.append_empty, paramWords, List.append_nil]
    exact hname.mono fun _ => endsWord_of_endsExpr
  | cons n params =>
    have hcomma : Begins endsExpr sep := hbegins.mono fun c hc => by
      rw [decide_eq_true_iff.mp hc]
      rfl
    have hlist : Written endsAny (paramText sep (n :: params)) (paramWords (n :: params)) :=
      (Written.joinWith hsep hcomma fun m hm => .param (hparams m hm)).enclosed
    exact (hname.append_begins hlist ⟨'(', by simp [paramText], rfl⟩).mono fun _ _ => rfl

theorem TypeName.written {t : TypeName} (h : t.Plain) : Written endsExpr t.render t.words := by
  have hname : Written Scan.endsWord t.name (t.nameWords.map .name) := by
    have hnames := Written.names h.words
    rwa [t.joinWith_nameWords] at hnames
  have htext : t.render = t.name ++ paramText ", " t.params := by
    unfold render
    cases t.params with
    | nil => exact String.append_empty.symm
    | cons n params => rfl
  rw [htext]
  exact hname.type .comma ⟨',', rfl, rfl⟩ h.params

/-! ### Rules -/

theorem ForeignKeyClause.written (clause : ForeignKeyClause) :
    Written endsExpr clause.render clause.words :=
  ((Written.word .REFERENCES).append_any clause.table.written_expr).append_clause
    (renderColumnList_written clause.columns)

theorem ColumnRule.written {rule : ColumnRule} (h : rule.BuiltOf Expr.WrittenOut) :
    Written endsExpr rule.render rule.words := by
  cases rule with
  | notNull => exact (Written.word .NOT).append_any (.keyword .NULL)
  | null => exact .keyword .NULL
  | default value =>
    have hvalue := (h.built writtenOut_builds).text
    rw [render, words]
    split
    · exact (Written.word .DEFAULT).append_any hvalue
    · exact .bracketed .DEFAULT hvalue
  | primaryKey direction autoincrement =>
    have hkey : Written endsExpr "PRIMARY KEY" [.keyword .PRIMARY, .keyword .KEY] :=
      (Written.word .PRIMARY).append_any (.keyword .KEY)
    have hauto : ClauseWritten (if autoincrement then " AUTOINCREMENT" else "")
        (if autoincrement then [.keyword .AUTOINCREMENT] else []) := by
      cases autoincrement with
      | true => exact .blank (.keyword .AUTOINCREMENT)
      | false => exact .empty
    exact (hkey.append_clause (renderDirection_written direction)).append_clause hauto
  | unique => exact .keyword .UNIQUE
  | references clause => exact clause.written
  | collate collation => exact (Written.word .COLLATE).append_any collation.written_expr
  | check condition => exact .bracketed .CHECK h.text

theorem renderConstraintName_written (name : Option Ident) :
    Written endsAny (renderConstraintName name) (constraintNameWords name) := by
  cases name with
  | none => exact .empty _
  | some name =>
    exact ((Written.word .CONSTRAINT).append_any name.written_expr).append_begins .blank ⟨' ', rfl, rfl⟩

theorem ColumnConstraint.written {c : ColumnConstraint} (h : c.BuiltOf Expr.WrittenOut) :
    Written endsExpr c.render c.words :=
  (renderConstraintName_written c.name).append_any (ColumnRule.written h.rule)

theorem TableRule.written {rule : TableRule} (h : rule.BuiltOf Expr.WrittenOut) :
    Written endsExpr rule.render rule.words := by
  cases rule with
  | primaryKey columns =>
    exact ((Written.word .PRIMARY).append_any (.word .KEY)).append_any (renderIdents_written columns)
  | unique columns => exact (Written.word .UNIQUE).append_any (renderIdents_written columns)
  | check condition => exact .bracketed .CHECK h.text
  | foreignKey columns clause =>
    have hclause := ClauseWritten.blank clause.written
    rw [render, String.append_assoc]
    exact (((Written.word .FOREIGN).append_any (.word .KEY)).append_any
      (renderIdents_written columns)).append_clause hclause

theorem TableConstraint.written {c : TableConstraint} (h : c.BuiltOf Expr.WrittenOut) :
    Written endsExpr c.render c.words :=
  (renderConstraintName_written c.name).append_any (TableRule.written h.rule)

/-! ### Columns and tables -/

/-- The type of a column may be written in more than one way. -/
theorem ColumnDef.written_of {d : ColumnDef} {type : String}
    (htype : ClauseWritten type (d.typeName.elim [] TypeName.words))
    (h : ∀ c ∈ d.constraints, c.BuiltOf Expr.WrittenOut) :
    Written endsExpr (d.name.render ++ type ++ String.join (d.constraints.map fun c => " " ++ c.render))
      d.words := by
  have hconstraints := Written.join fun c hc =>
    have hwritten := ClauseWritten.blank (ColumnConstraint.written (h c hc))
    ⟨hwritten.written, hwritten.opens⟩
  exact (d.name.written_expr.append_clause htype).append_clause ⟨hconstraints.1, hconstraints.2⟩

theorem ColumnDef.written {d : ColumnDef} (h : d.BuiltOf Expr.WrittenOut) :
    Written endsExpr d.render d.words := by
  have htype : ClauseWritten (d.typeName.elim "" fun t => " " ++ t.render)
      (d.typeName.elim [] TypeName.words) :=
    .option fun t ht => .blank (TypeName.written (h.typeName t ht))
  have htext : d.render = d.name.render ++ (d.typeName.elim "" fun t => " " ++ t.render) ++
      String.join (d.constraints.map fun c => " " ++ c.render) := by
    unfold render
    cases d.typeName <;> rfl
  rw [htext]
  exact written_of htype h.constraints

theorem commaList_append {parts : List String} (hne : parts ≠ []) (rest : List String) :
    commaList (parts ++ rest) = commaList parts ++ String.join (rest.map (", " ++ ·)) := by
  obtain ⟨part, parts, rfl⟩ := List.exists_cons_of_ne_nil hne
  rw [List.cons_append, commaList, commaList, joinWith_cons, joinWith_cons, List.map_append,
    String.join_append, String.append_assoc]

/-- The items of a table stand in one list if there is a column before the first comma. -/
theorem CreateTable.render_eq {s : CreateTable} (hcolumns : s.columns ≠ []) :
    s.render = "CREATE TABLE " ++ (if s.ifNotExists then "IF NOT EXISTS " else "") ++
      s.name.render ++ " (" ++
        commaList (s.items.map (Sum.elim ColumnDef.render TableConstraint.render)) ++ ")" := by
  have hitems : s.items.map (Sum.elim ColumnDef.render TableConstraint.render) =
      s.columns.map ColumnDef.render ++ s.constraints.map TableConstraint.render := by
    simp [items, Function.comp_def]
  have hlist : commaList (s.columns.map ColumnDef.render ++
      s.constraints.map TableConstraint.render) = commaList (s.columns.map ColumnDef.render) ++
        String.join (s.constraints.map fun c => ", " ++ c.render) := by
    rw [commaList_append (by simpa using hcolumns), List.map_map]
    rfl
  unfold render
  rw [hitems, @String.append_assoc _ (commaList _) (String.join _), ← hlist]

/-- A table whose items are written in brackets. -/
theorem CreateTable.written_of {s : CreateTable} {items : String}
    (h : Written endsExpr items
      (commaWords (s.items.map (Sum.elim ColumnDef.words TableConstraint.words)))) :
    Written endsExpr ("CREATE TABLE " ++ (if s.ifNotExists then "IF NOT EXISTS " else "") ++
      s.name.render ++ " (" ++ items ++ ")") s.words := by
  have hlead : Written endsAny ("CREATE TABLE " ++ if s.ifNotExists then "IF NOT EXISTS " else "")
      (.keyword .CREATE :: .keyword .TABLE ::
        if s.ifNotExists then [.keyword .IF, .keyword .NOT, .keyword .EXISTS] else []) := by
    have htable := (Written.word .CREATE).append_any (.word .TABLE)
    cases s.ifNotExists with
    | true =>
      exact htable.append_any (((Written.word .IF).append_any (.word .NOT)).append_any (.word .EXISTS))
    | false => exact htable.append_any (.empty _)
  have hwords : s.words = (.keyword .CREATE :: .keyword .TABLE ::
      if s.ifNotExists then [.keyword .IF, .keyword .NOT, .keyword .EXISTS] else []) ++
        [s.name.word] ++ enclosed (commaWords
          (s.items.map (Sum.elim ColumnDef.words TableConstraint.words))) := by simp [words]
  rw [append_bracket, hwords]
  exact (hlead.append_any s.name.written_expr).append_clause
    (.blank (h.enclosed.mono fun _ _ => rfl))

/-- The items of a table, if each column is written. -/
theorem CreateTable.item_written {s : CreateTable} {text : ColumnDef → String}
    {words : ColumnDef → List TokenKind}
    (hcolumns : ∀ d ∈ s.columns, Written endsExpr (text d) (words d))
    (hconstraints : ∀ c ∈ s.constraints, c.BuiltOf Expr.WrittenOut) :
    ∀ item ∈ s.items, Written endsExpr (item.elim text TableConstraint.render)
      (item.elim words TableConstraint.words) := by
  intro item hitem
  rcases List.mem_append.mp hitem with hitem | hitem
  · obtain ⟨d, hd, rfl⟩ := List.mem_map.mp hitem
    exact hcolumns d hd
  · obtain ⟨c, hc, rfl⟩ := List.mem_map.mp hitem
    exact TableConstraint.written (hconstraints c hc)

theorem CreateTable.written {s : CreateTable} (h : s.BuiltOf Expr.WrittenOut)
    (hcolumns : s.columns ≠ []) : Written endsExpr s.render s.words := by
  rw [render_eq hcolumns]
  exact written_of (.commaList rfl
    (item_written (fun d hd => ColumnDef.written (h.columns d hd)) h.constraints))

end SqlAnalysis
