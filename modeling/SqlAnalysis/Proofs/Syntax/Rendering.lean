import SqlAnalysis.Proofs.Syntax.Texts

/-!
# Canonical texts lex to their tokens

The text of every tree that is built of plain tokens lexes to the tokens that are
written down for it, whatever stands behind it that may follow an expression.
-/
namespace SqlAnalysis

/-! ### Expressions -/

/-- What the text of an expression lexes to. After a name there may stand a point or a
bracket too, and an operand never begins with a minus sign. -/
structure Expr.WrittenOut (e : Expr) : Prop where
  path : e.IsPath → Written endsName e.render e.words
  text : Written endsExpr e.render e.words
  begins : e.isOperation = false → Begins (· ≠ '-') e.render

namespace Expr

theorem begins_bracket (text : String) : Begins (· ≠ '-') ("(" ++ text ++ ")") := by
  rw [String.append_assoc]
  exact Begins.append ⟨'(', rfl, rfl⟩ _

namespace WrittenOut

variable {e : Expr}

/-- An expression that is no name. -/
theorem of_text (hpath : ¬ e.IsPath) (h : Written endsExpr e.render e.words)
    (hbegins : e.isOperation = false → Begins (· ≠ '-') e.render) : e.WrittenOut :=
  ⟨fun hp => absurd hp hpath, h, hbegins⟩

theorem operand (h : e.WrittenOut) :
    Written endsExpr (bracketIf e.isOperation e.render) (encloseIf e.isOperation e.words) ∧
      Begins (· ≠ '-') (bracketIf e.isOperation e.render) := by
  cases hop : e.isOperation with
  | true => exact ⟨h.text.enclosed.mono fun _ _ => rfl, begins_bracket e.render⟩
  | false => exact ⟨h.text, h.begins hop⟩

theorem list {items : List Expr} (h : ∀ e ∈ items, e.WrittenOut) :
    Written endsExpr (bracketList (renderExprs items)) (enclosed (commaWords (exprWords items))) := by
  rw [renderExprs_eq, exprWords_eq]
  exact (Written.bracketList fun e he => (h e he).text).mono fun _ _ => rfl

/-- The operand on the right of an operator. -/
theorem right {op : BinaryOperator} (h : e.RightOf WrittenOut op) :
    Written endsExpr (bracketIf e.isOperation e.render) (encloseIf e.isOperation e.words) := by
  cases h with
  | expr h => exact h.operand.1
  | members _ hitems => exact list hitems

end WrittenOut
end Expr

/-! ### Queries -/

/-- Whether the text of a clause may stand behind an expression. -/
structure ClauseWritten (text : String) (words : List TokenKind) : Prop where
  written : Written endsExpr text words
  opens : Opens endsExpr text

namespace ClauseWritten

variable {lead text text' : String} {words words' : List TokenKind}

theorem empty : ClauseWritten "" [] := ⟨.empty _, .empty _⟩

theorem append (h : ClauseWritten text words) (h' : ClauseWritten text' words') :
    ClauseWritten (text ++ text') (words ++ words') :=
  ⟨h.written.append_opens h'.written h'.opens, h.opens.append h'.opens⟩

/-- The words that introduce a clause, after a blank, and what they introduce. -/
theorem of_lead (hlead : Written endsAny lead words) (hbegins : Begins endsExpr lead)
    (h : Written endsExpr text words') : ClauseWritten (lead ++ text) (words ++ words') :=
  ⟨hlead.append_any h, (hbegins.append _).opens⟩

/-- A clause introduced by one keyword. -/
theorem word (k : Keyword) (h : Written endsExpr text words) :
    ClauseWritten (" " ++ (k.spelling ++ " ") ++ text) (.keyword k :: words) :=
  of_lead (Written.blank.append_any (.word k)) (.append ⟨' ', rfl, rfl⟩ _) h

theorem option {α : Type} {o : Option α} {text : α → String} {words : α → List TokenKind}
    (h : ∀ a ∈ o, ClauseWritten (text a) (words a)) :
    ClauseWritten (o.elim "" text) (o.elim [] words) := by
  cases o with
  | none => exact empty
  | some a => exact h a rfl

end ClauseWritten

theorem Written.append_clause {text text' : String} {words words' : List TokenKind}
    (h : Written endsExpr text words) (h' : ClauseWritten text' words') :
    Written endsExpr (text ++ text') (words ++ words') :=
  h.append_opens h'.written h'.opens

theorem Ident.written_expr (ident : Ident) : Written endsExpr ident.render [ident.word] :=
  ident.written.mono fun _ => endsName_of_endsExpr

theorem renderAlias_written (label : Option Ident) :
    ClauseWritten (renderAlias label) (aliasWords label) := by
  cases label with
  | none => exact .empty
  | some label => exact .word .AS label.written_expr

theorem renderDirection_written (direction : Option SortDirection) :
    ClauseWritten (renderDirection direction) (directionWords direction) := by
  have hword (k : Keyword) : ClauseWritten (" " ++ k.spelling) [.keyword k] :=
    .of_lead .blank ⟨' ', rfl, rfl⟩ (.keyword k)
  cases direction with
  | none => exact .empty
  | some direction =>
    cases direction with
    | ascending => exact hword .ASC
    | descending => exact hword .DESC

theorem renderNulls_written (nulls : Option NullsOrder) :
    ClauseWritten (renderNulls nulls) (nullsWords nulls) := by
  cases nulls with
  | none => exact .empty
  | some nulls =>
    cases nulls with
    | first => exact .word .NULLS (.keyword .FIRST)
    | last => exact .word .NULLS (.keyword .LAST)

theorem JoinOperator.written {op : JoinOperator} (h : op ≠ .comma) :
    Written endsAny (op.render ++ " ") op.words := by
  cases op with
  | comma => exact absurd rfl h
  | plain => exact .word .JOIN
  | inner => exact (Written.word .INNER).append_any (.word .JOIN)
  | left => exact (Written.word .LEFT).append_any (.word .JOIN)
  | leftOuter => exact ((Written.word .LEFT).append_any (.word .OUTER)).append_any (.word .JOIN)
  | cross => exact (Written.word .CROSS).append_any (.word .JOIN)

theorem renderJoinWords_written {natural : Bool} {op : JoinOperator}
    (h : natural = true → op ≠ .comma) :
    Written endsAny (renderJoinWords natural op) (joinWords natural op) ∧
      Begins endsExpr (renderJoinWords natural op) := by
  by_cases hop : op = .comma
  · subst hop
    cases natural with
    | true => exact absurd rfl (h rfl)
    | false => exact ⟨.comma, ⟨',', rfl, rfl⟩⟩
  have htext : renderJoinWords natural op =
      " " ++ ((if natural then "NATURAL " else "") ++ (op.render ++ " ")) := by
    cases op <;> first | exact absurd rfl hop | simp [renderJoinWords, String.append_assoc]
  have hwords : joinWords natural op = (if natural then [.keyword .NATURAL] else []) ++ op.words := by
    cases op <;> cases natural <;> first | exact absurd rfl hop | rfl
  rw [htext, hwords]
  refine ⟨?_, .append ⟨' ', rfl, rfl⟩ _⟩
  have hnatural : Written endsAny (if natural then "NATURAL " else "")
      (if natural then [.keyword .NATURAL] else []) := by
    cases natural with
    | true => exact .word .NATURAL
    | false => exact .empty _
  exact Written.blank.append_any (hnatural.append_any (JoinOperator.written hop))

section

variable {P : Expr → Prop} {S : Select → Prop}

theorem Source.written {source : Source}
    (h : source.BuiltOf fun s => Written endsExpr s.render s.words) :
    Written endsExpr source.render source.words := by
  cases h with
  | table _ _ => exact (Ident.written_expr _).append_clause (renderAlias_written _)
  | subquery hselect _ =>
    exact (hselect.enclosed.mono fun _ _ => rfl).append_clause (renderAlias_written _)

theorem Join.written {join : Join}
    (h : join.BuiltOf Expr.WrittenOut fun s => Written endsExpr s.render s.words) :
    ClauseWritten join.render join.words := by
  obtain ⟨natural, op, source, on, span⟩ := join
  obtain ⟨hop, hsource, hon⟩ := h
  obtain ⟨hwords, hbegins⟩ := renderJoinWords_written hop
  have hjoined := ClauseWritten.of_lead hwords hbegins (Source.written hsource)
  cases on with
  | none => exact hjoined
  | some on =>
    rw [Join.render, String.append_assoc]
    exact hjoined.append (.word .ON (hon on rfl).text)

theorem ResultColumn.written {column : ResultColumn} (h : column.BuiltOf Expr.WrittenOut) :
    Written endsExpr column.render column.words := by
  cases column with
  | star _ => exact Written.star.mono fun _ _ => rfl
  | tableStar table =>
    have hstar : Written endsExpr ("." ++ "*") [.dot, .star] :=
      Written.point.append_begins (Written.star.mono fun _ _ => rfl) ⟨'*', rfl, rfl⟩
    exact table.written.append_begins hstar ⟨'.', rfl, rfl⟩
  | expr value label => exact h.1.text.append_clause (renderAlias_written label)

theorem renderFrom_written {clause : FromClause}
    (h : clause.BuiltOf Expr.WrittenOut fun s => Written endsExpr s.render s.words) :
    ClauseWritten (renderFrom clause) (fromWords clause) := by
  rw [renderFrom, fromWords, renderJoins_eq, joinedWords_eq]
  have hjoins := Written.join fun join hjoin =>
    have hwritten := Join.written (h.joins join hjoin)
    ⟨hwritten.written, hwritten.opens⟩
  exact (ClauseWritten.word .FROM (Source.written h.source)).append ⟨hjoins.1, hjoins.2⟩

theorem renderExprs_written {es : List Expr} (h : ∀ e ∈ es, e.WrittenOut) :
    Written endsExpr (commaList (renderExprs es)) (commaWords (exprWords es)) := by
  rw [renderExprs_eq, exprWords_eq]
  exact .commaList rfl fun e he => (h e he).text

theorem renderGroupBy_written {groupBy : GroupBy} (h : groupBy.BuiltOf Expr.WrittenOut) :
    ClauseWritten (renderGroupBy groupBy) (groupByWords groupBy) := by
  obtain ⟨exprs, having, span⟩ := groupBy
  have hlead : Written endsAny (" " ++ ("GROUP" ++ " ") ++ ("BY" ++ " "))
      [.keyword .GROUP, .keyword .BY] :=
    (Written.blank.append_any (.word .GROUP)).append_any (.word .BY)
  have hgroups := ClauseWritten.of_lead hlead ⟨' ', rfl, rfl⟩ (renderExprs_written h.exprs)
  cases having with
  | none => exact hgroups
  | some having =>
    rw [renderGroupBy, String.append_assoc]
    exact hgroups.append (.word .HAVING (h.having having rfl).text)

theorem OrderingTerm.written {term : OrderingTerm} (h : term.expr.WrittenOut) :
    Written endsExpr term.render term.words :=
  (h.text.append_clause (renderDirection_written _)).append_clause (renderNulls_written _)

theorem renderOrderBy_written {orderBy : OrderBy} (h : orderBy.BuiltOf Expr.WrittenOut) :
    ClauseWritten (renderOrderBy orderBy) (orderByWords orderBy) := by
  rw [renderOrderBy, orderByWords, renderTerms_eq, termWords_eq]
  have hlead : Written endsAny (" " ++ ("ORDER" ++ " ") ++ ("BY" ++ " "))
      [.keyword .ORDER, .keyword .BY] :=
    (Written.blank.append_any (.word .ORDER)).append_any (.word .BY)
  exact .of_lead hlead ⟨' ', rfl, rfl⟩
    (.commaList rfl fun term hterm => OrderingTerm.written (h.terms term hterm))

theorem renderLimit_written {limit : Limit} (h : limit.BuiltOf Expr.WrittenOut) :
    ClauseWritten (renderLimit limit) (limitWords limit) := by
  obtain ⟨count, offset, span⟩ := limit
  have hcount := ClauseWritten.word .LIMIT h.count.text
  cases offset with
  | none => exact hcount
  | some offset =>
    rw [renderLimit, String.append_assoc]
    exact hcount.append (.word .OFFSET (h.offset offset rfl).text)

theorem Select.written {s : Select}
    (h : s.BuiltOf Expr.WrittenOut fun s => Written endsExpr s.render s.words) :
    Written endsExpr s.render s.words := by
  have hlead : Written endsAny ("SELECT " ++ if s.distinct then "DISTINCT " else "")
      (.keyword .SELECT :: quantifierWords s.distinct) := by
    unfold quantifierWords
    cases s.distinct with
    | true => exact (Written.word .SELECT).append_any (.word .DISTINCT)
    | false => exact (Written.word .SELECT).append_any (.empty _)
  rw [Select.render_eq, Select.words_eq, renderColumns_eq, columnWords_eq]
  have hcolumns : Written endsExpr (commaList (s.columns.map ResultColumn.render))
      (commaWords (s.columns.map ResultColumn.words)) :=
    .commaList rfl fun column hcolumn => ResultColumn.written (h.columns column hcolumn)
  have hsource := ClauseWritten.option fun clause hclause => renderFrom_written (h.source clause hclause)
  have hcondition := ClauseWritten.option fun e he => ClauseWritten.word .WHERE (h.condition e he).text
  have hgroupBy := ClauseWritten.option fun g hg => renderGroupBy_written (h.groupBy g hg)
  have horderBy := ClauseWritten.option fun o ho => renderOrderBy_written (h.orderBy o ho)
  have hlimit := ClauseWritten.option fun l hl => renderLimit_written (h.limit l hl)
  exact (((((hlead.append_any hcolumns).append_clause hsource).append_clause hcondition).append_clause
    hgroupBy).append_clause horderBy).append_clause hlimit

end

theorem writtenOut_builds :
    Builds Expr.WrittenOut fun s => Written endsExpr s.render s.words where
  constant {span value} h := .of_text id (Literal.written h) fun _ => Literal.render_begins h
  name {span ident} _ :=
    ⟨fun _ => ident.written, ident.written.mono fun _ => endsName_of_endsExpr,
      fun _ => ident.render_begins.mono (by simp_all)⟩
  dot {span left right} hpath hleft _ := by
    have hname : Written endsName ("." ++ right.render) [.dot, right.word] :=
      Written.point.append_begins right.written (right.render_begins.mono (by simp_all))
    have htext : Written endsName (Expr.dot { span := span } left right).render
        (left.words ++ [.dot, right.word]) := by
      rw [Expr.render, String.append_assoc]
      exact (hleft.path hpath).append_begins hname (.append ⟨'.', rfl, rfl⟩ _)
    refine ⟨fun _ => htext, htext.mono fun _ => endsName_of_endsExpr, fun _ => ?_⟩
    rw [Expr.render, String.append_assoc]
    exact (hleft.begins hpath.isOperation).append _
  binary {span left op right} hleft hright := by
    refine .of_text id ?_ (by simp [Expr.isOperation])
    have htext : (Expr.binary { span := span } left op right).render =
        bracketIf left.isOperation left.render ++
          ((" " ++ op.spelling ++ " ") ++ bracketIf right.isOperation right.render) := by
      simp [Expr.render, String.append_assoc]
    have hbegins : Begins endsExpr
        ((" " ++ op.spelling ++ " ") ++ bracketIf right.isOperation right.render) := by
      rw [String.append_assoc, String.append_assoc]
      exact .append ⟨' ', rfl, rfl⟩ _
    rw [htext, Expr.words, List.append_assoc]
    exact hleft.operand.1.append_begins (op.written.append_any (Expr.WrittenOut.right hright)) hbegins
  unary {span op operand} hoperand := by
    obtain ⟨htext, hbegins⟩ := hoperand.operand
    refine .of_text id ?_ (by simp [Expr.isOperation])
    cases op with
    | negate => exact Written.minus.append_begins htext hbegins
    | not => exact (Written.word .NOT).append_any htext
  plus {span e} he := by
    refine ⟨fun hpath => ?_, ?_, fun hop => ?_⟩
    · rw [Expr.render_withNote, Expr.words_withNote]
      exact he.path ((Expr.isPath_withNote _ e).mp hpath)
    · rw [Expr.render_withNote, Expr.words_withNote]
      exact he.text
    · rw [Expr.render_withNote]
      exact he.begins (by rwa [Expr.isOperation_withNote] at hop)
  call {span function args} _ hargs := by
    refine .of_text id ?_ fun _ => (function.render_begins.append _).mono (by simp_all)
    refine function.written.append_begins (Expr.WrittenOut.list hargs) ?_
    rw [bracketList, String.append_assoc]
    exact .append ⟨'(', rfl, rfl⟩ _
  callStar {span function star} _ := by
    refine .of_text id ?_ fun _ => (function.render_begins.append _).mono (by simp_all)
    have hstar : Written endsExpr "*" [.star] := Written.star.mono fun _ _ => rfl
    exact (function.written.append_begins hstar.enclosed ⟨'(', rfl, rfl⟩).mono fun _ _ => rfl
  brackets {span inner} hinner :=
    .of_text id (hinner.text.enclosed.mono fun _ _ => rfl) fun _ => Expr.begins_bracket _
  list {span items} _ hitems :=
    .of_text id (Expr.WrittenOut.list hitems) fun _ => Expr.begins_bracket _
  subquery {span select} hselect :=
    .of_text id (hselect.enclosed.mono fun _ _ => rfl) fun _ => Expr.begins_bracket _
  select hs := Select.written hs

/-! ### Statements that change rows -/

theorem ValueRow.written {row : ValueRow} (h : ∀ e ∈ row.values, e.WrittenOut) :
    Written endsExpr row.render row.words :=
  (Written.bracketList fun e he => (h e he).text).mono fun _ _ => rfl

/-- The columns of a table after its name. -/
theorem renderColumnList_written (names : List Ident) :
    ClauseWritten (renderColumnList names) (nameListWords names) := by
  cases names with
  | nil => exact .empty
  | cons name names =>
    have hnames : Written endsAny (renderIdents (name :: names)) (nameListWords (name :: names)) :=
      .bracketList fun name _ => Ident.written_expr name
    exact .of_lead .blank ⟨' ', rfl, rfl⟩ (hnames.mono fun _ _ => rfl)

theorem renderCondition_written {condition : Option Expr} (h : ∀ e ∈ condition, e.WrittenOut) :
    ClauseWritten (renderCondition condition) (condition.elim [] whereWords) := by
  have hcondition := ClauseWritten.option fun e he => ClauseWritten.word .WHERE (h e he).text
  cases condition <;> exact hcondition

theorem Insert.written {s : Insert} (h : s.BuiltOf Expr.WrittenOut) :
    Written endsExpr s.render s.words := by
  have hlead : Written endsAny ("INSERT" ++ " " ++ ("INTO" ++ " "))
      [.keyword .INSERT, .keyword .INTO] :=
    (Written.word .INSERT).append_any (.word .INTO)
  have hrows : Written endsExpr (commaList (s.rows.map ValueRow.render))
      (commaWords (s.rows.map ValueRow.words)) :=
    .commaList rfl fun row hrow => ValueRow.written (h.rows row hrow)
  rw [Insert.render, String.append_assoc]
  exact ((hlead.append_any s.table.written_expr).append_clause
    (renderColumnList_written s.columns)).append_clause (.word .VALUES hrows)

theorem Assignment.written {a : Assignment} (h : a.BuiltOf Expr.WrittenOut) :
    Written endsExpr a.render a.words := by
  have heq : Written endsAny (" " ++ "=" ++ " ") [.eq] := BinaryOperator.written .eq
  rw [Assignment.render, String.append_assoc]
  exact a.column.written_expr.append_begins (heq.append_any h.value.text) (.append ⟨' ', rfl, rfl⟩ _)

theorem Update.written {s : Update} (h : s.BuiltOf Expr.WrittenOut) :
    Written endsExpr s.render s.words := by
  have hassignments : Written endsExpr (commaList (s.assignments.map Assignment.render))
      (commaWords (s.assignments.map Assignment.words)) :=
    .commaList rfl fun a ha => Assignment.written (h.assignments a ha)
  have htext : s.render = "UPDATE " ++ s.table.render ++
      (" SET " ++ commaList (s.assignments.map Assignment.render)) ++ renderCondition s.condition := by
    simp [Update.render, String.append_assoc]
  rw [htext]
  exact (((Written.word .UPDATE).append_any s.table.written_expr).append_clause
    (.word .SET hassignments)).append_clause (renderCondition_written h.condition)

theorem Delete.written {s : Delete} (h : s.BuiltOf Expr.WrittenOut) :
    Written endsExpr s.render s.words := by
  have hlead : Written endsAny ("DELETE" ++ " " ++ ("FROM" ++ " "))
      [.keyword .DELETE, .keyword .FROM] :=
    (Written.word .DELETE).append_any (.word .FROM)
  exact (hlead.append_any s.table.written_expr).append_clause
    (renderCondition_written h.condition)

end SqlAnalysis
