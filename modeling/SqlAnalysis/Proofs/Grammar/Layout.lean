import SqlAnalysis.Proofs.Grammar.Queries
import SqlAnalysis.Proofs.Grammar.Reading

/-!
# Where expressions and queries stand

The outline of whatever an expression or query parser gives fills the tokens it has read.
Spans come about in three ways: one token, two spans merged, and all from a first token
to the token read last.
-/
namespace SqlAnalysis

open Outline

def Expr.Fills (e : Expr) (ts : List Token) : Prop :=
  e.outline.Fills ts

def Select.Fills (s : Select) (ts : List Token) : Prop :=
  s.outline.Fills ts

def Join.Fills (join : Join) (ts : List Token) : Prop :=
  join.outline.Fills ts

theorem Expr.Fills.runs {e : Expr} {ts : List Token} (h : e.Fills ts) : e.span.Runs ts := by
  rw [← e.span_outline]
  exact Outline.Fills.covers h

theorem exprs_laid {es : List Expr} {ts : List Token} (h : CommaList Expr.Fills es ts) :
    Laid (exprOutlines es) ts := by
  rw [exprOutlines_eq]
  exact h.laid_map fun _ _ => id

theorem listed_laid {es : List Expr} {ts : List Token} :
    Listed Expr.Fills es ts → Laid (exprOutlines es) ts
  | .empty => .nil _
  | .items hitems => exprs_laid hitems

theorem option_laid {o : Option Expr} {kind : TokenKind} {ts : List Token}
    (h : Optional (Preceded kind Expr.Fills) o ts) : Laid (optionOutlines o) ts :=
  h.laid rfl (Preceded.laid fun _ _ he => .of_fills he)

theorem Expr.Fills.unary {e : Expr} {sign : Token} {ts : List Token} (op : UnaryOperator)
    (h : e.Fills ts) :
    (Expr.unary { span := sign.span.merge e.span } op e).Fills (sign :: ts) :=
  .of_laid (h.runs.signed sign) ((Laid.of_fills h).after [sign])

/-- What is read with a plus sign is the same, but for its span. -/
theorem Expr.Fills.plus {e : Expr} {sign : Token} {ts : List Token} (h : e.Fills ts) :
    (e.withNote { e.note with span := sign.span.merge e.span }).Fills (sign :: ts) := by
  rw [Expr.Fills, Expr.outline_withNote]
  exact .of_laid (h.runs.signed sign) ((Outline.Fills.laid h).after [sign])

theorem Expr.Fills.binaryOf {left right : Expr} {ts us : List Token} (h : left.Fills ts)
    (words : List Token) (op : BinaryOperator) (h' : right.Fills us) :
    (left.binaryOf op right).Fills (ts ++ words ++ us) :=
  .of_laid (h.runs.merge h'.runs words) (((Laid.of_fills h).before words).append (.of_fills h'))

/-- Whether the parsers for what is inside give what fills the tokens they read. -/
structure Nested.Fills (inner : Nested) : Prop where
  expr : ∀ power s, Parser.Reads (inner.expr power) s Expr.Fills
  select : ∀ s, Parser.Reads inner.select s Select.Fills

namespace Parser

open ParserState

variable {inner : Nested} {s : ParserState}

/-! ### Expressions -/

theorem endsStatement_of_literalOf? {kind : TokenKind} {value : Literal}
    (h : literalOf? kind = some value) : kind.endsStatement = false := by
  cases kind with
  | eof | semicolon => cases h
  | _ => rfl

theorem literal?_reads (s : ParserState) : Reads literal? s (Optional Expr.Fills) := by
  refine .peek fun k hk => ?_
  cases hvalue : literalOf? k with
  | none => exact .pure .none
  | some value =>
    refine .advance hk (endsStatement_of_literalOf? hvalue) fun t u _ _ => .pure ?_
    exact .some (.leaf t)

/-- A query between brackets that have been read. -/
theorem subquery_fills {opening closing : Token} {select : Select} {span : Span}
    {read : List Token} (hselect : select.Fills read)
    (hspan : span.Runs ([opening] ++ read ++ [closing])) :
    (Expr.subquery { span := span } select).Fills ([opening] ++ read ++ [closing]) :=
  .of_laid hspan (((Laid.of_fills hselect).after [opening]).before [closing])

theorem list_fills {opening closing : Token} {items : List Expr} {span : Span}
    {read : List Token} (hitems : Laid (exprOutlines items) read)
    (hspan : span.Runs ([opening] ++ read ++ [closing])) :
    (Expr.list { span := span } items).Fills ([opening] ++ read ++ [closing]) :=
  .of_laid hspan ((hitems.after [opening]).before [closing])

theorem bracketTerm_reads (hin : inner.Fills) (hopen : s.kindAt 0 = .leftParen) :
    Reads (bracketTerm inner) s Expr.Fills := by
  refine .advance hopen rfl fun opening u hu _ => ?_
  refine .ifCheck (fun _ => ?_) ?_
  · refine (hin.select u).bind fun select read v hv hselect => ?_
    refine .expect rfl fun closing w hw _ => ?_
    refine .spanFrom ((hu.trans hv).trans hw) rfl fun span hspan => .pure ?_
    simpa using subquery_fills hselect hspan
  · refine (commaSeparated_reads (hin.expr 0) u).bind fun items read v hv hitems => ?_
    refine .expect rfl fun closing w hw _ => ?_
    refine .spanFrom ((hu.trans hv).trans hw) rfl fun span hspan => ?_
    have hlaid := exprs_laid hitems
    match items with
    | [] => cases hitems
    | [inner] =>
      have hbrackets :
          (Expr.brackets { span := span } inner).Fills ([opening] ++ read ++ [closing]) :=
        .of_laid hspan ((hlaid.after [opening]).before [closing])
      exact .pure (by simpa using hbrackets)
    | first :: second :: rest => exact .pure (by simpa using list_fills hlaid hspan)

theorem exprs_reads (hin : inner.Fills) (h : Hint) (s : ParserState) :
    Reads (under h (commaSeparated (inner.expr 0))) s (CommaList Expr.Fills) :=
  .under (commaSeparated_reads (hin.expr 0) _)

/-- Expressions in brackets that need not be there. -/
theorem listed_reads (hin : inner.Fills) (change : Hint → Hint) (s : ParserState) :
    Reads (unlessClosing do under (change (← columnsHint [])) (commaSeparated (inner.expr 0))) s
      (Listed Expr.Fills) :=
  unlessClosing_reads (.look _ rfl (exprs_reads hin _ s))

theorem call_reads (hin : inner.Fills) {function : Ident} {before : ParserState}
    {name : List Token} (hname : function.Spelled name) (hbefore : before.Took name s)
    (hopen : s.kindAt 0 = .leftParen) :
    Reads (call inner function) s fun e read => e.Fills (name ++ read) := by
  obtain ⟨first, rfl, hfirst⟩ := hname.exists_span
  unfold call
  rw [hfirst]
  refine .advance hopen rfl fun opening u hu _ => ?_
  have hopened := hbefore.trans hu
  refine .ifCheck (fun hstar => ?_) ?_
  · refine .advance hstar rfl fun star v hv _ => ?_
    refine .expect rfl fun closing w hw _ => ?_
    refine .spanFrom ((hopened.trans hv).trans hw) rfl fun span hspan => .pure ?_
    have hparts : Laid [function.outline, .node star.span []] ([first] ++ [opening] ++ [star]) :=
      ((Laid.of_fills hname.fills).before [opening]).append (.of_fills (.leaf star))
    have hcall : (Expr.callStar { span := span } function star.span).Fills
        ([first] ++ [opening] ++ [star] ++ [closing]) := .of_laid hspan (hparts.before [closing])
    simpa using hcall
  · refine (listed_reads hin id u).bind fun args read v hv hargs => ?_
    refine .expect rfl fun closing w hw _ => ?_
    refine .spanFrom ((hopened.trans hv).trans hw) rfl fun span hspan => .pure ?_
    have hparts : Laid (function.outline :: exprOutlines args) ([first] ++ [opening] ++ read) :=
      ((Laid.of_fills hname.fills).before [opening]).append (listed_laid hargs)
    have hcall : (Expr.call { span := span } function args).Fills
        ([first] ++ [opening] ++ read ++ [closing]) := .of_laid hspan (hparts.before [closing])
    simpa using hcall

theorem dots_reads (n : Nat) : ∀ (s : ParserState) (e : Expr) (name : List Token), e.Fills name →
    Reads (dots n e) s fun e read => e.Fills (name ++ read) := by
  induction n with
  | zero => exact fun s e name he => .pure (by simpa using he)
  | succ n ih =>
    intro s e name he
    refine .ifEat rfl (fun point u hu _ => ?_) (.pure (by simpa using he))
    refine .look _ rfl ?_
    refine (Reads.under (ident_reads _)).bind fun right read v _ hright => ?_
    have hdot : (Expr.dot { span := e.span.merge right.span } e right).Fills
        (name ++ [point] ++ read) :=
      .of_laid (he.runs.merge hright.runs [point])
        (((Laid.of_fills he).before [point]).append (.of_fills hright.fills))
    exact (ih v _ _ hdot).mono fun _ more h => by simpa using h

theorem name_fills {name : Ident} {ts : List Token} (h : name.Spelled ts) :
    (Expr.name { span := name.span } name).Fills ts :=
  .of_laid h.runs (.of_fills h.fills)

theorem nameTerm_reads (hin : inner.Fills) (s : ParserState) :
    Reads (nameTerm inner) s Expr.Fills := by
  refine (ident_reads s).bind fun name read u hu hname => ?_
  refine .ifCheck (fun hopen => call_reads hin hname hu hopen) (.look u rfl ?_)
  exact dots_reads _ u _ read (name_fills hname)

/-- An operand after a sign. -/
theorem signed_reads {f : Token → Expr → Expr} {kind : TokenKind} {power : Nat}
    (hin : inner.Fills) (hs : s.kindAt 0 = kind) (hk : kind.endsStatement = false)
    (hf : ∀ (sign : Token) (e : Expr) (ts : List Token), e.Fills ts →
      (f sign e).Fills (sign :: ts)) :
    Reads (do let sign ← advance; let e ← inner.expr power; return f sign e) s Expr.Fills := by
  refine .advance hs hk fun sign u _ _ => ?_
  exact (hin.expr power u).map fun e read he => hf sign e read he

theorem operand_reads (hin : inner.Fills) (s : ParserState) :
    Reads (operand inner) s Expr.Fills := by
  refine (literal?_reads s).bind fun e? read u _ he => ?_
  cases he with
  | some he => exact .pure (by simpa using he)
  | none =>
    simp only [List.nil_append]
    refine .peek fun k hk => ?_
    split
    · exact signed_reads hin hk rfl fun _ _ _ => .unary _
    · exact signed_reads hin hk rfl fun _ _ _ => .plus
    · exact signed_reads hin hk rfl fun _ _ _ => .unary _
    · exact bracketTerm_reads hin hk
    · exact .ite (fun _ => nameTerm_reads hin u) fun _ => .failExpected _

theorem memberList_reads (hin : inner.Fills) (hopen : s.kindAt 0 = .leftParen) :
    Reads (memberList inner) s Expr.Fills := by
  refine .advance hopen rfl fun opening u hu _ => ?_
  refine .ifCheck (fun _ => ?_) ?_
  · refine (hin.select u).bind fun select read v hv hselect => ?_
    refine .expect rfl fun closing w hw _ => ?_
    refine .spanFrom ((hu.trans hv).trans hw) rfl fun span hspan => .pure ?_
    simpa using subquery_fills hselect hspan
  · refine (listed_reads hin (fun h => { h with wrap := some ("(", ")") }) u).bind
      fun items read v hv hitems => ?_
    refine .expect rfl fun closing w hw _ => ?_
    refine .spanFrom ((hu.trans hv).trans hw) rfl fun span hspan => .pure ?_
    simpa using list_fills (listed_laid hitems) hspan

theorem rightOperand_reads (hin : inner.Fills) (op : BinaryOperator) (s : ParserState) :
    Reads (rightOperand inner op) s Expr.Fills :=
  .ite (fun _ => .ifCheck (fun hopen => memberList_reads hin hopen) (hin.expr _ s))
    fun _ => hin.expr _ s

/-- Nothing more than a look tells how many tokens an operator takes. -/
theorem operatorWords_reads {op : BinaryOperator} {width : Nat}
    (hnext : BinaryOperator.ofTokens? (s.kindAt 0) (s.kindAt 1) = some (op, width)) :
    Reads (operatorWords width) s fun _ _ => True :=
  Reads.mono (.of_agree fun h => operatorWords_agree h hnext) fun _ _ _ => trivial

theorem operations_reads (hin : inner.Fills) (power n : Nat) :
    ∀ (s : ParserState) (left : Expr) (ts : List Token), left.Fills ts →
      Reads (operations inner power n left) s fun e read => e.Fills (ts ++ read) := by
  induction n with
  | zero => exact fun s left ts hleft => .pure (by simpa using hleft)
  | succ n ih =>
    intro s left ts hleft
    unfold operations
    refine .look (s.kindAt 0) rfl (.look (s.kindAt 1) rfl ?_)
    cases hnext : BinaryOperator.ofTokens? (s.kindAt 0) (s.kindAt 1) with
    | none => exact .pure (by simpa using hleft)
    | some next =>
      obtain ⟨op, width⟩ := next
      refine .ite (fun _ => .pure (by simpa using hleft)) fun _ => ?_
      refine (operatorWords_reads hnext).bind fun _ words u _ _ => ?_
      refine (rightOperand_reads hin op u).bind fun right read v _ hright => ?_
      refine (ih v _ _ (hleft.binaryOf words op hright)).mono fun e more h => ?_
      simpa using h

theorem exprWith_reads (hin : inner.Fills) (power : Nat) (s : ParserState) :
    Reads (exprWith inner power) s Expr.Fills := by
  refine (operand_reads hin s).bind fun left read u _ hleft => .look u rfl ?_
  exact operations_reads hin power _ u left read hleft

/-! ### Clauses -/

theorem condition_reads (hin : inner.Fills) (s : ParserState) :
    Reads (condition inner) s Expr.Fills :=
  .look _ rfl (.under (hin.expr 0 _))

theorem resultColumn_reads (hin : inner.Fills) (s : ParserState) :
    Reads (resultColumn inner) s fun column read => Laid column.outlines read := by
  refine .ifCheck (fun hstar => ?_) ?_
  · exact .advance hstar rfl fun star _ _ _ => .pure (.of_fills (.leaf star))
  refine .look _ rfl (.look _ rfl (.look _ rfl (.ite (fun hall => ?_) fun _ => ?_)))
  · simp only [Bool.and_eq_true, beq_iff_eq] at hall
    obtain ⟨⟨-, hpoint⟩, hstar⟩ := hall
    refine (ident_reads s).bind fun table read u hu htable => ?_
    obtain ⟨x, rfl⟩ := htable.eq_singleton
    refine .advance ((hu.kindAt_eq 0).symm.trans hpoint) rfl fun point v hv _ => ?_
    refine .advance (((hu.trans hv).kindAt_eq 0).symm.trans hstar) rfl fun star _ _ _ => .pure ?_
    exact (Laid.of_fills htable.fills).before [point, star]
  · refine (hin.expr 0 s).bind fun value read u _ hvalue => ?_
    refine (alias?_reads u).map fun label more hlabel => ?_
    simpa [ResultColumn.outlines, columnOutlines] using Laid.cons hvalue hlabel.laid

/-- The span of a table goes up to its alias. -/
theorem table_laid {name : Ident} {label : Option Ident} {ts us : List Token}
    (hname : name.Spelled ts) (hlabel : AliasSpelled label us) :
    Laid (Source.table name label none).outlines (ts ++ us) := by
  cases hlabel with
  | none =>
    rw [List.append_nil]
    exact .of_fills (.of_laid hname.runs (.of_fills hname.fills))
  | @plain label t _ hlabel =>
    have hspan := hname.runs.merge hlabel.runs []
    rw [List.append_nil] at hspan
    exact .of_fills (.of_laid hspan (.cons hname.fills (.of_fills hlabel.fills)))
  | @marked label mark us _ hlabel =>
    have hspan := hname.runs.merge hlabel.runs [mark]
    rw [List.append_assoc] at hspan
    exact .of_fills (.of_laid hspan
      (.cons hname.fills ((Laid.of_fills hlabel.fills).after [mark])))

theorem source_reads (hin : inner.Fills) (s : ParserState) :
    Reads (source inner) s fun source read => Laid source.outlines read := by
  refine .check fun b hb => .look _ rfl (.ite (fun hboth => ?_) fun _ => ?_)
  · have hopen := hb (Bool.and_eq_true_iff.mp hboth).1
    refine .advance hopen rfl fun opening u hu _ => ?_
    refine (hin.select u).bind fun select read v hv hselect => ?_
    refine .expect rfl fun closing w hw _ => ?_
    refine .spanFrom ((hu.trans hv).trans hw) rfl fun span hspan => ?_
    refine (alias?_reads w).bind fun label more _ _ hlabel => .pure ?_
    have hquery : (node span [select.outline]).Fills ([opening] ++ read ++ [closing]) :=
      subquery_fills hselect hspan
    simpa [Source.outlines] using Laid.cons hquery hlabel.laid
  · refine (ident_reads s).bind fun name read u _ hname => ?_
    exact (alias?_reads u).map fun label more hlabel => table_laid hname hlabel

theorem join?_reads (hin : inner.Fills) (s : ParserState) :
    Reads (join? inner) s (Optional Join.Fills) := by
  refine .look s.current rfl ?_
  refine (Reads.of_agree fun h => eat_agree h.toExtends rfl).bind fun natural read u hu hread => ?_
  refine (Reads.of_agree fun h => joinOperator?_agree h natural).bind
    fun operator? more v hv hmore => ?_
  cases operator? with
  | none =>
    obtain ⟨rfl, rfl⟩ := hmore
    obtain rfl : read = [] := by simpa using hread
    exact .pure .none
  | some operator =>
    have hpos := operator.length_words_pos
    rw [← hmore.1, List.length_map] at hpos
    have hne : more ≠ [] := List.ne_nil_of_length_pos hpos
    refine .look _ rfl ?_
    refine (Reads.under (source_reads hin _)).bind fun table sourceRead w hw htable => ?_
    refine (afterWord_reads .ON (condition_reads hin) w).bind fun on onRead x hx hon => ?_
    have htook := ((hu.trans hv).trans hw).trans hx
    refine .spanFrom htook (htook.current_mem_head? (by simp [hne])) fun span hspan => .pure ?_
    have hjoin : Join.Fills ⟨natural, operator, table, on, span⟩
        (read ++ more ++ sourceRead ++ onRead) :=
      .of_laid hspan ((htable.after (read ++ more)).append (option_laid hon))
    simpa using Optional.some hjoin

theorem fromClause_reads (hin : inner.Fills) (s : ParserState) :
    Reads (fromClause inner) s fun clause read => Laid (sourceOutlines (some clause)) read := by
  refine (source_reads hin s).bind fun first read u _ hfirst => ?_
  refine (many_reads (join?_reads hin) u).map fun joins more hjoins => hfirst.append ?_
  rw [joinOutlines_eq]
  exact hjoins.laid_map fun _ _ => id

theorem groupBy_reads (hin : inner.Fills) (hword : s.kindAt 0 = .keyword .GROUP) :
    Reads (groupBy inner) s fun clause read => Laid (groupOutlines (some clause)) read := by
  refine .advance hword rfl fun group u hu _ => .expect rfl fun mark v hv _ => .look _ rfl ?_
  refine (exprs_reads hin _ v).bind fun exprs read w hw hexprs => ?_
  refine (afterWord_reads .HAVING (condition_reads hin) w).bind fun having more x hx hhaving => ?_
  refine .spanFrom (((hu.trans hv).trans hw).trans hx) rfl fun span hspan => .pure ?_
  have hclause : (node span (exprOutlines exprs ++ optionOutlines having)).Fills
      ([group] ++ [mark] ++ read ++ more) :=
    .of_laid hspan (((exprs_laid hexprs).after ([group] ++ [mark])).append (option_laid hhaving))
  simpa [groupOutlines] using Laid.of_fills hclause

/-- Words behind a term stand in no outline. -/
theorem orderingTerm_reads (hin : inner.Fills) (s : ParserState) :
    Reads (orderingTerm inner) s fun term read => Laid [term.expr.outline] read := by
  refine (hin.expr 0 s).bind fun e read u _ he => ?_
  refine (Reads.of_agree direction?_agree).bind fun direction more v _ _ => ?_
  have hnulls : ∀ s, Reads nullsOrder s fun _ _ => True := fun s =>
    Reads.mono (.of_agree nullsOrder_agree) fun _ _ _ => trivial
  exact (afterWord_reads .NULLS hnulls v).map fun _ rest _ => (Laid.of_fills he).before _

theorem orderBy_reads (hin : inner.Fills) (hword : s.kindAt 0 = .keyword .ORDER) :
    Reads (orderBy inner) s fun clause read => Laid (orderOutlines (some clause)) read := by
  refine .advance hword rfl fun order u hu _ => .expect rfl fun mark v hv _ => .look _ rfl ?_
  refine (Reads.under (commaSeparated_reads (orderingTerm_reads hin) _)).bind
    fun terms read w hw hterms => ?_
  refine .spanFrom ((hu.trans hv).trans hw) rfl fun span hspan => .pure ?_
  have hterms : Laid (termOutlines terms) read := by
    rw [termOutlines_eq, List.map_eq_flatMap]
    exact hterms.laid fun _ _ => id
  have hclause : (node span (termOutlines terms)).Fills ([order] ++ [mark] ++ read) :=
    .of_laid hspan (hterms.after ([order] ++ [mark]))
  simpa [orderOutlines] using Laid.of_fills hclause

/-- With a comma the offset is read first. -/
theorem limit_reads (hin : inner.Fills) (hword : s.kindAt 0 = .keyword .LIMIT) :
    Reads (limit inner) s fun clause read => Laid (limitOutlines (some clause)) read := by
  refine .advance hword rfl fun word u hu _ => ?_
  refine (hin.expr 0 u).bind fun first read v hv hfirst => ?_
  have hstart := hu.trans hv
  refine .ifEat rfl (fun mark w hw _ => ?_) (.ifEat rfl (fun mark w hw _ => ?_) ?_)
  · refine (hin.expr 0 w).bind fun offset more x hx hoffset => ?_
    refine .spanFrom ((hstart.trans hw).trans hx) rfl fun span hspan => .pure ?_
    have hclause : (node span [first.outline, offset.outline]).Fills
        ([word] ++ read ++ [mark] ++ more) :=
      .of_laid hspan ((((Laid.of_fills hfirst).after [word]).before [mark]).append
        (.of_fills hoffset))
    simpa [limitOutlines, optionOutlines] using Laid.of_fills hclause
  · refine (hin.expr 0 w).bind fun second more x hx hsecond => ?_
    refine .spanFrom ((hstart.trans hw).trans hx) rfl fun span hspan => .pure ?_
    have hparts : Laid [first.outline, second.outline] ([word] ++ read ++ [mark] ++ more) :=
      (((Laid.of_fills hfirst).after [word]).before [mark]).append (.of_fills hsecond)
    have hclause : (node span [second.outline, first.outline]).Fills
        ([word] ++ read ++ [mark] ++ more) := .of_laid hspan (hparts.perm (.swap _ _ _))
    simpa [limitOutlines, optionOutlines] using Laid.of_fills hclause
  · refine .spanFrom hstart rfl fun span hspan => .pure ?_
    have hclause : (node span [first.outline]).Fills ([word] ++ read) :=
      .of_laid hspan ((Laid.of_fills hfirst).after [word])
    simpa [limitOutlines, optionOutlines] using Laid.of_fills hclause

/-! ### Queries -/

theorem selectWith_reads (hin : inner.Fills) (s : ParserState) :
    Reads (selectWith inner) s Select.Fills := by
  refine .expect rfl fun word u hu _ => ?_
  refine (Reads.of_agree quantifier_agree).bind fun distinct qs v hv _ => .look _ rfl ?_
  refine (Reads.under (commaSeparated_reads (resultColumn_reads hin) _)).bind
    fun columns cs w hw hcolumns => ?_
  have hfrom : ∀ s, Reads (do
      let h ← tablesHint
      under { h with keywords := afterSourceKeywords } (fromClause inner)) s
      fun clause read => Laid (sourceOutlines (some clause)) read :=
    fun s => .look _ rfl (.under (fromClause_reads hin _))
  refine (afterWord_reads .FROM hfrom w).bind fun source fs x hx hsource => ?_
  refine (afterWord_reads .WHERE (condition_reads hin) x).bind
    fun condition ws y hy hcondition => ?_
  refine (atWord_reads (groupBy_reads hin)).bind fun groupBy gs z hz hgroupBy => ?_
  refine (atWord_reads (orderBy_reads hin)).bind fun orderBy os z' hz' horderBy => ?_
  refine (atWord_reads (limit_reads hin)).bind fun limit ls z'' hz'' hlimit => ?_
  have htook := ((((((hu.trans hv).trans hw).trans hx).trans hy).trans hz).trans hz').trans hz''
  refine .spanFrom htook rfl fun span hspan => .pure ?_
  have hcolumns : Laid (columnOutlines columns) cs := by
    rw [columnOutlines_eq]
    exact hcolumns.laid fun _ _ => id
  have hsource : Laid (sourceOutlines source) fs :=
    hsource.laid rfl (Preceded.laid (f := fun clause => sourceOutlines (some clause)) fun _ _ => id)
  have hgroupBy : Laid (groupOutlines groupBy) gs := hgroupBy.laid rfl fun _ _ => id
  have horderBy : Laid (orderOutlines orderBy) os := horderBy.laid rfl fun _ _ => id
  have hlimit : Laid (limitOutlines limit) ls := hlimit.laid rfl fun _ _ => id
  have hparts := (((((hcolumns.after ([word] ++ qs)).append hsource).append
    (option_laid hcondition)).append hgroupBy).append horderBy).append hlimit
  have hselect : (Select.mk distinct columns source condition groupBy orderBy limit span
      none).Fills ([word] ++ qs ++ cs ++ fs ++ ws ++ gs ++ os ++ ls) := .of_laid hspan hparts
  simpa using hselect

/-- At no depth at all nothing is given. -/
theorem nested_fills (depth : Nat) : (nested depth).Fills := by
  induction depth with
  | zero => exact ⟨fun _ _ => .failExpected _, fun _ => .failExpected _⟩
  | succ depth ih => exact ⟨exprWith_reads ih, selectWith_reads ih⟩

theorem exprAt_reads (power : Nat) (s : ParserState) : Reads (exprAt power) s Expr.Fills :=
  .look s rfl ((nested_fills _).expr power s)

theorem expr_reads (s : ParserState) : Reads expr s Expr.Fills :=
  exprAt_reads 0 s

theorem select_reads (s : ParserState) : Reads select s Select.Fills :=
  .look s rfl ((nested_fills _).select s)

end Parser
end SqlAnalysis
