import SqlAnalysis.Proofs.Grammar.RereadExpressions

/-!
# Queries read back

The clauses of a query stand in a fixed order, so that a token which begins a later clause,
or which ends the query, ends everything in an earlier one.
-/
namespace SqlAnalysis

/-! ### The order of clauses -/

/-- The place of the clause that a token begins, beyond all clauses for a token that ends
a query, and zero for all others. -/
def TokenKind.place : TokenKind → Nat
  | .keyword .FROM => 1
  | .keyword .WHERE => 2
  | .keyword .GROUP => 3
  | .keyword .HAVING => 4
  | .keyword .ORDER => 5
  | .keyword .LIMIT => 6
  | .keyword .OFFSET => 7
  | .rightParen | .eof => 8
  | _ => 0

namespace TokenKind

variable {k : TokenKind}

theorem eq_of_place_pos (h : 0 < k.place) :
    k ∈ [.keyword .FROM, .keyword .WHERE, .keyword .GROUP, .keyword .HAVING, .keyword .ORDER,
      .keyword .LIMIT, .keyword .OFFSET, .rightParen, .eof] := by
  unfold place at h
  split at h <;> simp_all

/-- What holds of all tokens that begin a clause or end a query. -/
theorem of_place_pos {p : TokenKind → Bool} (h : 0 < k.place)
    (hp : ([.keyword .FROM, .keyword .WHERE, .keyword .GROUP, .keyword .HAVING, .keyword .ORDER,
      .keyword .LIMIT, .keyword .OFFSET, .rightParen, .eof] : List TokenKind).all p = true) :
    p k = true :=
  List.all_eq_true.mp hp k (eq_of_place_pos h)

theorem endsExpr_of_place_pos (h : 0 < k.place) : k.endsExpr = true :=
  of_place_pos h rfl

theorem ne_of_place {k' : TokenKind} (h : 0 < k.place) (hk' : k'.place = 0) : k ≠ k' := by
  rintro rfl
  omega

/-- Whether a token ends one of several things with commas between them. -/
def endsItem (k : TokenKind) : Bool :=
  k = .comma || 0 < k.place

theorem endsExpr_of_endsItem (h : k.endsItem = true) : k.endsExpr = true := by
  simp only [endsItem, Bool.or_eq_true, decide_eq_true_eq] at h
  rcases h with rfl | h
  · rfl
  · exact endsExpr_of_place_pos h

theorem endsItem_of_place_pos (h : 0 < k.place) : k.endsItem = true := by
  simp [endsItem, h]

/-- Whether a token begins a join. -/
def beginsJoin : TokenKind → Bool
  | .comma | .keyword .NATURAL | .keyword .LEFT | .keyword .INNER | .keyword .CROSS
  | .keyword .JOIN => true
  | _ => false

/-- Whether a token ends a join. -/
def endsJoin (k : TokenKind) : Bool :=
  k.beginsJoin || 0 < k.place

theorem endsJoin_iff : k.endsJoin = true ↔ k.beginsJoin = true ∨ 0 < k.place := by
  simp [endsJoin]

theorem endsExpr_of_endsJoin (h : k.endsJoin = true) : k.endsExpr = true := by
  rcases endsJoin_iff.mp h with h | h
  · unfold beginsJoin at h
    split at h <;> first | rfl | cases h
  · exact endsExpr_of_place_pos h

/-- Whether no alias begins with a token. -/
def endsAlias (k : TokenKind) : Bool :=
  k ≠ .keyword .AS && !Parser.isOwnName k

theorem endsAlias_of_endsItem (h : k.endsItem = true) : k.endsAlias = true := by
  simp only [endsItem, Bool.or_eq_true, decide_eq_true_eq] at h
  rcases h with rfl | h
  · rfl
  · exact of_place_pos h rfl

theorem endsAlias_of_endsJoin (h : k.endsJoin = true) : k.endsAlias = true := by
  rcases endsJoin_iff.mp h with h | h
  · unfold beginsJoin at h
    split at h <;> first | rfl | cases h
  · exact of_place_pos h rfl

end TokenKind

namespace Parser

variable {α β : Type} {p : Parser β} {o : Option α} {words : α → List TokenKind}
  {R : α → β → Prop} {left : List TokenKind} {d : Nat}

/-- A clause that may be missing, before a later clause. -/
theorem clause_accepts {word : Keyword}
    (hleft : (TokenKind.keyword word).place < (headKind left).place)
    (hd : (o.elim [] (fun a => .keyword word :: words a) ++ left).length ≤ d)
    (h : ∀ a ∈ o, (words a ++ left).length < d → Accepts p (words a ++ left) left (R a)) :
    Accepts (afterWord word p) (o.elim [] (fun a => .keyword word :: words a) ++ left) left
      (Option.Rel R o) := by
  refine option_accepts (fun heq => by rw [heq] at hleft; omega) fun a ha => h a ha ?_
  rw [ha] at hd
  exact hd

/-- The same for a parser that reads the keyword itself. -/
theorem atClause_accepts {word : Keyword} (hwords : ∀ a, ∃ ks, words a = .keyword word :: ks)
    (hleft : (TokenKind.keyword word).place < (headKind left).place)
    (hd : (o.elim [] words ++ left).length ≤ d)
    (h : ∀ a ∈ o, (words a ++ left).length ≤ d → Accepts p (words a ++ left) left (R a)) :
    Accepts (atWord word p) (o.elim [] words ++ left) left (Option.Rel R o) := by
  have hother : headKind left ≠ .keyword word := fun heq => by rw [heq] at hleft; omega
  cases o with
  | none => exact .check_other hother (.pure .none)
  | some a =>
    have hread : Accepts (do return some (← p)) (words a ++ left) left (Option.Rel R (some a)) :=
      (h a rfl hd).bind fun b hb => .pure (.some hb)
    obtain ⟨ks, hks⟩ := hwords a
    rw [hks] at hread
    rw [Option.elim, hks]
    exact .check_head hread

theorem place_clause (o : Option α) {word : Keyword}
    (hwords : ∀ a, ∃ ks, words a = .keyword word :: ks)
    (hleft : (TokenKind.keyword word).place < (headKind left).place) :
    (TokenKind.keyword word).place ≤ (headKind (o.elim [] words ++ left)).place := by
  cases o with
  | none => exact Nat.le_of_lt hleft
  | some a =>
    obtain ⟨ks, hks⟩ := hwords a
    rw [Option.elim, hks]
    exact Nat.le_refl _

/-! ### Sources -/

theorem alias?_ends {label : Option Ident} (h : ∀ name ∈ label, name.Plain)
    (hleft : (headKind left).endsAlias = true) :
    Accepts alias? (aliasWords label ++ left) left (Option.Rel Ident.Kept label) := by
  simp only [TokenKind.endsAlias, Bool.and_eq_true, Bool.not_eq_true', decide_eq_true_eq] at hleft
  exact alias?_accepts h hleft.1 hleft.2

end Parser

def Source.Kept (a b : Source) : Prop := SqlAnalysis.Kept Source.render Source.skeleton a b

def Join.Kept (a b : Join) : Prop := SqlAnalysis.Kept Join.render Join.skeleton a b

theorem alias_kept {label label' : Option Ident} (h : Option.Rel Ident.Kept label label') :
    renderAlias label' = renderAlias label ∧
      label'.map Ident.skeleton = label.map Ident.skeleton := by
  cases h with
  | none => exact ⟨rfl, rfl⟩
  | some hname => simp [renderAlias, hname.text, hname.bare]

namespace Parser

variable {left : List TokenKind} {d : Nat}

theorem source_accepts {source : Source} (h : source.BuiltOf Select.Reread)
    (hleft : (headKind left).endsAlias = true) (hd : (source.words ++ left).length ≤ d) :
    Accepts (Parser.source (nested d)) (source.words ++ left) left source.Kept := by
  cases h with
  | @table name label hname hlabel =>
    have hhead : headKind ((Source.table name label none).words ++ left) ≠ .leftParen := by
      intro hparen
      have hstart := Expr.Reread.isNameStart_word hname
      rw [show name.word = .leftParen from hparen] at hstart
      cases hstart
    refine .check_other hhead (.peekAt ?_)
    refine (ident_accepts hname).bind fun name' hname' => (alias?_ends hlabel hleft).bind
      fun label' hlabel' => .pure ?_
    obtain ⟨htext, hbare⟩ := alias_kept hlabel'
    exact ⟨by rw [Source.render, Source.render, hname'.text, htext],
      by rw [Source.skeleton, Source.skeleton, hname'.bare, hbare]⟩
  | @subquery select label span hselect hlabel =>
    rw [Source.words, List.append_assoc, enclosed_append, List.length_cons] at hd
    rw [Source.words, List.append_assoc, enclosed_append]
    have hread := nested_select hselect hd (.inl rfl)
    have hclosed (start : Span) : Accepts (do
        let select ← (nested d).select
        let _ ← expect .rightParen "')'"
        let span ← spanFrom start
        return Source.subquery select (← alias?) span)
        (select.words ++ .rightParen :: (aliasWords label ++ left)) left
        (Source.subquery select label span).Kept := by
      refine hread.bind fun select' hselect' => (expect_accepts _).bind fun _ _ =>
        (spanFrom_accepts _).bind fun _ _ => (alias?_ends hlabel hleft).bind
          fun label' hlabel' => .pure ?_
      obtain ⟨htext, hbare⟩ := alias_kept hlabel'
      exact ⟨by rw [Source.render, Source.render, hselect'.text, htext],
        by rw [Source.skeleton, Source.skeleton, hselect'.bare, hbare]⟩
    obtain ⟨ks, hks⟩ := select.exists_words
    rw [hks, List.cons_append] at hclosed ⊢
    exact .check_head (.peekAt (advance_accepts.bind fun opening _ => hclosed opening.span))

/-! ### Joins -/

theorem condition_accepts {e : Expr} (h : e.Reread) (hd : (e.words ++ left).length < d)
    (hleft : (headKind left).endsExpr = true) :
    Accepts (condition (nested d)) (e.words ++ left) left e.Kept :=
  (columnsHint_accepts _).bind fun _ _ => under_accepts _ (h.nested_expr hd hleft)

theorem natural_accepts {natural : Bool} {op : JoinOperator} (h : natural = true → op ≠ .comma) :
    Accepts (eatWord .NATURAL) (joinWords natural op ++ left) (op.words ++ left) (· = natural) := by
  cases natural with
  | true =>
    have hwords : joinWords true op = .keyword .NATURAL :: op.words := by
      cases op <;> first | rfl | exact absurd rfl (h rfl)
    rw [hwords]
    exact eat_accepts
  | false =>
    refine eat_passes ?_
    cases op <;> nofun

theorem joinOperator?_accepts {natural : Bool} {op : JoinOperator}
    (h : natural = true → op ≠ .comma) :
    Accepts (joinOperator? natural) (op.words ++ left) left (· = some op) := by
  have hcomma {word : Keyword} {ks : List TokenKind} {q r : Parser (Option JoinOperator)}
      (hr : Accepts r (.keyword word :: ks) left (· = some op)) :
      Accepts (do if !natural && (← check .comma) then q else r) (.keyword word :: ks) left
        (· = some op) := by
    refine .check_other nofun ?_
    rw [Bool.and_false]
    exact hr
  have hother {word word' : Keyword} {ks : List TokenKind} (h : word ≠ word') :
      headKind (.keyword word :: ks) ≠ .keyword word' := fun heq => h (TokenKind.keyword.inj heq)
  have hjoin {ks : List TokenKind} {join : JoinOperator} : Accepts (do
      let _ ← expectWord .JOIN
      return some join) (.keyword .JOIN :: ks) ks (· = some join) :=
    (expect_accepts _).bind fun _ _ => .pure rfl
  cases op with
  | comma =>
    cases natural with
    | true => exact absurd rfl (h rfl)
    | false => exact .check_head (advance_accepts.bind fun _ _ => .pure rfl)
  | plain =>
    refine hcomma (.eat_other (hother (by decide)) (.eat_other (hother (by decide)) ?_))
    exact .eat_other (hother (by decide)) (.eat_head (.pure rfl))
  | inner => exact hcomma (.eat_other (hother (by decide)) (.eat_head hjoin))
  | left => exact hcomma (.eat_head (.eat_other (hother (by decide)) hjoin))
  | leftOuter => exact hcomma (.eat_head (.eat_head hjoin))
  | cross =>
    refine hcomma (.eat_other (hother (by decide)) (.eat_other (hother (by decide)) ?_))
    exact .eat_head hjoin

theorem joinOperator?_stops (hleft : (headKind left).beginsJoin = false) :
    Accepts (joinOperator? false) left left (· = none) := by
  have hne {k : TokenKind} (hk : k.beginsJoin = true) : headKind left ≠ k := by
    rintro rfl
    rw [hk] at hleft
    cases hleft
  exact .check_other (hne rfl) (.eat_other (hne rfl) (.eat_other (hne rfl) (.eat_other (hne rfl)
    (.eat_other (hne rfl) (.pure rfl)))))

end Parser

theorem Join.words_eq (join : Join) :
    join.words = joinWords join.natural join.operator ++
      (join.source.words ++ join.on.elim [] fun e => .keyword .ON :: e.words) := by
  obtain ⟨natural, operator, source, on, span⟩ := join
  cases on <;> simp [Join.words]

namespace Parser

variable {left : List TokenKind} {d : Nat}

theorem join_begins {join : Join} (h : join.BuiltOf Expr.Reread Select.Reread)
    (rest : List TokenKind) : (headKind (join.words ++ rest)).endsJoin = true := by
  obtain ⟨natural, operator, source, on, span⟩ := join
  rw [Join.words_eq]
  cases natural with
  | true =>
    cases operator <;> first | rfl | exact absurd rfl (h.operator rfl)
  | false => cases operator <;> rfl

theorem join_kept {join : Join} {source : Source} {on : Option Expr} {span : Span}
    (hsource : join.source.Kept source) (hon : Option.Rel Expr.Kept join.on on) :
    join.Kept ⟨join.natural, join.operator, source, on, span⟩ := by
  obtain ⟨natural, operator, source', on', span'⟩ := join
  cases hon with
  | none =>
    exact ⟨by rw [Join.render, Join.render, hsource.text],
      by rw [Join.skeleton, Join.skeleton, hsource.bare]⟩
  | some he =>
    refine ⟨by rw [Join.render, Join.render, hsource.text, he.text], ?_⟩
    rw [Join.skeleton, Join.skeleton, hsource.bare, skeletonOption, he.bare]
    rfl

theorem join?_accepts {join : Join} (h : join.BuiltOf Expr.Reread Select.Reread)
    (hleft : (headKind left).endsJoin = true) (hd : (join.words ++ left).length ≤ d) :
    Accepts (join? (nested d)) (join.words ++ left) left fun o => ∃ b, o = some b ∧ join.Kept b := by
  have hon : headKind left ≠ .keyword .ON := by
    intro heq
    rw [heq] at hleft
    cases hleft
  have hsource : (headKind (join.on.elim [] (fun e => .keyword .ON :: e.words) ++ left)).endsAlias =
      true := by
    cases join.on with
    | none => exact TokenKind.endsAlias_of_endsJoin hleft
    | some e => rfl
  rw [Join.words_eq, List.append_assoc, List.append_assoc] at hd ⊢
  have hlength : (join.source.words ++
      (join.on.elim [] (fun e => .keyword .ON :: e.words) ++ left)).length ≤ d := by
    rw [List.length_append] at hd
    omega
  have hlength' : (join.on.elim [] (fun e => .keyword .ON :: e.words) ++ left).length ≤ d := by
    rw [List.length_append] at hlength
    omega
  refine current_accepts_any.bind fun start _ => (natural_accepts h.operator).bind ?_
  rintro _ rfl
  refine (joinOperator?_accepts h.operator).bind ?_
  rintro _ rfl
  refine tablesHint_accepts.bind fun _ _ =>
    (under_accepts _ (source_accepts h.source hsource hlength)).bind fun source' hsource' => ?_
  refine (option_accepts hon fun e he => condition_accepts (h.on e he) ?_
    (TokenKind.endsExpr_of_endsJoin hleft)).bind fun on' hon' =>
      (spanFrom_accepts _).bind fun span' _ => .pure ⟨_, rfl, ?_⟩
  · rw [he] at hlength'
    exact hlength'
  · exact join_kept hsource' hon'

/-- No join is read where none begins. -/
theorem join?_stops (hleft : 0 < (headKind left).place) :
    Accepts (join? (nested d)) left left (· = none) := by
  have hbegins : (headKind left).beginsJoin = false := by
    have hnot := TokenKind.of_place_pos (p := fun k => !k.beginsJoin) hleft rfl
    simpa using hnot
  refine current_accepts_any.bind fun _ _ => .eat_other (TokenKind.ne_of_place hleft rfl) ?_
  refine (joinOperator?_stops hbegins).bind fun o ho => ?_
  rw [ho]
  exact .pure rfl

/-! ### Clauses -/

end Parser

def FromClause.Kept (a b : FromClause) : Prop :=
  SqlAnalysis.Kept renderFrom FromClause.skeleton a b

def ResultColumn.Kept (a b : ResultColumn) : Prop :=
  SqlAnalysis.Kept ResultColumn.render ResultColumn.skeleton a b

def GroupBy.Kept (a b : GroupBy) : Prop := SqlAnalysis.Kept renderGroupBy GroupBy.skeleton a b

def OrderingTerm.Kept (a b : OrderingTerm) : Prop :=
  SqlAnalysis.Kept OrderingTerm.render OrderingTerm.skeleton a b

def OrderBy.Kept (a b : OrderBy) : Prop := SqlAnalysis.Kept renderOrderBy OrderBy.skeleton a b

def Limit.Kept (a b : Limit) : Prop := SqlAnalysis.Kept renderLimit Limit.skeleton a b

namespace Parser

theorem fromClause_accepts {clause : FromClause}
    (h : clause.BuiltOf Expr.Reread Select.Reread) (hleft : 0 < (headKind left).place)
    (hd : (clause.source.words ++ joinedWords clause.joins ++ left).length ≤ d) :
    Accepts (fromClause (nested d)) (clause.source.words ++ joinedWords clause.joins ++ left) left
      clause.Kept := by
  rw [List.append_assoc, joinedWords_eq] at hd ⊢
  have hjoins : (headKind (clause.joins.flatMap Join.words ++ left)).endsJoin = true := by
    cases hlist : clause.joins with
    | nil => exact TokenKind.endsJoin_iff.mpr (.inr hleft)
    | cons join joins =>
      rw [List.flatMap_cons, List.append_assoc]
      exact join_begins (h.joins join (by simp [hlist])) _
  have hlength : (clause.joins.flatMap Join.words ++ left).length ≤ d := by
    rw [List.length_append] at hd
    omega
  have hne (join : Join) (hjoin : join ∈ clause.joins) : join.words ≠ [] := by
    intro hnil
    have hbegins := join_begins (h.joins join hjoin) [.plus]
    rw [hnil] at hbegins
    cases hbegins
  refine (source_accepts h.source (TokenKind.endsAlias_of_endsJoin hjoins) hd).bind
    fun source' hsource' => ?_
  refine (many_accepts (TokenKind.endsJoin_iff.mpr (.inr hleft)) (join?_stops hleft) hne
    (fun join hjoin => join_begins (h.joins join hjoin))
    fun join hjoin rest hrest hle => join?_accepts (h.joins join hjoin) hrest (by omega)).bind
      fun joins' hjoins' => .pure ?_
  obtain ⟨htexts, hbares⟩ := Kept.map hjoins'
  constructor
  · rw [renderFrom, renderFrom, hsource'.text, renderJoins_eq, renderJoins_eq, htexts]
  · rw [FromClause.skeleton, FromClause.skeleton, hsource'.bare, hbares]

theorem resultColumn_accepts {column : ResultColumn} (h : column.BuiltOf Expr.Reread)
    (hleft : (headKind left).endsItem = true) (hd : (column.words ++ left).length < d) :
    Accepts (resultColumn (nested d)) (column.words ++ left) left column.Kept := by
  cases column with
  | star span => exact .check_head (advance_accepts.bind fun _ _ => .pure ⟨rfl, rfl⟩)
  | tableStar table =>
    have hstart := Expr.Reread.isNameStart_word h
    have hhead : headKind ((ResultColumn.tableStar table).words ++ left) ≠ .star := by
      intro hstar
      rw [show table.word = .star from hstar] at hstart
      cases hstart
    refine .check_other hhead (.peek (.peekAt (.peekAt ?_)))
    rw [show headKind ((ResultColumn.tableStar table).words ++ left) = table.word from rfl, hstart]
    refine (ident_accepts h).bind fun table' htable => advance_accepts.bind fun _ _ =>
      advance_accepts.bind fun _ _ => .pure ⟨?_, ?_⟩
    · rw [ResultColumn.render, ResultColumn.render, htable.text]
    · rw [ResultColumn.skeleton, ResultColumn.skeleton, htable.bare]
  | expr value label =>
    obtain ⟨hvalue, hlabel⟩ := h
    rw [ResultColumn.words, List.append_assoc] at hd ⊢
    have hnext : (headKind (aliasWords label ++ left)).endsExpr = true ∧
        headKind (aliasWords label ++ left) ≠ .dot := by
      cases label with
      | none =>
        have hends := TokenKind.endsExpr_of_endsItem hleft
        exact ⟨hends, fun heq => by rw [show headKind left = .dot from heq] at hends; cases hends⟩
      | some name => exact ⟨rfl, by rintro ⟨⟩⟩
    refine .check_other (hvalue.head_ne rfl) (.peek (.peekAt (.peekAt ?_)))
    have hstar := hvalue.notStar _ hnext.2
    unfold startsTableStar at hstar
    rw [hstar]
    refine (hvalue.nested_expr hd hnext.1).bind fun value' hvalue' =>
      (alias?_ends hlabel (TokenKind.endsAlias_of_endsItem hleft)).bind fun label' hlabel' => .pure ?_
    obtain ⟨htext, hbare⟩ := alias_kept hlabel'
    exact ⟨by rw [ResultColumn.render, ResultColumn.render, hvalue'.text, htext],
      by rw [ResultColumn.skeleton, ResultColumn.skeleton, hvalue'.bare, hbare]⟩

theorem quantifier_accepts {distinct : Bool} (hleft : headKind left ≠ .keyword .DISTINCT)
    (hleft' : headKind left ≠ .keyword .ALL) :
    Accepts quantifier (quantifierWords distinct ++ left) left (· = distinct) := by
  cases distinct with
  | true => exact .eat_head (.pure rfl)
  | false => exact .eat_other hleft (.eat_other hleft' (.pure rfl))

/-- Expressions with commas between them, up to a later clause. -/
theorem clauseExprs_accepts {es : List Expr} (hne : es ≠ []) (h : ∀ e ∈ es, e.Reread)
    (hleft : 0 < (headKind left).place)
    (hd : (commaWords (es.map Expr.words) ++ left).length < d) :
    Accepts (commaSeparated ((nested d).expr 0)) (commaWords (es.map Expr.words) ++ left) left
      (List.Forall₂ Expr.Kept es) :=
  exprs_accepts hne (fun e he => (h e he).toRereadAlone) (TokenKind.endsExpr_of_place_pos hleft)
    (TokenKind.ne_of_place hleft rfl) hd

theorem groupBy_kept {clause : GroupBy} {exprs : List Expr} {having : Option Expr} {span : Span}
    (hexprs : List.Forall₂ Expr.Kept clause.exprs exprs)
    (hhaving : Option.Rel Expr.Kept clause.having having) : clause.Kept ⟨exprs, having, span⟩ := by
  obtain ⟨exprs', having', span'⟩ := clause
  obtain ⟨htexts, hbares⟩ := Kept.map hexprs
  have hbare : (GroupBy.mk exprs having span).skeleton = (GroupBy.mk exprs' having' span').skeleton := by
    rw [GroupBy.skeleton, GroupBy.skeleton, hbares, (Kept.option hhaving).2]
  refine ⟨?_, hbare⟩
  cases hhaving with
  | none => rw [renderGroupBy, renderGroupBy, renderExprs_eq, renderExprs_eq, htexts]
  | some he => rw [renderGroupBy, renderGroupBy, renderExprs_eq, renderExprs_eq, htexts, he.text]

theorem groupBy_accepts {clause : GroupBy} (h : clause.BuiltOf Expr.Reread)
    (hleft : (TokenKind.keyword .HAVING).place < (headKind left).place)
    (hd : (groupByWords clause ++ left).length ≤ d) :
    Accepts (groupBy (nested d)) (groupByWords clause ++ left) left clause.Kept := by
  have hwords : groupByWords clause ++ left = .keyword .GROUP :: .keyword .BY ::
      (commaWords (clause.exprs.map Expr.words) ++
        (clause.having.elim [] (fun e => .keyword .HAVING :: e.words) ++ left)) := by
    obtain ⟨exprs, having, span⟩ := clause
    cases having <;> simp [groupByWords, exprWords_eq]
  rw [hwords, List.length_cons, List.length_cons] at hd
  rw [hwords]
  have hplace : 0 < (headKind
      (clause.having.elim [] (fun e => .keyword .HAVING :: e.words) ++ left)).place :=
    Nat.lt_of_lt_of_le (by decide) (place_clause clause.having (fun _ => ⟨_, rfl⟩) hleft)
  refine advance_accepts.bind fun _ _ => (expect_accepts _).bind fun _ _ =>
    (columnsHint_accepts _).bind fun _ _ => (under_accepts _
      (clauseExprs_accepts h.exprs_ne_nil h.exprs hplace (by omega))).bind fun exprs' hexprs' => ?_
  have hhaving : (clause.having.elim [] (fun e => .keyword .HAVING :: e.words) ++ left).length ≤ d := by
    rw [List.length_append] at hd
    omega
  exact (clause_accepts hleft hhaving fun e he hlength => condition_accepts (h.having e he) hlength
    (TokenKind.endsExpr_of_place_pos (Nat.lt_of_le_of_lt (Nat.zero_le _) hleft))).bind
      fun having' hhaving' => (spanFrom_accepts _).bind fun span' _ =>
        .pure (groupBy_kept hexprs' hhaving')

theorem direction?_accepts {direction : Option SortDirection}
    (hasc : headKind left ≠ .keyword .ASC) (hdesc : headKind left ≠ .keyword .DESC) :
    Accepts direction? (directionWords direction ++ left) left (· = direction) := by
  match direction with
  | none => exact .eat_other hasc (.eat_other hdesc (.pure rfl))
  | some .ascending => exact .eat_head (.pure rfl)
  | some .descending => exact .eat_other nofun (.eat_head (.pure rfl))

theorem nulls_accepts {nulls : Option NullsOrder} (hleft : headKind left ≠ .keyword .NULLS) :
    Accepts (afterWord .NULLS nullsOrder) (nullsWords nulls ++ left) left (· = nulls) := by
  have hfirst : Accepts nullsOrder (.keyword .FIRST :: left) left (· = .first) :=
    .eat_head (.pure rfl)
  have hlast : Accepts nullsOrder (.keyword .LAST :: left) left (· = .last) :=
    .eat_other nofun (.eat_head (.pure rfl))
  match nulls with
  | none => exact after_passes hleft
  | some .first =>
    refine (after_accepts hfirst).mono ?_
    rintro _ ⟨_, rfl, rfl⟩
    rfl
  | some .last =>
    refine (after_accepts hlast).mono ?_
    rintro _ ⟨_, rfl, rfl⟩
    rfl

theorem orderingTerm_accepts {term : OrderingTerm} (h : term.expr.Reread)
    (hleft : (headKind left).endsItem = true) (hd : (term.words ++ left).length < d) :
    Accepts (orderingTerm (nested d)) (term.words ++ left) left term.Kept := by
  obtain ⟨expr, direction, nulls⟩ := term
  rw [OrderingTerm.words, List.append_assoc, List.append_assoc] at hd ⊢
  have hother (word : Keyword) (hword : (TokenKind.keyword word).endsItem = false) :
      headKind left ≠ .keyword word := by
    intro heq
    rw [heq, hword] at hleft
    cases hleft
  have hnulls (word : Keyword) (hword : (TokenKind.keyword word).endsItem = false)
      (hne : word ≠ .NULLS) : headKind (nullsWords nulls ++ left) ≠ .keyword word := by
    cases nulls with
    | none => exact hother word hword
    | some nulls => cases nulls <;> exact fun heq => hne (TokenKind.keyword.inj heq).symm
  have hexpr : (headKind (directionWords direction ++ (nullsWords nulls ++ left))).endsExpr = true := by
    cases direction with
    | none =>
      cases nulls with
      | none => exact TokenKind.endsExpr_of_endsItem hleft
      | some nulls => cases nulls <;> rfl
    | some direction => cases direction <;> rfl
  refine (h.nested_expr hd hexpr).bind fun expr' hexpr' => (direction?_accepts
    (hnulls .ASC rfl (by decide)) (hnulls .DESC rfl (by decide))).bind fun direction' hdirection => ?_
  refine (nulls_accepts (hother .NULLS rfl)).bind fun nulls' hnulls' => .pure ⟨?_, ?_⟩
  · rw [OrderingTerm.render, OrderingTerm.render, hexpr'.text, hdirection, hnulls']
  · rw [OrderingTerm.skeleton, OrderingTerm.skeleton, hexpr'.bare, hdirection, hnulls']

theorem orderBy_accepts {clause : OrderBy} (h : clause.BuiltOf Expr.Reread)
    (hleft : 0 < (headKind left).place) (hd : (orderByWords clause ++ left).length ≤ d) :
    Accepts (orderBy (nested d)) (orderByWords clause ++ left) left clause.Kept := by
  rw [orderByWords, termWords_eq, List.cons_append, List.cons_append, List.length_cons,
    List.length_cons] at hd
  rw [orderByWords, termWords_eq, List.cons_append, List.cons_append]
  have hterms : Accepts (commaSeparated (orderingTerm (nested d)))
      (commaWords (clause.terms.map OrderingTerm.words) ++ left) left
      (List.Forall₂ OrderingTerm.Kept clause.terms) := by
    refine commaSeparated_accepts rfl (TokenKind.endsItem_of_place_pos hleft)
      (TokenKind.ne_of_place hleft rfl) h.terms_ne_nil fun term hterm rest hrest hlength => ?_
    exact orderingTerm_accepts (h.terms term hterm) hrest (Nat.lt_of_le_of_lt hlength (by omega))
  refine advance_accepts.bind fun _ _ => (expect_accepts _).bind fun _ _ =>
    (columnsHint_accepts _).bind fun _ _ => (under_accepts _ hterms).bind fun terms' hterms' =>
      (spanFrom_accepts _).bind fun _ _ => .pure ?_
  obtain ⟨htexts, hbares⟩ := Kept.map hterms'
  constructor
  · rw [renderOrderBy, renderOrderBy, renderTerms_eq, renderTerms_eq, htexts]
  · rw [OrderBy.skeleton, OrderBy.skeleton, hbares]

theorem limit_accepts {clause : Limit} (h : clause.BuiltOf Expr.Reread)
    (hleft : (TokenKind.keyword .OFFSET).place < (headKind left).place)
    (hd : (limitWords clause ++ left).length ≤ d) :
    Accepts (limit (nested d)) (limitWords clause ++ left) left clause.Kept := by
  obtain ⟨count, offset, span⟩ := clause
  obtain ⟨hcount, hoffset⟩ := h
  have hpos : 0 < (headKind left).place := Nat.lt_of_le_of_lt (Nat.zero_le _) hleft
  have hends := TokenKind.endsExpr_of_place_pos hpos
  cases offset with
  | none =>
    rw [limitWords, List.cons_append, List.length_cons] at hd
    have hother : headKind left ≠ .keyword .OFFSET := fun heq => by rw [heq] at hleft; omega
    refine advance_accepts.bind fun _ _ => (hcount.nested_expr hd hends).bind fun count' hcount' => ?_
    refine .eat_other hother (.eat_other (TokenKind.ne_of_place hpos rfl) ?_)
    refine (spanFrom_accepts _).bind fun _ _ => .pure ⟨?_, ?_⟩
    · rw [renderLimit, renderLimit, hcount'.text]
    · rw [Limit.skeleton, Limit.skeleton, hcount'.bare]
  | some offset =>
    have hoffset := hoffset offset rfl
    rw [limitWords, List.append_assoc, List.cons_append, List.length_cons] at hd
    rw [limitWords, List.append_assoc]
    have hrest : (offset.words ++ left).length < d := by
      rw [List.length_append, List.cons_append, List.length_cons] at hd
      omega
    refine advance_accepts.bind fun _ _ => (hcount.nested_expr hd rfl).bind fun count' hcount' => ?_
    refine .eat_head ((hoffset.nested_expr hrest hends).bind fun offset' hoffset' =>
      (spanFrom_accepts _).bind fun _ _ => .pure ⟨?_, ?_⟩)
    · rw [renderLimit, renderLimit, hcount'.text, hoffset'.text]
    · rw [Limit.skeleton, Limit.skeleton, hcount'.bare, Option.map, hoffset'.bare]
      rfl

/-! ### Queries -/

theorem head_columns_ne {columns : List ResultColumn} (hne : columns ≠ [])
    (h : ∀ column ∈ columns, column.BuiltOf Expr.Reread) {k : TokenKind}
    (hk : k.beginsExpr = false) (hk' : k ≠ .star) :
    headKind (commaWords (columns.map ResultColumn.words) ++ left) ≠ k := by
  obtain ⟨column, columns, rfl⟩ := List.exists_cons_of_ne_nil hne
  rw [List.map_cons, commaWords, List.append_assoc]
  have hcolumn := h column List.mem_cons_self
  cases column with
  | star _ => exact fun heq => hk' heq.symm
  | tableStar table =>
    intro heq
    have hbegins := TokenKind.beginsExpr_of_isNameStart (Expr.Reread.isNameStart_word hcolumn)
    rw [show table.word = k from heq, hk] at hbegins
    cases hbegins
  | expr value label =>
    rw [ResultColumn.words, List.append_assoc]
    exact hcolumn.1.head_ne hk

theorem columns_accepts {columns : List ResultColumn} (hne : columns ≠ [])
    (h : ∀ column ∈ columns, column.BuiltOf Expr.Reread) (hleft : 0 < (headKind left).place)
    (hd : (commaWords (columns.map ResultColumn.words) ++ left).length < d) :
    Accepts (commaSeparated (resultColumn (nested d)))
      (commaWords (columns.map ResultColumn.words) ++ left) left
      (List.Forall₂ ResultColumn.Kept columns) :=
  commaSeparated_accepts rfl (TokenKind.endsItem_of_place_pos hleft)
    (TokenKind.ne_of_place hleft rfl) hne fun column hcolumn _ hrest hlength =>
      resultColumn_accepts (h column hcolumn) hrest (Nat.lt_of_le_of_lt hlength hd)

end Parser

theorem exists_fromWords (clause : FromClause) : ∃ ks, fromWords clause = .keyword .FROM :: ks :=
  ⟨_, rfl⟩

theorem exists_whereWords (e : Expr) : ∃ ks, whereWords e = .keyword .WHERE :: ks :=
  ⟨_, rfl⟩

theorem exists_groupByWords (clause : GroupBy) :
    ∃ ks, groupByWords clause = .keyword .GROUP :: ks := by
  obtain ⟨exprs, having, span⟩ := clause
  cases having <;> exact ⟨_, rfl⟩

theorem exists_orderByWords (clause : OrderBy) :
    ∃ ks, orderByWords clause = .keyword .ORDER :: ks :=
  ⟨_, rfl⟩

theorem exists_limitWords (clause : Limit) : ∃ ks, limitWords clause = .keyword .LIMIT :: ks := by
  obtain ⟨limit, offset, span⟩ := clause
  cases offset <;> exact ⟨_, rfl⟩

theorem length_tail_lt {α : Type} {ks left : List α} {d : Nat} (h : (ks ++ left).length < d) :
    left.length < d := by
  rw [List.length_append] at h
  omega

namespace Parser

variable {left : List TokenKind} {d : Nat}

theorem source_clause_accepts {o : Option FromClause}
    (h : ∀ clause ∈ o, clause.BuiltOf Expr.Reread Select.Reread)
    (hleft : (TokenKind.keyword .FROM).place < (headKind left).place)
    (hd : (o.elim [] fromWords ++ left).length < d) :
    Accepts (afterWord .FROM do
      let h ← tablesHint
      under { h with keywords := afterSourceKeywords } (fromClause (nested d)))
      (o.elim [] fromWords ++ left) left (Option.Rel FromClause.Kept o) := by
  have hwords : fromWords = fun clause =>
      .keyword .FROM :: (clause.source.words ++ joinedWords clause.joins) := rfl
  rw [hwords] at hd ⊢
  refine clause_accepts hleft (Nat.le_of_lt hd) fun clause hclause hlength =>
    tablesHint_accepts.bind fun _ _ => under_accepts _ ?_
  exact fromClause_accepts (h clause hclause) (Nat.lt_of_le_of_lt (Nat.zero_le _) hleft)
    (Nat.le_of_lt hlength)

theorem condition_clause_accepts {o : Option Expr} (h : ∀ e ∈ o, e.Reread)
    (hleft : (TokenKind.keyword .WHERE).place < (headKind left).place)
    (hd : (o.elim [] whereWords ++ left).length < d) :
    Accepts (afterWord .WHERE (condition (nested d))) (o.elim [] whereWords ++ left) left
      (Option.Rel Expr.Kept o) :=
  clause_accepts hleft (Nat.le_of_lt hd) fun e he hlength => condition_accepts (h e he) hlength
    (TokenKind.endsExpr_of_place_pos (Nat.lt_of_le_of_lt (Nat.zero_le _) hleft))

theorem renderWhere_kept {o o' : Option Expr} (h : Option.Rel Expr.Kept o o') :
    o'.elim "" renderWhere = o.elim "" renderWhere := by
  cases h with
  | none => rfl
  | some he => exact congrArg (" WHERE " ++ ·) he.text

/-- A query is read back if its parts are. -/
theorem select_reread {s : Select} (h : s.BuiltOf Expr.Reread Select.Reread) : s.Reread := by
  intro d left hd hleft
  have hend : (headKind left).place = 8 := by
    rcases hleft with hleft | hleft <;> rw [hleft] <;> rfl
  have hlimit := place_clause s.limit exists_limitWords (by rw [hend]; decide)
  have horderBy := place_clause s.orderBy exists_orderByWords (Nat.lt_of_lt_of_le (by decide) hlimit)
  have hgroupBy := place_clause s.groupBy exists_groupByWords (Nat.lt_of_lt_of_le (by decide) horderBy)
  have hcondition := place_clause s.condition exists_whereWords (Nat.lt_of_lt_of_le (by decide) hgroupBy)
  have hsource := place_clause s.source exists_fromWords (Nat.lt_of_lt_of_le (by decide) hcondition)
  rw [Select.words_eq, columnWords_eq] at hd ⊢
  simp only [List.append_assoc, List.cons_append] at hd ⊢
  rw [List.length_cons] at hd
  have hcolumnsLength := length_tail_lt hd
  have hsourceLength := length_tail_lt hcolumnsLength
  have hconditionLength := length_tail_lt hsourceLength
  have hgroupByLength := length_tail_lt hconditionLength
  have horderByLength := length_tail_lt hgroupByLength
  have hlimitLength := length_tail_lt horderByLength
  refine (expect_accepts _).bind fun _ _ => (quantifier_accepts
    (head_columns_ne h.columns_ne_nil h.columns rfl nofun)
    (head_columns_ne h.columns_ne_nil h.columns rfl nofun)).bind fun distinct' hdistinct' =>
      (columnsHint_accepts _).bind fun _ _ => ?_
  refine (under_accepts _ (columns_accepts h.columns_ne_nil h.columns hsource hcolumnsLength)).bind
    fun columns' hcolumns' => ?_
  refine (source_clause_accepts h.source (Nat.lt_of_lt_of_le (by decide) hcondition)
    hsourceLength).bind fun source' hsource' => ?_
  refine (condition_clause_accepts h.condition (Nat.lt_of_lt_of_le (by decide) hgroupBy)
    hconditionLength).bind fun condition' hcondition' => ?_
  refine (atClause_accepts exists_groupByWords (Nat.lt_of_lt_of_le (by decide) horderBy)
    (Nat.le_of_lt hgroupByLength) fun clause hclause => groupBy_accepts (h.groupBy clause hclause)
      (Nat.lt_of_lt_of_le (by decide) horderBy)).bind fun groupBy' hgroupBy' => ?_
  refine (atClause_accepts exists_orderByWords (Nat.lt_of_lt_of_le (by decide) hlimit)
    (Nat.le_of_lt horderByLength) fun clause hclause => orderBy_accepts (h.orderBy clause hclause)
      (Nat.lt_of_lt_of_le (by decide) hlimit)).bind fun orderBy' horderBy' => ?_
  refine (atClause_accepts exists_limitWords (by rw [hend]; decide)
    (Nat.le_of_lt hlimitLength) fun clause hclause => limit_accepts (h.limit clause hclause)
      (by rw [hend]; decide)).bind fun limit' hlimit' => ?_
  refine (spanFrom_accepts _).bind fun span _ => .pure ⟨?_, ?_⟩
  · rw [Select.render_eq, Select.render_eq, renderColumns_eq, renderColumns_eq, hdistinct',
      (Kept.map hcolumns').1, (Kept.option hsource').1, renderWhere_kept hcondition',
      (Kept.option hgroupBy').1, (Kept.option horderBy').1, (Kept.option hlimit').1]
  · rw [Select.skeleton_eq, Select.skeleton_eq, hdistinct', (Kept.map hcolumns').2,
      (Kept.option hsource').2, (Kept.option hcondition').2, (Kept.option hgroupBy').2,
      (Kept.option horderBy').2, (Kept.option hlimit').2, h.result]

end Parser
/-- Everything that is built of plain tokens is read back. -/
theorem reread_builds : Builds Expr.Reread Select.Reread where
  constant := .constant
  name := .name
  dot := .dot
  binary := .binary
  unary := .unary
  plus := .plus
  call := .call
  callStar := .callStar
  brackets := .brackets
  list := .list
  subquery := .subquery
  select := Parser.select_reread

end SqlAnalysis
