import SqlAnalysis.Proofs.Grammar.Operators

/-!
# Reading queries in step

A query looks up to three tokens ahead: a name, a point and a star begin the columns
of a table, a bracket and `SELECT` a query used as a source. None of them ends a
statement, so two runs decide alike. With the parsers for expressions this closes
the recursion: as every level of nesting reads a token, all depths that have room
for the tokens agree.
-/
namespace SqlAnalysis

open ParserState

/-- The three tokens that begin the columns of a table. -/
theorem ParserState.Extends.startsTableStar_eq {tail : List Token} {s s' : ParserState}
    (h : Extends tail s s') :
    (Parser.isNameStart (s'.kindAt 0) && s'.kindAt 1 == .dot && s'.kindAt 2 == .star) =
      (Parser.isNameStart (s.kindAt 0) && s.kindAt 1 == .dot && s.kindAt 2 == .star) := by
  rw [Bool.eq_iff_iff]
  simp only [kindAt_eq, h.tokens]
  match s.tokens, tail with
  | ts, [] => rw [List.append_nil]
  | [], t :: ts =>
    have ht := h.head_kind
    simp [kindAhead, ht, Parser.isNameStart, Parser.nameOf?]
  | [_], t :: ts =>
    have ht := h.head_kind
    simp [kindAhead, ht]
  | [_, _], t :: ts =>
    have ht := h.head_kind
    simp [kindAhead, ht]
  | _ :: _ :: _ :: _, _ => exact Iff.rfl

namespace Parser

variable {α : Type} {tail : List Token} {E : Expr → List Token → Prop}
  {S : Select → List Token → Prop} {inner inner' : Nested} {room : Nat} {s s' : ParserState}

theorem condition_agree (hin : Nested.Agree tail E S inner inner' room) (h : InStep tail s s')
    (hs : s.tokens.length < room) :
    Agree (condition inner) (condition inner') s s' fun e read _ => E e read := by
  refine .skip _ _ rfl rfl (.under h fun u u' hu hlen => ?_)
  exact hin.within (Nat.lt_of_le_of_lt hlen hs) 0 u u' hu (Nat.le_refl _)

theorem resultColumn_agree (hin : Nested.Agree tail E S inner inner' room) (h : InStep tail s s')
    (hs : s.tokens.length < room) :
    Agree (resultColumn inner) (resultColumn inner') s s' fun column read _ =>
      column.SpelledWith E read := by
  refine .ifCheck h.toExtends rfl (fun hstar => ?_) fun _ => ?_
  · exact .advance h.toExtends hstar rfl fun star u u' _ _ hstar => .pure (.star hstar)
  refine .skip _ _ rfl rfl (.skip _ _ rfl rfl (.skip _ _ rfl rfl ?_))
  have hahead := h.toExtends.startsTableStar_eq
  rw [hahead]
  split
  · rename_i hall
    simp only [Bool.and_eq_true, beq_iff_eq] at hall
    obtain ⟨⟨-, hpoint⟩, hstar⟩ := hall
    apply Agree.bind h (ident_agree h.toExtends)
    intro table read u u' hu hu' htable
    obtain ⟨x, rfl⟩ := htable.eq_singleton
    apply Agree.advance hu'.toExtends ((hu.kindAt_eq 0).symm.trans hpoint) rfl
    intro point v v' hv hv' hpoint
    apply Agree.advance hv'.toExtends (((hu.trans hv).kindAt_eq 0).symm.trans hstar) rfl
    intro star w w' _ _ hstar
    apply Agree.pure
    exact .tableStar htable hpoint hstar
  · apply Agree.bind h (hin.within hs 0 s s' h (Nat.le_refl _))
    intro value read u u' _ hu hvalue
    apply Agree.bind hu (alias?_agree hu)
    intro label more v v' _ _ hlabel
    apply Agree.pure
    simpa using ResultColumn.SpelledWith.expr hvalue hlabel

theorem source_agree (hin : Nested.Agree tail E S inner inner' room) (h : InStep tail s s')
    (hs : s.tokens.length ≤ room) :
    Agree (source inner) (source inner') s s' fun source read _ => source.SpelledWith S read := by
  refine .ifBoth h.toExtends rfl rfl (fun hopen _ => ?_) ?_
  · apply Agree.advance h.toExtends hopen rfl
    intro opening u u' hu hu' hopening
    have hlen := hu.length_succ
    apply Agree.bind hu' (hin.select u u' hu'.toExtends (by omega))
    intro select read v v' _ hv hread
    apply Agree.expect hv.toExtends rfl
    intro closing w w' _ hw hclosing
    apply Agree.spanFrom hw
    intro span
    apply Agree.bind hw (alias?_agree hw)
    intro label more _ _ _ _ hlabel
    apply Agree.pure
    simpa using Source.SpelledWith.subquery (.mk hopening hread hclosing) hlabel
  · apply Agree.bind h (ident_agree h.toExtends)
    intro name read u u' _ hu hname
    apply Agree.bind hu (alias?_agree hu)
    intro label more v v' _ _ hlabel
    apply Agree.pure
    simpa using Source.SpelledWith.table hname hlabel

theorem joinOperator?_agree (h : InStep tail s s') (natural : Bool) :
    Agree (joinOperator? natural) (joinOperator? natural) s s' fun operator? read _ =>
      match operator? with
      | none => natural = false ∧ read = []
      | some operator => read.map Token.kind = operator.words ∧ ¬(natural ∧ operator = .comma) := by
  apply Agree.check h.toExtends rfl
  intro b hb
  split
  · rename_i hcomma
    obtain ⟨hnatural, hb'⟩ : natural = false ∧ b = true := by simpa using hcomma
    apply Agree.advance h.toExtends (hb.mp hb') rfl
    intro comma u u' _ _ hcomma
    apply Agree.pure
    simp [hcomma, hnatural, JoinOperator.words]
  refine .ifEat h.toExtends rfl (fun left u u' hu hu' hleft => ?_) fun _ => ?_
  · apply Agree.bind hu' (eat_agree hu'.toExtends rfl)
    intro outer read v v' _ hv houter
    apply Agree.expect hv.toExtends rfl
    intro join w w' _ _ hjoin
    apply Agree.pure
    cases outer <;> simp [hleft, hjoin, houter, JoinOperator.words]
  refine .ifEat h.toExtends rfl (fun word u u' hu hu' hword => ?_) fun _ => ?_
  · apply Agree.expect hu'.toExtends rfl
    intro join v v' _ _ hjoin
    apply Agree.pure
    simp [hword, hjoin, JoinOperator.words]
  refine .ifEat h.toExtends rfl (fun word u u' hu hu' hword => ?_) fun _ => ?_
  · apply Agree.expect hu'.toExtends rfl
    intro join v v' _ _ hjoin
    apply Agree.pure
    simp [hword, hjoin, JoinOperator.words]
  refine .ifEat h.toExtends rfl (fun word u u' hu hu' hword => .pure ?_) fun _ => ?_
  · simp [hword, JoinOperator.words]
  cases natural with
  | true => exact .failExpected _
  | false => exact .pure ⟨rfl, rfl⟩

/-- Two runs see another token before a join only where no join follows. -/
theorem join?_agree (hin : Nested.Agree tail E S inner inner' room) (h : InStep tail s s')
    (hs : s.tokens.length ≤ room) :
    Agree (join? inner) (join? inner') s s' fun join? read _ =>
      Optional (Join.SpelledWith E S) join? read := by
  apply Agree.start h.toExtends
  intro first first' hfirst
  apply Agree.bind h (eat_agree h.toExtends rfl)
  intro natural read u u' hu hu' hnatural
  refine .bind hu' (joinOperator?_agree hu' natural) fun operator? more v v' hv hv' hoperator => ?_
  cases operator? with
  | none =>
    obtain ⟨rfl, rfl⟩ := hoperator
    obtain rfl : read = [] := by simpa using hnatural
    exact .pure .none
  | some operator =>
    obtain ⟨hmore, hcomma⟩ := hoperator
    have hwords : (read ++ more).map Token.kind = joinWords natural operator := by
      rw [List.map_append, hnatural, hmore]
      cases natural <;> cases operator <;> first | rfl | simp at hcomma
    have hpos := operator.length_words_pos
    rw [← hmore, List.length_map] at hpos
    have hlen := hu.length_eq
    have hlen' := hv.length_eq
    have hne : read ++ more ≠ [] := List.ne_nil_of_length_pos (by rw [List.length_append]; omega)
    obtain rfl : first = first' := hfirst (List.ne_nil_of_length_pos (by omega))
    refine .skip _ _ rfl rfl ?_
    apply Agree.bind hv' (.under hv' fun w w' hw hlen => source_agree hin hw (by omega))
    intro table more' w w' hw hw' htable
    have hlen'' := hw.length_le
    apply Agree.bind hw' (afterWord_agree hw' .ON fun x x' hx hlen =>
      condition_agree hin hx (by omega))
    intro on more'' x x' _ hx hon
    apply Agree.spanFrom hx
    intro span
    apply Agree.pure
    have hjoin : Join.SpelledWith E S ⟨natural, operator, table, on, span⟩
        (read ++ more ++ more' ++ more'') := .mk hwords hne htable hon
    simpa using Optional.some hjoin

theorem Join.SpelledWith.ne_nil {join : Join} {read : List Token} :
    join.SpelledWith E S read → read ≠ [] := by
  rintro ⟨_, hwords, _, _⟩
  simp [hwords]

theorem fromClause_agree (hin : Nested.Agree tail E S inner inner' room) (h : InStep tail s s')
    (hs : s.tokens.length ≤ room) :
    Agree (fromClause inner) (fromClause inner') s s' fun clause read _ =>
      clause.SpelledWith E S read := by
  apply Agree.bind h (source_agree hin h hs)
  intro first read u u' hu hu' hfirst
  have hlen := hu.length_le
  have hjoins := many_agree hu' (fun _ _ => Join.SpelledWith.ne_nil) fun v v' hv hlen' =>
    join?_agree hin hv (by omega)
  apply Agree.bind hu' hjoins
  intro joins more v v' _ _ hjoins
  apply Agree.pure
  simpa using FromClause.SpelledWith.mk hfirst hjoins

theorem atWord_agree {p p' : Parser α} {P : α → List Token → Prop} (h : InStep tail s s')
    (word : Keyword) (hp : s.kindAt 0 = .keyword word → Agree p p' s s' fun a read _ => P a read) :
    Agree (atWord word p) (atWord word p') s s' fun a? read _ => Optional P a? read := by
  refine .ifCheck h.toExtends rfl (fun hword => ?_) fun _ => .pure .none
  apply Agree.bind h (hp hword)
  intro a read u u' _ _ ha
  apply Agree.pure
  simpa using Optional.some ha

theorem groupBy_agree (hin : Nested.Agree tail E S inner inner' room) (h : Extends tail s s')
    (hs : s.tokens.length ≤ room) (hword : s.kindAt 0 = .keyword .GROUP) :
    Agree (groupBy inner) (groupBy inner') s s' fun clause read _ => clause.SpelledWith E read := by
  apply Agree.advance h hword rfl
  intro group u u' hu hu' hgroup
  apply Agree.expect hu'.toExtends rfl
  intro mark v v' hv hv' hmark
  have hlen := (hu.trans hv).length_eq
  simp only [List.length_append, List.length_singleton] at hlen
  apply Agree.skip _ _ rfl rfl
  apply Agree.bind hv' (exprs_agree hin hv' (by omega))
  intro exprs read w w' hw hw' hexprs
  have hlen' := hw.length_le
  apply Agree.bind hw' (afterWord_agree hw' .HAVING fun x x' hx hlen =>
    condition_agree hin hx (by omega))
  intro having more x x' _ hx hhaving
  apply Agree.spanFrom hx
  intro span
  apply Agree.pure
  simpa using GroupBy.SpelledWith.mk hgroup hmark hexprs hhaving

theorem direction?_agree (h : InStep tail s s') :
    Agree direction? direction? s s' fun direction read _ =>
      read.map Token.kind = directionWords direction := by
  refine .ifEat h.toExtends rfl (fun word u u' _ _ hword => .pure ?_) fun _ => ?_
  · simp [hword, directionWords]
  refine .ifEat h.toExtends rfl (fun word u u' _ _ hword => .pure ?_) fun _ => .pure rfl
  simp [hword, directionWords]

theorem nullsOrder_agree (h : InStep tail s s') :
    Agree nullsOrder nullsOrder s s' fun nulls read _ =>
      nullsWords (some nulls) = .keyword .NULLS :: read.map Token.kind := by
  refine .ifEat h.toExtends rfl (fun word u u' _ _ hword => .pure ?_) fun _ => ?_
  · simp [hword, nullsWords]
  refine .ifEat h.toExtends rfl (fun word u u' _ _ hword => .pure ?_) fun _ => .failExpected _
  simp [hword, nullsWords]

theorem orderingTerm_agree (hin : Nested.Agree tail E S inner inner' room) (h : InStep tail s s')
    (hs : s.tokens.length < room) :
    Agree (orderingTerm inner) (orderingTerm inner') s s' fun term read _ =>
      term.SpelledWith E read := by
  apply Agree.bind h (hin.within hs 0 s s' h (Nat.le_refl _))
  intro e read u u' _ hu he
  apply Agree.bind hu (direction?_agree hu)
  intro direction words v v' _ hv hdirection
  apply Agree.bind hv (afterWord_agree hv .NULLS fun w w' hw _ => nullsOrder_agree hw)
  intro nulls words' _ _ _ _ hnulls
  apply Agree.pure
  have hwords : words'.map Token.kind = nullsWords nulls := by
    rcases hnulls with _ | ⟨hword, hkinds⟩
    · rfl
    · rw [hkinds, List.map_cons, hword]
  simpa using OrderingTerm.SpelledWith.mk he hdirection hwords

theorem orderBy_agree (hin : Nested.Agree tail E S inner inner' room) (h : Extends tail s s')
    (hs : s.tokens.length ≤ room) (hword : s.kindAt 0 = .keyword .ORDER) :
    Agree (orderBy inner) (orderBy inner') s s' fun clause read _ => clause.SpelledWith E read := by
  apply Agree.advance h hword rfl
  intro order u u' hu hu' horder
  apply Agree.expect hu'.toExtends rfl
  intro mark v v' hv hv' hmark
  have hlen := (hu.trans hv).length_eq
  simp only [List.length_append, List.length_singleton] at hlen
  apply Agree.skip _ _ rfl rfl
  apply Agree.bind hv' (.under hv' fun w w' hw hlen => commaSeparated_agree hw
    fun x x' hx hlen' => orderingTerm_agree hin hx (by omega))
  intro terms read w w' _ hw hterms
  apply Agree.spanFrom hw
  intro span
  apply Agree.pure
  simpa using OrderBy.SpelledWith.mk horder hmark hterms

theorem limit_agree (hin : Nested.Agree tail E S inner inner' room) (h : Extends tail s s')
    (hs : s.tokens.length ≤ room) (hword : s.kindAt 0 = .keyword .LIMIT) :
    Agree (limit inner) (limit inner') s s' fun clause read _ => clause.SpelledWith E read := by
  apply Agree.advance h hword rfl
  intro word u u' hu hu' hword
  have hlen := hu.length_succ
  refine .bind hu' (hin.within (by omega) 0 u u' hu' (Nat.le_refl _))
    fun first read v v' hv hv' hfirst => ?_
  have hlen' := hv.length_le
  refine .ifEat hv'.toExtends rfl (fun mark w w' hw hw' hmark => ?_) fun _ => ?_
  · have hlen'' := hw.length_le
    refine .bind hw' (hin.within (by omega) 0 w w' hw' (Nat.le_refl _))
      fun offset more x x' _ hx hoffset => .spanFrom hx fun span => .pure ?_
    simpa using Limit.SpelledWith.offset hword hfirst hmark hoffset
  refine .ifEat hv'.toExtends rfl (fun mark w w' hw hw' hmark => ?_) fun _ => ?_
  · have hlen'' := hw.length_le
    refine .bind hw' (hin.within (by omega) 0 w w' hw' (Nat.le_refl _))
      fun second more x x' _ hx hsecond => .spanFrom hx fun span => .pure ?_
    simpa using Limit.SpelledWith.comma hword hfirst hmark hsecond
  · refine .spanFrom hv' fun span => .pure ?_
    simpa using Limit.SpelledWith.plain hword hfirst

theorem quantifier_agree (h : InStep tail s s') :
    Agree quantifier quantifier s s' fun distinct read _ => QuantifierSpelled distinct read := by
  refine .ifEat h.toExtends rfl (fun word u u' _ _ hword => .pure (.distinct hword)) fun _ => ?_
  refine .bind h (eat_agree h.toExtends rfl) fun all read u u' _ _ hread => .pure ?_
  cases all with
  | false =>
    obtain rfl : read = [] := by simpa using hread
    exact .none
  | true =>
    obtain ⟨word, rfl, hword⟩ : ∃ word, read = [word] ∧ word.kind = .keyword .ALL := by
      simpa using hread
    exact .all hword

theorem selectWith_agree (rules : Rules E S) (hin : Nested.Agree tail E S inner inner' room)
    (h : Extends tail s s') (hs : s.tokens.length ≤ room) :
    Agree (selectWith inner) (selectWith inner') s s' fun select read _ => S select read := by
  apply Agree.expect h rfl
  intro word u u' hu hu' hword
  apply Agree.bind hu' (quantifier_agree hu')
  intro distinct qs v v' hv hv' hdistinct
  have hlen := hu.length_succ
  have hlen₁ := hv.length_le
  apply Agree.skip _ _ rfl rfl
  refine .bind hv' (.under hv' fun x x' hx hlen => commaSeparated_agree hx
    fun y y' hy hlen => resultColumn_agree hin hy (by omega)) fun columns cs w w' hw hw' hcs => ?_
  have hlen₂ := hw.length_le
  refine .bind hw' (afterWord_agree hw' .FROM fun x x' hx hlen => .skip _ _ rfl rfl
    (.under hx fun y y' hy hlen => fromClause_agree hin hy (by omega)))
    fun source fs v v' hv hv' hfs => ?_
  have hlen₃ := hv.length_le
  apply Agree.bind hv' (afterWord_agree hv' .WHERE fun x x' hx hlen =>
    condition_agree hin hx (by omega))
  intro condition ws w w' hw hw' hws
  have hlen₄ := hw.length_le
  apply Agree.bind hw' (atWord_agree hw' .GROUP (groupBy_agree hin hw'.toExtends (by omega)))
  intro groupBy gs v v' hv hv' hgs
  have hlen₅ := hv.length_le
  apply Agree.bind hv' (atWord_agree hv' .ORDER (orderBy_agree hin hv'.toExtends (by omega)))
  intro orderBy os w w' hw hw' hos
  have hlen₆ := hw.length_le
  apply Agree.bind hw' (atWord_agree hw' .LIMIT (limit_agree hin hw'.toExtends (by omega)))
  intro limit ls v v' _ hv' hls
  apply Agree.spanFrom hv'
  intro span
  apply Agree.pure
  simpa using rules.select (.mk hword hdistinct hcs hfs hws hgs hos hls)

/-- Each level of nesting reads a token, so that all depths with room for the tokens
agree. -/
theorem nested_agree (rules : Rules E S) (room : Nat) :
    ∀ depth depth', room ≤ depth → room ≤ depth' →
      Nested.Agree tail E S (nested depth) (nested depth') room := by
  induction room with
  | zero =>
    intro _ _ _ _
    constructor <;> intros <;> omega
  | succ room ih =>
    intro depth depth' hdepth hdepth'
    obtain ⟨d, rfl⟩ : ∃ d, depth = d + 1 := ⟨depth - 1, by omega⟩
    obtain ⟨d', rfl⟩ : ∃ d, depth' = d + 1 := ⟨depth' - 1, by omega⟩
    have hin := ih d d' (by omega) (by omega)
    constructor
    · intro power s s' h hs
      exact exprWith_agree rules hin h (by omega) power
    · intro s s' h hs
      exact selectWith_agree rules hin h (by omega)

theorem withNesting_agree {p p' : Nested → Parser α} {Q : α → List Token → List Token → Prop}
    (rules : Rules E S) (h : Extends tail s s')
    (hp : ∀ inner inner', Nested.Agree tail E S inner inner' (s.tokens.length + 1) →
      Agree (p inner) (p' inner') s s' Q) :
    Agree (withNesting p) (withNesting p') s s' Q := by
  refine .skip s s' rfl rfl (hp _ _ (nested_agree rules _ _ _ (Nat.le_refl _) ?_))
  have hlen := h.length_eq
  omega

theorem exprAt_agree (rules : Rules E S) (h : InStep tail s s') (power : Nat) :
    Agree (exprAt power) (exprAt power) s s' (Expr.ReadAt E power) :=
  withNesting_agree rules h.toExtends fun _ _ hin => hin.expr power s s' h (Nat.lt_succ_self _)

theorem select_agree (rules : Rules E S) (h : Extends tail s s') :
    Agree select select s s' fun select read _ => S select read :=
  withNesting_agree rules h fun _ _ hin => hin.select s s' h (Nat.lt_succ_self _)

end Parser
end SqlAnalysis
