import SqlAnalysis.Proofs.Resolution.TwinChecks

/-!
# Queries resolved side by side

The resolvers of alike expressions and queries are twins: one step into a tree after the
other, and from the steps, along the trees, whole queries.
-/
namespace SqlAnalysis.Resolver

open ResolverState Text

variable {forget : Prop}

/-! ### Results and sources -/

theorem foldCase_columnName {e e' : Expr} (h : e.Like forget e') :
    foldCase (columnName e) = foldCase (columnName e') := by
  have hrender := e.foldCase_render h
  cases h with
  | name _ ident => exact ident.name
  | dot _ _ right => exact right.name
  | _ => exact hrender

theorem addResultColumn_twins (result : TableId) {value value' : Expr}
    (hvalue : value.Like forget value') {label label' : Option Ident}
    (hlabel : Option.Rel Ident.Like label label') :
    Twins forget (addResultColumn result value label) (addResultColumn result value' label')
      (Option.Rel EntryLike) := by
  unfold addResultColumn
  cases hlabel with
  | none =>
    apply (addColumn_twins result (.plain (foldCase_columnName hvalue) hvalue.type result)).bind
    intro _ _ _
    exact .pure .none
  | some hname =>
    apply (addColumn_twins result (.plain hname.name hvalue.type result)).bind
    rintro id _ rfl
    exact .pure (.some ⟨hname.name, rfl⟩)

theorem copyAll_like (result : TableId) {joined joined' : List (String × TableId)}
    (h : List.Forall₂ EntryLike joined joined') {c c' : Catalog} (hc : c.Like forget c') :
    (joined.foldl (fun c entry => c.copyColumns entry.2 result) c).Like forget
      (joined'.foldl (fun c entry => c.copyColumns entry.2 result) c') := by
  induction h generalizing c c' with
  | nil => exact hc
  | @cons entry entry' _ _ hentry _ ih =>
    rw [List.foldl_cons, List.foldl_cons, ← hentry.meaning]
    exact ih (hc.copyColumns entry.2 result)

theorem addStar_twins (result : TableId) (hasSource : Bool)
    {joined joined' : List (String × TableId)} (h : List.Forall₂ EntryLike joined joined')
    (span : Span) :
    Twins forget (addStar result hasSource joined span) (addStar result hasSource joined' span)
      Eq := by
  have hcopy : Twins forget
      (modifyCatalog fun c => joined.foldl (fun c entry => c.copyColumns entry.2 result) c)
      (modifyCatalog fun c => joined'.foldl (fun c entry => c.copyColumns entry.2 result) c) Eq :=
    .modifyCatalog fun _ _ hc => copyAll_like result h hc
  unfold addStar
  split
  · exact (error_twins _ _ _).bind fun _ _ _ => hcopy
  · exact hcopy

theorem addTableStar_twins (result : TableId) {joined joined' : List (String × TableId)}
    (h : List.Forall₂ EntryLike joined joined') {name name' : Ident} (hname : name.Like name') :
    Twins forget (addTableStar result joined name) (addTableStar result joined' name') Eq := by
  have hfound : Option.Rel EntryLike (joined.find? fun entry => name.isNamed entry.1)
      (joined'.find? fun entry => name'.isNamed entry.1) := by
    refine forall₂_find? (fun entry entry' hentry => ?_) h
    simp only [Ident.isNamed, sameName, hname.name, hentry.name]
  unfold addTableStar
  rw [← hname.span]
  generalize joined.find? (fun entry => name.isNamed entry.1) = found at hfound
  generalize joined'.find? (fun entry => name'.isNamed entry.1) = found' at hfound
  cases hfound with
  | none => exact errorWithFix_twins _ _ _ _ _
  | @some entry entry' hentry =>
    obtain ⟨_, table⟩ := entry
    obtain ⟨_, table'⟩ := entry'
    obtain rfl : table = table' := hentry.meaning
    exact .modifyCatalog fun _ _ hc => hc.copyColumns table result

theorem tableSource_twins {name name' : Ident} (hname : name.Like name')
    {label label' : Option Ident} (hlabel : Option.Rel Ident.Like label label') :
    Twins forget (tableSource name label) (tableSource name' label')
      (Both (Source.Like forget) (Option.Rel EntryLike)) := by
  have hvisible : foldCase (label.getD name).name = foldCase (label'.getD name').name := by
    cases hlabel with
    | none => exact hname.name
    | some h => exact h.name
  refine (catalogTable?_twins hname).bind fun table? _ htable? => ?_
  subst htable?
  cases table? with
  | none =>
    apply (Twins.modifyFrame fun _ => rfl).bind
    intro _ _ _
    exact .pure ⟨.table hname hlabel, .none⟩
  | some table =>
    apply (Twins.bindTable hvisible table).bind
    intro _ _ _
    exact .pure ⟨.table hname hlabel, .some ⟨hvisible, rfl⟩⟩

theorem foldCase_subqueryName {label label' : Option Ident}
    (h : Option.Rel Ident.Like label label') :
    foldCase (subqueryName label) = foldCase (subqueryName label') := by
  cases h with
  | none => rfl
  | some h => exact h.name

theorem bindSubquery_twins {label label' : Option Ident}
    (h : Option.Rel Ident.Like label label') (table : TableId) :
    Twins forget (bindSubquery label table) (bindSubquery label' table) Eq := by
  cases h with
  | none => exact .bindColumns table
  | some h => exact .bindTable h.name table

theorem bindAliases_twins {aliases aliases' : List (String × ColumnId)}
    (h : List.Forall₂ EntryLike aliases aliases') :
    Twins forget
      (modify fun s => aliases.foldl (fun s entry => s.bindColumn entry.1 entry.2) s)
      (modify fun s => aliases'.foldl (fun s entry => s.bindColumn entry.1 entry.2) s) Eq := by
  refine .update (bindAliases_orderly aliases) ?_
  induction h with
  | nil => exact fun _ _ hs => hs
  | @cons entry entry' _ _ hentry _ ih =>
    intro s s' hs
    rw [List.foldl_cons, List.foldl_cons, ← hentry.meaning]
    exact ih _ _ (hs.bindColumn hentry.name entry.2)

/-! ### One step into an expression -/

section

variable {note note' : Note} (hnote : note.Like forget note')

include hnote

theorem name_twins {ident ident' : Ident} (hident : ident.Like ident') :
    Twins forget (term (.name note ident)) (term (.name note' ident')) (Expr.Like forget) := by
  rw [term, term]
  apply (scopeColumn?_twins hident).bind
  rintro column _ rfl
  apply (columnType_twins column).bind
  intro type type' htype
  exact .pure (.name ⟨hnote.span, htype, rfl⟩ hident)

theorem unary_twins (op : UnaryOperator) {operand operand' : Expr}
    (h : Twins forget (term operand) (term operand') (Expr.Like forget)) :
    Twins forget (term (.unary note op operand)) (term (.unary note' op operand'))
      (Expr.Like forget) := by
  rw [term, term, ← hnote.span]
  apply h.bind
  intro operand operand' hoperand
  apply (unaryType_twins op hoperand.type _).bind
  intro type type' htype
  exact .pure (.unary ⟨rfl, htype, hnote.binding⟩ hoperand)

theorem call_twins {function function' : Ident} (hfunction : function.Like function')
    {args args' : List Expr}
    (h : Twins forget (terms args) (terms args') (List.Forall₂ (Expr.Like forget))) :
    Twins forget (term (.call note function args)) (term (.call note' function' args'))
      (Expr.Like forget) := by
  rw [term, term, ← hnote.span]
  apply h.bind
  intro args args' hargs
  apply (callType_twins hfunction (Expr.Like.types hargs) false _).bind
  intro type type' htype
  exact .pure (.call ⟨rfl, htype, hnote.binding⟩ hfunction hargs)

theorem callStar_twins {function function' : Ident} (hfunction : function.Like function')
    (star : Span) :
    Twins forget (term (.callStar note function star)) (term (.callStar note' function' star))
      (Expr.Like forget) := by
  rw [term, term, ← hnote.span]
  apply (callType_twins hfunction .nil true _).bind
  intro type type' htype
  exact .pure (.callStar ⟨rfl, htype, hnote.binding⟩ hfunction)

theorem brackets_twins {inner inner' : Expr}
    (h : Twins forget (term inner) (term inner') (Expr.Like forget)) :
    Twins forget (term (.brackets note inner)) (term (.brackets note' inner'))
      (Expr.Like forget) := by
  rw [term, term]
  apply h.bind
  intro inner inner' hinner
  exact .pure (.brackets ⟨hnote.span, hinner.type, hnote.binding⟩ hinner)

theorem list_twins {items items' : List Expr}
    (h : Twins forget (terms items) (terms items') (List.Forall₂ (Expr.Like forget))) :
    Twins forget (term (.list note items)) (term (.list note' items')) (Expr.Like forget) := by
  rw [term, term]
  apply h.bind
  intro items items' hitems
  exact .pure (.list hnote hitems)

theorem subquery_twins {select select' : Select}
    (h : Twins forget (query "subquery" select) (query "subquery" select')
      (Both (Select.Like forget) Eq)) :
    Twins forget (term (.subquery note select)) (term (.subquery note' select'))
      (Expr.Like forget) := by
  rw [term, term, ← hnote.span]
  apply h.bind
  rintro ⟨select, table⟩ ⟨select', _⟩ ⟨hselect, rfl⟩
  apply (onlyColumnType_twins _ fun _ => error_twins _ _ _).bind
  intro type type' htype
  exact .pure (.subquery ⟨rfl, htype, hnote.binding⟩ hselect)

/-- What is looked for in a query or a list is compared with what these give. -/
def InnerTwins (forget : Prop) (op : BinaryOperator) : Expr → Expr → Prop
  | .subquery _ select, .subquery _ select' =>
    Twins forget (query "subquery" select) (query "subquery" select')
      (Both (Select.Like forget) Eq)
  | .list _ items, .list _ items' => ∀ left left', TypeLike forget left left' →
    Twins forget (memberTerms left op items) (memberTerms left' op items')
      (List.Forall₂ (Expr.Like forget))
  | _, _ => True

theorem binary_twins (op : BinaryOperator) {left left' right right' : Expr}
    (hleft : Twins forget (term left) (term left') (Expr.Like forget))
    (hright : right.Like forget right')
    (hterm : Twins forget (term right) (term right') (Expr.Like forget))
    (hinner : InnerTwins forget op right right') :
    Twins forget (term (.binary note left op right)) (term (.binary note' left' op right'))
      (Expr.Like forget) := by
  rw [term, term]
  apply hleft.bind
  intro left left' hleft
  have hboolean : Note.Like forget { note with type := some (SqlType.plain .boolean) }
      { note' with type := some (SqlType.plain .boolean) } :=
    ⟨hnote.span, Std.Refl.refl _, hnote.binding⟩
  have hmember : Twins forget
      (do
        let right ← term right
        requireMember left.type right.type op right.span
        return Expr.binary { note with type := some (SqlType.plain .boolean) } left op right)
      (do
        let right ← term right'
        requireMember left'.type right.type op right.span
        return Expr.binary { note' with type := some (SqlType.plain .boolean) } left' op right)
      (Expr.Like forget) := by
    apply hterm.bind
    intro right right' hright
    rw [← hright.span_eq]
    exact refuse_twins (requireMember_twins hleft.type hright.type op _)
      (.binary hboolean hleft hright)
  dsimp only
  by_cases hop : op.isMembership = true
  · rw [if_pos hop, if_pos hop]
    cases hright with
    | @subquery rightNote rightNote' select select' hrightNote _ =>
      dsimp only
      rw [← hrightNote.span]
      apply Twins.bind hinner
      rintro ⟨select, table⟩ ⟨select', _⟩ ⟨hselect, rfl⟩
      apply (onlyColumnType_twins _ fun _ => error_twins _ _ _).bind
      intro type type' htype
      refine refuse_twins (requireMember_twins hleft.type htype op _) ?_
      exact .binary hboolean hleft (.subquery ⟨rfl, htype, hrightNote.binding⟩ hselect)
    | list hrightNote _ =>
      apply Twins.bind (hinner _ _ hleft.type)
      intro items items' hitems
      exact .pure (.binary hboolean hleft (.list hrightNote hitems))
    | _ => exact hmember
  · rw [if_neg hop, if_neg hop]
    apply hterm.bind
    intro right right' hright
    rw [← hnote.span]
    apply (binaryType_twins op hleft.type hright.type _).bind
    intro type type' htype
    exact .pure (.binary ⟨rfl, htype, hnote.binding⟩ hleft hright)

end

/-! ### One step into a list or a query -/

theorem terms_cons_twins {e e' : Expr} {es es' : List Expr}
    (he : Twins forget (term e) (term e') (Expr.Like forget))
    (hes : Twins forget (terms es) (terms es') (List.Forall₂ (Expr.Like forget))) :
    Twins forget (terms (e :: es)) (terms (e' :: es')) (List.Forall₂ (Expr.Like forget)) := by
  rw [terms, terms]
  apply he.bind
  intro e e' he
  apply hes.bind
  intro es es' hes
  exact .pure (.cons he hes)

theorem memberTerms_cons_twins {left left' : Option SqlType} (hleft : TypeLike forget left left')
    (op : BinaryOperator) {e e' : Expr} {es es' : List Expr}
    (he : Twins forget (term e) (term e') (Expr.Like forget))
    (hes : Twins forget (memberTerms left op es) (memberTerms left' op es')
      (List.Forall₂ (Expr.Like forget))) :
    Twins forget (memberTerms left op (e :: es)) (memberTerms left' op (e' :: es'))
      (List.Forall₂ (Expr.Like forget)) := by
  rw [memberTerms, memberTerms]
  apply he.bind
  intro e e' he
  rw [← he.span_eq]
  apply (requireMember_twins hleft he.type op _).bind
  intro _ _ _
  apply hes.bind
  intro es es' hes
  exact .pure (.cons he hes)

theorem subquerySource_twins {select select' : Select} {label label' : Option Ident}
    (h : Twins forget (query (subqueryName label) select) (query (subqueryName label') select')
      (Both (Select.Like forget) Eq))
    (hlabel : Option.Rel Ident.Like label label') (span : Span) :
    Twins forget (source (.subquery select label span)) (source (.subquery select' label' span))
      (Both (Source.Like forget) (Option.Rel EntryLike)) := by
  rw [source, source]
  apply h.bind
  rintro ⟨select, table⟩ ⟨select', _⟩ ⟨hselect, rfl⟩
  apply (bindSubquery_twins hlabel table).bind
  intro _ _ _
  exact .pure ⟨.subquery hselect hlabel, .some ⟨foldCase_subqueryName hlabel, rfl⟩⟩

section

variable {table table' : Source} {rest rest' : List Join}
  (htable : Twins forget (source table) (source table')
    (Both (Source.Like forget) (Option.Rel EntryLike)))
  (hrest : Twins forget (joins rest) (joins rest')
    (Both (List.Forall₂ (Join.Like forget)) (List.Forall₂ EntryLike)))

include htable hrest

theorem joins_cons_twins (natural : Bool) (op : JoinOperator) (span : Span) :
    Twins forget (joins (⟨natural, op, table, none, span⟩ :: rest))
      (joins (⟨natural, op, table', none, span⟩ :: rest'))
      (Both (List.Forall₂ (Join.Like forget)) (List.Forall₂ EntryLike)) := by
  rw [joins, joins]
  apply htable.bind
  rintro ⟨table, entry⟩ ⟨table', entry'⟩ ⟨htable, hentry⟩
  apply hrest.bind
  rintro ⟨rest, entries⟩ ⟨rest', entries'⟩ ⟨hrest, hentries⟩
  exact .pure ⟨.cons (.mk htable .none) hrest, List.rel_append (rel_toList hentry) hentries⟩

theorem joins_cons_on_twins (natural : Bool) (op : JoinOperator) (span : Span) {on on' : Expr}
    (hspan : on.span = on'.span) (hon : Twins forget (term on) (term on') (Expr.Like forget)) :
    Twins forget (joins (⟨natural, op, table, some on, span⟩ :: rest))
      (joins (⟨natural, op, table', some on', span⟩ :: rest'))
      (Both (List.Forall₂ (Join.Like forget)) (List.Forall₂ EntryLike)) := by
  rw [joins, joins, ← hspan]
  apply htable.bind
  rintro ⟨table, entry⟩ ⟨table', entry'⟩ ⟨htable, hentry⟩
  apply (condition_twins hon _ _).bind
  intro on on' hon
  apply hrest.bind
  rintro ⟨rest, entries⟩ ⟨rest', entries'⟩ ⟨hrest, hentries⟩
  exact .pure ⟨.cons (.mk htable (.some hon)) hrest,
    List.rel_append (rel_toList hentry) hentries⟩

theorem sources_some_twins :
    Twins forget (sources (some ⟨table, rest⟩)) (sources (some ⟨table', rest'⟩))
      (Both (Option.Rel (FromClause.Like forget)) (List.Forall₂ EntryLike)) := by
  rw [sources, sources]
  apply htable.bind
  rintro ⟨first, entry⟩ ⟨first', entry'⟩ ⟨hfirst, hentry⟩
  apply hrest.bind
  rintro ⟨others, entries⟩ ⟨others', entries'⟩ ⟨hothers, hentries⟩
  exact .pure ⟨.some (.mk hfirst hothers), List.rel_append (rel_toList hentry) hentries⟩

end

section

variable {result : TableId} {hasSource : Bool} {joined joined' : List (String × TableId)}
  (hjoined : List.Forall₂ EntryLike joined joined') {rest rest' : List ResultColumn}
  (hrest : Twins forget (resultColumns result hasSource joined rest)
    (resultColumns result hasSource joined' rest')
    (Both (List.Forall₂ (ResultColumn.Like forget)) (List.Forall₂ EntryLike)))

include hjoined hrest

theorem resultColumns_star_twins (span : Span) :
    Twins forget (resultColumns result hasSource joined (.star span :: rest))
      (resultColumns result hasSource joined' (.star span :: rest'))
      (Both (List.Forall₂ (ResultColumn.Like forget)) (List.Forall₂ EntryLike)) := by
  rw [resultColumns, resultColumns]
  apply (addStar_twins result hasSource hjoined span).bind
  intro _ _ _
  apply hrest.bind
  rintro ⟨rest, aliases⟩ ⟨rest', aliases'⟩ ⟨hrest, haliases⟩
  exact .pure ⟨.cons (.star span) hrest, haliases⟩

theorem resultColumns_tableStar_twins {table table' : Ident} (htable : table.Like table') :
    Twins forget (resultColumns result hasSource joined (.tableStar table :: rest))
      (resultColumns result hasSource joined' (.tableStar table' :: rest'))
      (Both (List.Forall₂ (ResultColumn.Like forget)) (List.Forall₂ EntryLike)) := by
  rw [resultColumns, resultColumns]
  apply (addTableStar_twins result hjoined htable).bind
  intro _ _ _
  apply hrest.bind
  rintro ⟨rest, aliases⟩ ⟨rest', aliases'⟩ ⟨hrest, haliases⟩
  exact .pure ⟨.cons (.tableStar htable) hrest, haliases⟩

omit hjoined in
theorem resultColumns_expr_twins {value value' : Expr}
    (hvalue : Twins forget (term value) (term value') (Expr.Like forget))
    {label label' : Option Ident} (hlabel : Option.Rel Ident.Like label label') :
    Twins forget (resultColumns result hasSource joined (.expr value label :: rest))
      (resultColumns result hasSource joined' (.expr value' label' :: rest'))
      (Both (List.Forall₂ (ResultColumn.Like forget)) (List.Forall₂ EntryLike)) := by
  rw [resultColumns, resultColumns]
  apply hvalue.bind
  intro value value' hvalue
  apply (addResultColumn_twins result hvalue hlabel).bind
  intro entry entry' hentry
  apply hrest.bind
  rintro ⟨rest, aliases⟩ ⟨rest', aliases'⟩ ⟨hrest, haliases⟩
  exact .pure ⟨.cons (.expr hvalue hlabel) hrest,
    List.rel_append (rel_toList hentry) haliases⟩

end

theorem orderingTerms_cons_twins {expr expr' : Expr} {rest rest' : List OrderingTerm}
    (hexpr : Twins forget (term expr) (term expr') (Expr.Like forget))
    (hrest : Twins forget (orderingTerms rest) (orderingTerms rest')
      (List.Forall₂ (OrderingTerm.Like forget)))
    (direction : Option SortDirection) (nulls : Option NullsOrder) :
    Twins forget (orderingTerms (⟨expr, direction, nulls⟩ :: rest))
      (orderingTerms (⟨expr', direction, nulls⟩ :: rest'))
      (List.Forall₂ (OrderingTerm.Like forget)) := by
  rw [orderingTerms, orderingTerms]
  apply hexpr.bind
  intro expr expr' hexpr
  apply hrest.bind
  intro rest rest' hrest
  exact .pure (.cons (.mk hexpr) hrest)

theorem rowCondition_some_twins {e e' : Expr} (hspan : e.span = e'.span)
    (he : Twins forget (term e) (term e') (Expr.Like forget)) :
    Twins forget (rowCondition (some e)) (rowCondition (some e'))
      (Option.Rel (Expr.Like forget)) := by
  rw [rowCondition, rowCondition, ← hspan]
  exact (condition_twins he _ _).map fun _ _ he => .some he

theorem groups_twins_of {exprs exprs' : List Expr}
    (hexprs : Twins forget (terms exprs) (terms exprs') (List.Forall₂ (Expr.Like forget)))
    (span : Span) :
    Twins forget (groups (some ⟨exprs, none, span⟩)) (groups (some ⟨exprs', none, span⟩))
      (Option.Rel (GroupBy.Like forget)) := by
  rw [groups, groups]
  apply hexprs.bind
  intro exprs exprs' hexprs
  exact .pure (.some (.mk hexprs .none))

theorem groups_having_twins {exprs exprs' : List Expr} {having having' : Expr}
    (hexprs : Twins forget (terms exprs) (terms exprs') (List.Forall₂ (Expr.Like forget)))
    (hspan : having.span = having'.span)
    (hhaving : Twins forget (term having) (term having') (Expr.Like forget)) (span : Span) :
    Twins forget (groups (some ⟨exprs, some having, span⟩))
      (groups (some ⟨exprs', some having', span⟩)) (Option.Rel (GroupBy.Like forget)) := by
  rw [groups, groups, ← hspan]
  apply hexprs.bind
  intro exprs exprs' hexprs
  apply (condition_twins hhaving _ _).bind
  intro having having' hhaving
  exact .pure (.some (.mk hexprs (.some hhaving)))

theorem order_some_twins {aliases aliases' : List (String × ColumnId)}
    (haliases : List.Forall₂ EntryLike aliases aliases') {items items' : List OrderingTerm}
    (hitems : Twins forget (orderingTerms items) (orderingTerms items')
      (List.Forall₂ (OrderingTerm.Like forget))) (span : Span) :
    Twins forget (order aliases (some ⟨items, span⟩)) (order aliases' (some ⟨items', span⟩))
      (Option.Rel (OrderBy.Like forget)) := by
  rw [order, order]
  refine .within ((bindAliases_twins haliases).bind fun _ _ _ => ?_) span
  apply hitems.bind
  intro items items' hitems
  exact .pure (.some (.mk hitems))

theorem limits_twins_of {count count' : Expr}
    (hcount : Twins forget (term count) (term count') (Expr.Like forget)) (span : Span) :
    Twins forget (limits (some ⟨count, none, span⟩)) (limits (some ⟨count', none, span⟩))
      (Option.Rel (Limit.Like forget)) := by
  rw [limits, limits]
  apply hcount.bind
  intro count count' hcount
  exact refuse_twins (requireInteger_twins hcount) (.some (.mk hcount .none))

theorem limits_offset_twins {count count' offset offset' : Expr}
    (hcount : Twins forget (term count) (term count') (Expr.Like forget))
    (hoffset : Twins forget (term offset) (term offset') (Expr.Like forget)) (span : Span) :
    Twins forget (limits (some ⟨count, some offset, span⟩))
      (limits (some ⟨count', some offset', span⟩)) (Option.Rel (Limit.Like forget)) := by
  rw [limits, limits]
  apply hcount.bind
  intro count count' hcount
  apply (requireInteger_twins hcount).bind
  intro _ _ _
  apply hoffset.bind
  intro offset offset' hoffset
  exact refuse_twins (requireInteger_twins hoffset) (.some (.mk hcount (.some hoffset)))

/-! ### Expressions and queries -/

mutual

theorem term_twins : (e : Expr) → ∀ {e' : Expr}, e.Like forget e' →
    Twins forget (term e) (term e') (Expr.Like forget)
  | .constant _ _, _, .constant hnote =>
    .pure (.constant ⟨hnote.span, Std.Refl.refl _, hnote.binding⟩)
  | .name _ _, _, .name hnote hident => name_twins hnote hident
  | .dot _ _ _, _, .dot hnote hleft hright => dot_twins hnote hleft hright
  | .binary _ left op right, _, .binary hnote hleft hright =>
    binary_twins hnote op (term_twins left hleft) hright (term_twins right hright)
      (inner_twins op right hright)
  | .unary _ op operand, _, .unary hnote hoperand =>
    unary_twins hnote op (term_twins operand hoperand)
  | .call _ _ args, _, .call hnote hfunction hargs =>
    call_twins hnote hfunction (terms_twins args hargs)
  | .callStar _ _ star, _, .callStar hnote hfunction => callStar_twins hnote hfunction star
  | .brackets _ inner, _, .brackets hnote hinner => brackets_twins hnote (term_twins inner hinner)
  | .list _ items, _, .list hnote hitems => list_twins hnote (terms_twins items hitems)
  | .subquery _ select, _, .subquery hnote hselect =>
    subquery_twins hnote (query_twins rfl select hselect)
termination_by structural e => e

theorem inner_twins (op : BinaryOperator) : (e : Expr) → ∀ {e' : Expr}, e.Like forget e' →
    InnerTwins forget op e e'
  | .list _ items, _, .list _ hitems => fun _ _ hleft => memberTerms_twins hleft op items hitems
  | .subquery _ select, _, .subquery _ hselect => query_twins rfl select hselect
  | .constant _ _, _, _ => trivial
  | .name _ _, _, _ => trivial
  | .dot _ _ _, _, _ => trivial
  | .binary _ _ _ _, _, _ => trivial
  | .unary _ _ _, _, _ => trivial
  | .call _ _ _, _, _ => trivial
  | .callStar _ _ _, _, _ => trivial
  | .brackets _ _, _, _ => trivial
termination_by structural e => e

theorem terms_twins : (es : List Expr) → ∀ {es' : List Expr},
    List.Forall₂ (Expr.Like forget) es es' →
      Twins forget (terms es) (terms es') (List.Forall₂ (Expr.Like forget))
  | [], _, .nil => .pure .nil
  | e :: es, _, .cons he hes => terms_cons_twins (term_twins e he) (terms_twins es hes)
termination_by structural es => es

theorem memberTerms_twins {left left' : Option SqlType} (hleft : TypeLike forget left left')
    (op : BinaryOperator) : (es : List Expr) → ∀ {es' : List Expr},
      List.Forall₂ (Expr.Like forget) es es' →
        Twins forget (memberTerms left op es) (memberTerms left' op es')
          (List.Forall₂ (Expr.Like forget))
  | [], _, .nil => .pure .nil
  | e :: es, _, .cons he hes =>
    memberTerms_cons_twins hleft op (term_twins e he) (memberTerms_twins hleft op es hes)
termination_by structural es => es

theorem source_twins : (s : Source) → ∀ {s' : Source}, s.Like forget s' →
    Twins forget (source s) (source s') (Both (Source.Like forget) (Option.Rel EntryLike))
  | .table _ _ _, _, .table hname hlabel => tableSource_twins hname hlabel
  | .subquery select _ span, _, .subquery hselect hlabel =>
    subquerySource_twins (query_twins (foldCase_subqueryName hlabel) select hselect) hlabel span
termination_by structural s => s

theorem joins_twins : (js : List Join) → ∀ {js' : List Join},
    List.Forall₂ (Join.Like forget) js js' →
      Twins forget (joins js) (joins js')
        (Both (List.Forall₂ (Join.Like forget)) (List.Forall₂ EntryLike))
  | [], _, .nil => .pure ⟨.nil, .nil⟩
  | ⟨natural, op, table, none, span⟩ :: rest, _, .cons (.mk htable .none) hrest =>
    joins_cons_twins (source_twins table htable) (joins_twins rest hrest) natural op span
  | ⟨natural, op, table, some on, span⟩ :: rest, _, .cons (.mk htable (.some hon)) hrest =>
    joins_cons_on_twins (source_twins table htable) (joins_twins rest hrest) natural op span
      hon.span_eq (term_twins on hon)
termination_by structural js => js

theorem resultColumns_twins (result : TableId) (hasSource : Bool)
    {joined joined' : List (String × TableId)} (hjoined : List.Forall₂ EntryLike joined joined') :
    (columns : List ResultColumn) → ∀ {columns' : List ResultColumn},
      List.Forall₂ (ResultColumn.Like forget) columns columns' →
        Twins forget (resultColumns result hasSource joined columns)
          (resultColumns result hasSource joined' columns')
          (Both (List.Forall₂ (ResultColumn.Like forget)) (List.Forall₂ EntryLike))
  | [], _, .nil => .pure ⟨.nil, .nil⟩
  | .star span :: rest, _, .cons (.star _) hrest =>
    resultColumns_star_twins hjoined (resultColumns_twins result hasSource hjoined rest hrest) span
  | .tableStar _ :: rest, _, .cons (.tableStar htable) hrest =>
    resultColumns_tableStar_twins hjoined
      (resultColumns_twins result hasSource hjoined rest hrest) htable
  | .expr value _ :: rest, _, .cons (.expr hvalue hlabel) hrest =>
    resultColumns_expr_twins (resultColumns_twins result hasSource hjoined rest hrest)
      (term_twins value hvalue) hlabel
termination_by structural columns => columns

theorem orderingTerms_twins : (items : List OrderingTerm) → ∀ {items' : List OrderingTerm},
    List.Forall₂ (OrderingTerm.Like forget) items items' →
      Twins forget (orderingTerms items) (orderingTerms items')
        (List.Forall₂ (OrderingTerm.Like forget))
  | [], _, .nil => .pure .nil
  | ⟨expr, direction, nulls⟩ :: rest, _, .cons (.mk hexpr) hrest =>
    orderingTerms_cons_twins (term_twins expr hexpr) (orderingTerms_twins rest hrest)
      direction nulls
termination_by structural items => items

theorem sources_twins : (clause : Option FromClause) → ∀ {clause' : Option FromClause},
    Option.Rel (FromClause.Like forget) clause clause' →
      Twins forget (sources clause) (sources clause')
        (Both (Option.Rel (FromClause.Like forget)) (List.Forall₂ EntryLike))
  | none, _, .none => .pure ⟨.none, .nil⟩
  | some ⟨first, others⟩, _, .some (.mk hfirst hothers) =>
    sources_some_twins (source_twins first hfirst) (joins_twins others hothers)
termination_by structural clause => clause

theorem rowCondition_twins : (test : Option Expr) → ∀ {test' : Option Expr},
    Option.Rel (Expr.Like forget) test test' →
      Twins forget (rowCondition test) (rowCondition test') (Option.Rel (Expr.Like forget))
  | none, _, .none => .pure .none
  | some e, _, .some he => rowCondition_some_twins he.span_eq (term_twins e he)
termination_by structural test => test

theorem groups_twins : (clause : Option GroupBy) → ∀ {clause' : Option GroupBy},
    Option.Rel (GroupBy.Like forget) clause clause' →
      Twins forget (groups clause) (groups clause') (Option.Rel (GroupBy.Like forget))
  | none, _, .none => .pure .none
  | some ⟨exprs, none, span⟩, _, .some (.mk hexprs .none) =>
    groups_twins_of (terms_twins exprs hexprs) span
  | some ⟨exprs, some having, span⟩, _, .some (.mk hexprs (.some hhaving)) =>
    groups_having_twins (terms_twins exprs hexprs) hhaving.span_eq (term_twins having hhaving) span
termination_by structural clause => clause

theorem order_twins {aliases aliases' : List (String × ColumnId)}
    (haliases : List.Forall₂ EntryLike aliases aliases') : (clause : Option OrderBy) →
      ∀ {clause' : Option OrderBy}, Option.Rel (OrderBy.Like forget) clause clause' →
        Twins forget (order aliases clause) (order aliases' clause')
          (Option.Rel (OrderBy.Like forget))
  | none, _, .none => .pure .none
  | some ⟨items, span⟩, _, .some (.mk hitems) =>
    order_some_twins haliases (orderingTerms_twins items hitems) span
termination_by structural clause => clause

theorem limits_twins : (clause : Option Limit) → ∀ {clause' : Option Limit},
    Option.Rel (Limit.Like forget) clause clause' →
      Twins forget (limits clause) (limits clause') (Option.Rel (Limit.Like forget))
  | none, _, .none => .pure .none
  | some ⟨count, none, span⟩, _, .some (.mk hcount .none) =>
    limits_twins_of (term_twins count hcount) span
  | some ⟨count, some offset, span⟩, _, .some (.mk hcount (.some hoffset)) =>
    limits_offset_twins (term_twins count hcount) (term_twins offset hoffset) span
termination_by structural clause => clause

theorem query_twins {name name' : String} (hname : foldCase name = foldCase name') :
    (s : Select) → ∀ {s' : Select}, s.Like forget s' →
      Twins forget (query name s) (query name' s') (Both (Select.Like forget) Eq)
  | ⟨_, columns, clause, test, groupBy, orderBy, limit, span, _⟩, _,
      .mk hcolumns hclause htest hgroupBy horderBy hlimit => by
    rw [query, query]
    refine .within ?_ span
    apply (sources_twins clause hclause).bind
    rintro ⟨clause, joined⟩ ⟨clause', joined'⟩ ⟨hclause, hjoined⟩
    apply (addTable_twins hname .derived).bind
    rintro result _ rfl
    have hsome : clause.isSome = clause'.isSome := by cases hclause <;> rfl
    dsimp only at hclause ⊢
    rw [hsome]
    apply (resultColumns_twins result _ hjoined columns hcolumns).bind
    rintro ⟨columns, aliases⟩ ⟨columns', aliases'⟩ ⟨hcolumns, haliases⟩
    apply (rowCondition_twins test htest).bind
    intro test test' htest
    apply (groups_twins groupBy hgroupBy).bind
    intro groupBy groupBy' hgroupBy
    apply (order_twins haliases orderBy horderBy).bind
    intro orderBy orderBy' horderBy
    apply (limits_twins limit hlimit).bind
    intro limit limit' hlimit
    exact .pure ⟨.mk hcolumns hclause htest hgroupBy horderBy hlimit, rfl⟩
termination_by structural s => s

end

end SqlAnalysis.Resolver
