import SqlAnalysis.Proofs.Pointwise
import SqlAnalysis.Proofs.Resolution.Evolution
import SqlAnalysis.Proofs.Syntax.Clearing
import SqlAnalysis.Resolution.Statement

/-!
# Resolution only annotates

Whatever the state it starts from and whatever it complains about, a resolver gives the
tree it was given, with nothing changed but what resolution fills in.
-/
namespace SqlAnalysis

namespace Resolver

variable {α β γ : Type}

/-- Whether every result of a resolver has a property. -/
def Yields (r : Resolver α) (Q : α → Prop) : Prop :=
  ∀ s, Q (r.run s).1

namespace Yields

variable {r : Resolver α} {f : α → Resolver β} {Q : α → Prop} {R : β → Prop}

theorem pure {a : α} (h : Q a) : Yields (pure a) Q :=
  fun _ => h

theorem bind (hr : Yields r Q) (hf : ∀ a, Q a → Yields (f a) R) : Yields (r >>= f) R :=
  fun s => hf _ (hr s) _

/-- The result of the first resolver does not matter. -/
theorem after (hf : ∀ a, Yields (f a) R) : Yields (r >>= f) R :=
  fun _ => hf _ _

theorem map (hr : Yields r Q) {g : α → β} (hg : ∀ a, Q a → R (g a)) : Yields (g <$> r) R :=
  hr.bind fun a ha => pure (hg a ha)

theorem within (hr : Yields r Q) (span : Span) : Yields (within span r) Q :=
  fun s => hr (s.enter span)

/-- A list whose members keep something keeps it in their order. -/
theorem mapM {f : α → Resolver β} {g : α → γ} {g' : β → γ}
    (h : ∀ a, Yields (f a) fun b => g' b = g a) (as : List α) :
    Yields (as.mapM f) fun bs => bs.map g' = as.map g := by
  induction as with
  | nil => exact pure rfl
  | cons a as ih =>
    rw [List.mapM_cons]
    refine (h a).bind fun b hb => ih.bind fun bs hbs => pure ?_
    rw [List.map_cons, List.map_cons, hb, hbs]

end Yields

theorem condition_yields {clause : String} {span : Span} {r : Resolver Expr} {Q : Expr → Prop}
    (hr : Yields r Q) : Yields (condition clause span r) Q :=
  .within (hr.bind fun _ he => .after fun _ => .pure he) span

theorem tableSource_yields (name : Ident) (label : Option Ident) (binding : Option TableId) :
    Yields (tableSource name label) fun result =>
      result.1.cleared = (Source.table name label binding).cleared := by
  unfold tableSource
  refine .after fun found => ?_
  split <;> exact .after fun _ => .pure rfl

theorem dot_yields (note : Note) (left : Expr) (right : Ident) :
    Yields (dot note left right) fun e => e.cleared = (Expr.dot note left right).cleared := by
  unfold dot
  split
  · refine .after fun found => ?_
    split
    · exact .after fun _ => .after fun _ => .pure rfl
    · exact .pure rfl
  · exact .after fun _ => .pure rfl

/-! ### Expressions and queries -/

mutual

theorem term_yields : (e : Expr) → Yields (term e) fun e' => e'.cleared = e.cleared
  | .constant _ _ => by
    rw [term]
    exact .pure rfl
  | .name _ _ => by
    rw [term]
    exact .after fun _ => .after fun _ => .pure rfl
  | .dot note left right => by
    rw [term]
    exact dot_yields note left right
  | .binary note left op right => by
    rw [term]
    refine (term_yields left).bind fun left' hleft => ?_
    have hright := term_yields right
    dsimp only
    split
    · cases right with
      | subquery rightNote select =>
        refine (query_yields "subquery" select).bind fun result hselect => ?_
        refine .after fun _ => .after fun _ => .pure ?_
        simp only [Expr.cleared, Note.cleared, hleft, hselect]
      | list rightNote items =>
        refine (memberTerms_yields left'.type op items).bind fun items' hitems => ?_
        refine .pure ?_
        simp only [Expr.cleared, Note.cleared, hleft, hitems]
      | _ =>
        refine hright.bind fun right' hright' => ?_
        refine .after fun _ => .pure ?_
        simp only [Expr.cleared, Note.cleared, hleft, hright']
    · refine hright.bind fun right' hright' => ?_
      refine .after fun _ => .pure ?_
      simp only [Expr.cleared, Note.cleared, hleft, hright']
  | .unary note op operand => by
    rw [term]
    refine (term_yields operand).bind fun operand' hoperand => ?_
    refine .after fun _ => .pure ?_
    simp only [Expr.cleared, Note.cleared, hoperand]
  | .call note function args => by
    rw [term]
    refine (terms_yields args).bind fun args' hargs => ?_
    refine .after fun _ => .pure ?_
    simp only [Expr.cleared, Note.cleared, hargs]
  | .callStar note function star => by
    rw [term]
    exact .after fun _ => .pure rfl
  | .brackets note inner => by
    rw [term]
    refine (term_yields inner).bind fun inner' hinner => ?_
    refine .pure ?_
    simp only [Expr.cleared, Note.cleared, hinner]
  | .list note items => by
    rw [term]
    refine (terms_yields items).bind fun items' hitems => ?_
    refine .pure ?_
    simp only [Expr.cleared, hitems]
  | .subquery note select => by
    rw [term]
    refine (query_yields "subquery" select).bind fun result hselect => ?_
    refine .after fun _ => .pure ?_
    simp only [Expr.cleared, Note.cleared, hselect]

theorem terms_yields :
    (es : List Expr) → Yields (terms es) fun es' => clearedExprs es' = clearedExprs es
  | [] => by
    rw [terms]
    exact .pure rfl
  | e :: es => by
    rw [terms]
    refine (term_yields e).bind fun e' he => ?_
    refine (terms_yields es).bind fun es' hes => ?_
    refine .pure ?_
    simp only [clearedExprs, he, hes]

theorem memberTerms_yields (left : Option SqlType) (op : BinaryOperator) :
    (es : List Expr) → Yields (memberTerms left op es) fun es' =>
      clearedExprs es' = clearedExprs es
  | [] => by
    rw [memberTerms]
    exact .pure rfl
  | e :: es => by
    rw [memberTerms]
    refine (term_yields e).bind fun e' he => ?_
    refine .after fun _ => ?_
    refine (memberTerms_yields left op es).bind fun es' hes => ?_
    refine .pure ?_
    simp only [clearedExprs, he, hes]

theorem source_yields :
    (s : Source) → Yields (source s) fun result => result.1.cleared = s.cleared
  | .table name label binding => by
    rw [source]
    exact tableSource_yields name label binding
  | .subquery select label span => by
    rw [source]
    refine (query_yields (subqueryName label) select).bind fun result hselect => ?_
    refine .after fun _ => .pure ?_
    simp only [Source.cleared, hselect]

theorem joins_yields :
    (js : List Join) → Yields (joins js) fun result => clearedJoins result.1 = clearedJoins js
  | [] => by
    rw [joins]
    exact .pure rfl
  | ⟨_, _, table, none, _⟩ :: rest => by
    rw [joins]
    refine (source_yields table).bind fun result htable => ?_
    refine (joins_yields rest).bind fun results hrest => ?_
    refine .pure ?_
    simp only [clearedJoins, htable, hrest]
  | ⟨_, _, table, some on, _⟩ :: rest => by
    rw [joins]
    refine (source_yields table).bind fun result htable => ?_
    refine (condition_yields (term_yields on)).bind fun on' hon => ?_
    refine (joins_yields rest).bind fun results hrest => ?_
    refine .pure ?_
    simp only [clearedJoins, clearedOption, htable, hon, hrest]

theorem resultColumns_yields (result : TableId) (hasSource : Bool)
    (joined : List (String × TableId)) :
    (columns : List ResultColumn) →
      Yields (resultColumns result hasSource joined columns) fun result =>
        clearedColumns result.1 = clearedColumns columns
  | [] => by
    rw [resultColumns]
    exact .pure rfl
  | .star _ :: rest => by
    rw [resultColumns]
    refine .after fun _ => ?_
    refine (resultColumns_yields result hasSource joined rest).bind fun results hrest => ?_
    refine .pure ?_
    simp only [clearedColumns, hrest]
  | .tableStar _ :: rest => by
    rw [resultColumns]
    refine .after fun _ => ?_
    refine (resultColumns_yields result hasSource joined rest).bind fun results hrest => ?_
    refine .pure ?_
    simp only [clearedColumns, hrest]
  | .expr value _ :: rest => by
    rw [resultColumns]
    refine (term_yields value).bind fun value' hvalue => ?_
    refine .after fun _ => ?_
    refine (resultColumns_yields result hasSource joined rest).bind fun results hrest => ?_
    refine .pure ?_
    simp only [clearedColumns, hvalue, hrest]

theorem orderingTerms_yields :
    (items : List OrderingTerm) → Yields (orderingTerms items) fun items' =>
      clearedTerms items' = clearedTerms items
  | [] => by
    rw [orderingTerms]
    exact .pure rfl
  | ⟨expr, _, _⟩ :: rest => by
    rw [orderingTerms]
    refine (term_yields expr).bind fun expr' hexpr => ?_
    refine (orderingTerms_yields rest).bind fun rest' hrest => ?_
    refine .pure ?_
    simp only [clearedTerms, hexpr, hrest]

theorem sources_yields :
    (clause : Option FromClause) → Yields (sources clause) fun result =>
      clearedFrom result.1 = clearedFrom clause
  | none => by
    rw [sources]
    exact .pure rfl
  | some ⟨first, others⟩ => by
    rw [sources]
    refine (source_yields first).bind fun result hfirst => ?_
    refine (joins_yields others).bind fun results hothers => ?_
    refine .pure ?_
    simp only [clearedFrom, hfirst, hothers]

theorem rowCondition_yields :
    (test : Option Expr) → Yields (rowCondition test) fun test' =>
      clearedOption test' = clearedOption test
  | none => by
    rw [rowCondition]
    exact .pure rfl
  | some e => by
    rw [rowCondition]
    refine (condition_yields (term_yields e)).map fun e' he => ?_
    simp only [clearedOption, he]

theorem groups_yields :
    (clause : Option GroupBy) → Yields (groups clause) fun clause' =>
      clearedGroupBy clause' = clearedGroupBy clause
  | none => by
    rw [groups]
    exact .pure rfl
  | some ⟨exprs, none, _⟩ => by
    rw [groups]
    refine (terms_yields exprs).bind fun exprs' hexprs => ?_
    refine .pure ?_
    simp only [clearedGroupBy, clearedOption, hexprs]
  | some ⟨exprs, some having, _⟩ => by
    rw [groups]
    refine (terms_yields exprs).bind fun exprs' hexprs => ?_
    refine (condition_yields (term_yields having)).bind fun having' hhaving => ?_
    refine .pure ?_
    simp only [clearedGroupBy, clearedOption, hexprs, hhaving]

theorem order_yields (aliases : List (String × ColumnId)) :
    (clause : Option OrderBy) → Yields (order aliases clause) fun clause' =>
      clearedOrderBy clause' = clearedOrderBy clause
  | none => by
    rw [order]
    exact .pure rfl
  | some ⟨items, span⟩ => by
    rw [order]
    refine .within (.after fun _ => ?_) span
    refine (orderingTerms_yields items).bind fun items' hitems => ?_
    refine .pure ?_
    simp only [clearedOrderBy, hitems]

theorem limits_yields :
    (clause : Option Limit) → Yields (limits clause) fun clause' =>
      clearedLimit clause' = clearedLimit clause
  | none => by
    rw [limits]
    exact .pure rfl
  | some ⟨count, none, _⟩ => by
    rw [limits]
    refine (term_yields count).bind fun count' hcount => ?_
    refine .after fun _ => .pure ?_
    simp only [clearedLimit, clearedOption, hcount]
  | some ⟨count, some offset, _⟩ => by
    rw [limits]
    refine (term_yields count).bind fun count' hcount => ?_
    refine .after fun _ => ?_
    refine (term_yields offset).bind fun offset' hoffset => ?_
    refine .after fun _ => .pure ?_
    simp only [clearedLimit, clearedOption, hcount, hoffset]

theorem query_yields (name : String) :
    (s : Select) → Yields (query name s) fun result => result.1.cleared = s.cleared
  | ⟨distinct, columns, clause, test, groupBy, orderBy, limit, span, _⟩ => by
    rw [query]
    refine .within ?_ span
    refine (sources_yields clause).bind fun sources hsources => ?_
    refine .after fun result => ?_
    refine (resultColumns_yields result _ _ columns).bind fun entries hcolumns => ?_
    refine (rowCondition_yields test).bind fun test' htest => ?_
    refine (groups_yields groupBy).bind fun groupBy' hgroupBy => ?_
    refine (order_yields _ orderBy).bind fun orderBy' horderBy => ?_
    refine (limits_yields limit).bind fun limit' hlimit => ?_
    refine .pure ?_
    simp only [Select.cleared, hsources, hcolumns, htest, hgroupBy, horderBy, hlimit]

end

/-! ### Statements that change rows -/

theorem storedTerms_yields (columns : List ColumnId) (es : List Expr) :
    Yields (storedTerms columns es) fun es' => clearedExprs es' = clearedExprs es := by
  induction es generalizing columns with
  | nil =>
    unfold storedTerms
    exact .pure rfl
  | cons e es ih =>
    cases columns with
    | nil =>
      refine (term_yields e).bind fun e' he => (ih []).bind fun es' hes => .pure ?_
      simp only [clearedExprs, he, hes]
    | cons column columns =>
      refine (term_yields e).bind fun e' he => .after fun _ => ?_
      refine (ih columns).bind fun es' hes => .pure ?_
      simp only [clearedExprs, he, hes]

theorem valueRow_yields (targets : List ColumnId) (complete : Bool) (row : ValueRow) :
    Yields (valueRow targets complete row) fun row' => row'.cleared = row.cleared := by
  have hrow : ∀ columns, Yields (do return { row with values := ← storedTerms columns row.values })
      fun row' => row'.cleared = row.cleared := by
    refine fun columns => (storedTerms_yields columns row.values).bind fun values hvalues => .pure ?_
    simp only [ValueRow.cleared, hvalues]
  unfold valueRow
  split
  · exact .after fun _ => hrow targets
  · exact hrow []

theorem insertRows_yields (targets : List ColumnId) (complete : Bool) (rows : List ValueRow) :
    Yields (insertRows targets complete rows) fun rows' =>
      rows'.map ValueRow.cleared = rows.map ValueRow.cleared := by
  cases rows with
  | nil => exact .pure rfl
  | cons first rest => exact .within (.mapM (valueRow_yields targets complete) _) _

theorem insert_yields (s : Insert) : Yields (insert s) fun s' => s'.cleared = s.cleared := by
  unfold insert
  refine .after fun found => ?_
  split
  · exact .pure rfl
  · refine .after fun targets => ?_
    refine (insertRows_yields targets.1 targets.2 s.rows).bind fun rows hrows => .pure ?_
    simp only [Insert.cleared, hrows]

theorem assignment_yields (table : TableId) (a : Assignment) :
    Yields (assignment table a) fun a' => a'.cleared = a.cleared := by
  unfold assignment
  refine .after fun column => (term_yields a.value).bind fun value hvalue => ?_
  have hresult : ({ a with binding := column, value := value } : Assignment).cleared =
      a.cleared := by
    simp only [Assignment.cleared, hvalue]
  split
  · exact .after fun _ => .pure hresult
  · exact .pure hresult

theorem update_yields (s : Update) : Yields (update s) fun s' => s'.cleared = s.cleared := by
  unfold update
  refine .after fun found => ?_
  split
  · exact .pure rfl
  · refine (Yields.mapM (assignment_yields _) s.assignments).bind fun assignments hassignments => ?_
    refine (rowCondition_yields s.condition).bind fun condition hcondition => .pure ?_
    simp only [Update.cleared, hassignments, hcondition]

theorem delete_yields (s : Delete) : Yields (delete s) fun s' => s'.cleared = s.cleared := by
  unfold delete
  refine .after fun found => ?_
  split
  · exact .pure rfl
  · refine (rowCondition_yields s.condition).bind fun condition hcondition => .pure ?_
    simp only [Delete.cleared, hcondition]

/-! ### Tables -/

theorem declaredType?_yields (written : Option TypeName) :
    Yields (declaredType? written) fun type =>
      type = written.bind fun t => (SqlType.ofParts t.name t.params).toOption := by
  cases written with
  | none => exact .pure rfl
  | some t =>
    unfold declaredType?
    dsimp only [Option.bind_some]
    split
    · exact .pure (by simp [*, Except.toOption])
    · exact .after fun _ => .pure (by simp [*, Except.toOption])

theorem defineColumn_yields (table : TableId) (d : ColumnDef) :
    Yields (defineColumn table d) fun result =>
      result.1.cleared = d.cleared ∧ result.1.IsTypedAsWritten := by
  unfold defineColumn
  refine (declaredType?_yields d.typeName).bind fun type htype => ?_
  exact .after fun _ => .pure ⟨rfl, .inr htype⟩

theorem columnRule_yields (name : Ident) (column : ColumnId) (rule : ColumnRule) :
    Yields (columnRule name column rule) fun rule' => rule'.cleared = rule.cleared := by
  cases rule with
  | default value =>
    refine (term_yields value).bind fun value' hvalue => .after fun _ => .pure ?_
    simp only [ColumnRule.cleared, hvalue]
  | check e =>
    refine (condition_yields (term_yields e)).bind fun e' he => .pure ?_
    simp only [ColumnRule.cleared, he]
  | references clause => exact .after fun _ => .pure rfl
  | _ => exact .pure rfl

/-- The first column with what resolution fills in. If its type was that of the
definition, it still is. -/
structure Annotated (d d' : ColumnDef) : Prop where
  cleared : d'.cleared = d.cleared
  typed : d.IsTypedAsWritten → d'.IsTypedAsWritten

theorem Annotated.refl (d : ColumnDef) : Annotated d d :=
  ⟨rfl, id⟩

theorem Annotated.trans {d d' d'' : ColumnDef} (h : Annotated d d') (h' : Annotated d' d'') :
    Annotated d d'' :=
  ⟨h'.cleared.trans h.cleared, fun hd => h'.typed (h.typed hd)⟩

theorem columnRules_yields (d : ColumnDef) : Yields (columnRules d) (Annotated d) := by
  unfold columnRules
  split
  · exact .pure (.refl d)
  · next column _ =>
    have hconstraint : ∀ c : ColumnConstraint,
        Yields (do return { c with rule := ← columnRule d.name column c.rule }) fun c' =>
          c'.cleared = c.cleared := by
      refine fun c => (columnRule_yields d.name column c.rule).bind fun rule hrule => .pure ?_
      simp only [ColumnConstraint.cleared, hrule]
    refine (Yields.mapM hconstraint d.constraints).bind fun constraints hconstraints => ?_
    refine .pure ⟨?_, id⟩
    simp only [ColumnDef.cleared, hconstraints]

/-- Of two columns with one name the second stays as it is. -/
theorem defineColumns_yields (table : TableId) (seen : List String) (ds : List ColumnDef) :
    Yields (defineColumns table seen ds) (List.Forall₂ Annotated ds) := by
  induction ds generalizing seen with
  | nil => exact .pure .nil
  | cons d ds ih =>
    unfold defineColumns
    dsimp only
    split
    · exact .after fun _ => (ih _).bind fun ds' hds => .pure (.cons (.refl d) hds)
    · refine (defineColumn_yields table d).bind fun result hd => ?_
      exact (ih _).bind fun ds' hds => .pure (.cons ⟨hd.1, fun _ => hd.2⟩ hds)

theorem allColumnRules_yields (ds : List ColumnDef) :
    Yields (ds.mapM columnRules) (List.Forall₂ Annotated ds) := by
  induction ds with
  | nil => exact .pure .nil
  | cons d ds ih =>
    rw [List.mapM_cons]
    exact (columnRules_yields d).bind fun d' hd => ih.bind fun ds' hds => .pure (.cons hd hds)

theorem Annotated.map_cleared {ds ds' : List ColumnDef} (h : List.Forall₂ Annotated ds ds') :
    ds'.map ColumnDef.cleared = ds.map ColumnDef.cleared :=
  map_eq_of_forall₂ (h.imp fun _ _ hd => hd.cleared)

theorem Annotated.forall_typed {ds ds' : List ColumnDef} (h : List.Forall₂ Annotated ds ds')
    (htyped : ∀ d ∈ ds, d.IsTypedAsWritten) : ∀ d ∈ ds', d.IsTypedAsWritten := by
  induction h with
  | nil => exact htyped
  | cons hd _ ih =>
    obtain ⟨hfirst, hrest⟩ := List.forall_mem_cons.mp htyped
    exact List.forall_mem_cons.mpr ⟨hd.typed hfirst, ih hrest⟩

theorem tableRule_yields (table : TableId) (rule : TableRule) :
    Yields (tableRule table rule) fun rule' => rule'.cleared = rule.cleared := by
  cases rule with
  | check e =>
    refine (condition_yields (term_yields e)).bind fun e' he => .pure ?_
    simp only [TableRule.cleared, he]
  | foreignKey columns clause => exact .after fun _ => .after fun _ => .pure rfl
  | unique columns => exact .after fun _ => .pure rfl
  | primaryKey columns => exact .pure rfl

/-- However it ends, the table is still what was to be created. -/
theorem createTable_yields (s : CreateTable) :
    Yields (createTable s) fun s' => s'.cleared = s.cleared ∧
      (s.IsTypedAsWritten → s'.IsTypedAsWritten) := by
  unfold createTable
  refine .after fun catalog => ?_
  split
  · split
    · exact .after fun _ => .pure ⟨rfl, id⟩
    · exact .pure ⟨rfl, id⟩
  · refine .after fun table => (defineColumns_yields table [] s.columns).bind fun ds hds => ?_
    refine .after fun _ => .after fun _ => (allColumnRules_yields ds).bind fun ds' hds' => ?_
    have hconstraint : ∀ c : TableConstraint,
        Yields (do return { c with rule := ← tableRule table c.rule }) fun c' =>
          c'.cleared = c.cleared := by
      refine fun c => (tableRule_yields table c.rule).bind fun rule hrule => .pure ?_
      simp only [TableConstraint.cleared, hrule]
    refine (Yields.mapM hconstraint s.constraints).bind fun constraints hconstraints => .pure ?_
    refine ⟨?_, fun htyped => ?_⟩
    · have hcolumns := (Annotated.map_cleared hds').trans (Annotated.map_cleared hds)
      simp only [CreateTable.cleared, hcolumns, hconstraints]
    · exact Annotated.forall_typed hds' (Annotated.forall_typed hds htyped)

theorem alterAction_yields (table : TableId) (action : AlterAction) :
    Yields (alterAction table action) fun action' => action'.cleared = action.cleared := by
  cases action with
  | addColumn d =>
    unfold alterAction
    refine .after fun catalog => ?_
    split
    · exact .after fun _ => .pure rfl
    · refine (defineColumn_yields table d).bind fun result hd => .after fun _ => ?_
      refine (columnRules_yields result.1).bind fun d' hd' => .pure ?_
      simp only [AlterAction.cleared, hd'.cleared, hd.1]
  | dropColumn column =>
    refine .after fun found => ?_
    split
    · exact .after fun _ => .pure rfl
    · exact .pure rfl
  | renameColumn column newName =>
    refine .after fun found => ?_
    split
    · refine .after fun catalog => ?_
      split <;> exact .after fun _ => .pure rfl
    · exact .pure rfl
  | renameTo newName =>
    refine .after fun catalog => ?_
    split <;> exact .after fun _ => .pure rfl

theorem alterTable_yields (s : AlterTable) :
    Yields (alterTable s) fun s' => s'.cleared = s.cleared := by
  unfold alterTable
  refine .after fun found => ?_
  split
  · exact .pure rfl
  · refine (alterAction_yields _ s.action).bind fun action haction => .pure ?_
    simp only [AlterTable.cleared, haction]

theorem dropTable_yields (s : DropTable) :
    Yields (dropTable s) fun s' => s'.cleared = s.cleared := by
  unfold dropTable
  refine .after fun catalog => ?_
  split
  · exact .pure rfl
  · refine .after fun found => ?_
    split
    · exact .pure rfl
    · exact .after fun _ => .pure rfl

theorem statementBody_yields (body : StatementBody) :
    Yields (statementBody body) fun body' => body'.cleared = body.cleared ∧
      (body.IsTypedAsWritten → body'.IsTypedAsWritten) := by
  cases body with
  | select s =>
    refine (query_yields "result" s).bind fun result hs => .pure ⟨?_, id⟩
    simp only [StatementBody.cleared, hs]
  | insert s =>
    refine (insert_yields s).bind fun s' hs => .pure ⟨?_, id⟩
    simp only [StatementBody.cleared, hs]
  | update s =>
    refine (update_yields s).bind fun s' hs => .pure ⟨?_, id⟩
    simp only [StatementBody.cleared, hs]
  | delete s =>
    refine (delete_yields s).bind fun s' hs => .pure ⟨?_, id⟩
    simp only [StatementBody.cleared, hs]
  | createTable s =>
    refine (createTable_yields s).bind fun s' hs => .pure ⟨?_, hs.2⟩
    simp only [StatementBody.cleared, hs.1]
  | alterTable s =>
    refine (alterTable_yields s).bind fun s' hs => .pure ⟨?_, id⟩
    simp only [StatementBody.cleared, hs]
  | dropTable s =>
    refine (dropTable_yields s).bind fun s' hs => .pure ⟨?_, id⟩
    simp only [StatementBody.cleared, hs]

theorem statement_yields (s : Statement) :
    Yields (statement s) fun s' => s'.cleared = s.cleared ∧
      (s.body.IsTypedAsWritten → s'.body.IsTypedAsWritten) := by
  refine .within ((statementBody_yields s.body).bind fun body hbody => .pure ⟨?_, hbody.2⟩) s.span
  simp only [Statement.cleared, hbody.1]

theorem statements_yield (statements : List Statement) :
    Yields (statements.mapM statement) (List.Forall₂ (fun s s' => s'.cleared = s.cleared ∧
      (s.body.IsTypedAsWritten → s'.body.IsTypedAsWritten)) statements) := by
  induction statements with
  | nil => exact .pure .nil
  | cons s statements ih =>
    rw [List.mapM_cons]
    exact (statement_yields s).bind fun s' hs => ih.bind fun rest hrest => .pure (.cons hs hrest)

end Resolver

/-- The canonical text of a table is that of the definition without annotations. -/
theorem Statement.canonical_annotated {s s' : Statement} (hcleared : s'.cleared = s.cleared)
    (htyped : s.body.IsTypedAsWritten → s'.body.IsTypedAsWritten) {table : CreateTable}
    (hbody : s.body = .createTable table) (h : table.IsTypedAsWritten) (source : String)
    (c c' : Option Catalog) : s'.canonical source c' = s.canonical source c := by
  have htable : s'.body.cleared = .createTable table.cleared := by
    simpa only [Statement.cleared, StatementBody.cleared, hbody] using
      congrArg Statement.body hcleared
  have htyped' : s'.body.IsTypedAsWritten := htyped (hbody ▸ h)
  cases hbody' : s'.body with
  | createTable table' =>
    rw [hbody'] at htable htyped'
    unfold canonical
    rw [hbody, hbody']
    calc table'.canonical
      _ = table'.cleared.canonical := (CreateTable.IsTypedAsWritten.canonical_cleared htyped').symm
      _ = table.cleared.canonical := congrArg _ (StatementBody.createTable.inj htable)
      _ = table.canonical := h.canonical_cleared
  | _ =>
    rw [hbody'] at htable
    cases htable

namespace Resolution

/-- Resolution gives back the statements it was given, with nothing changed but what it
fills in: they have the same spans and the same texts. A table to be created that was not
resolved before, or was resolved as it is declared, has the same canonical text, whatever
becomes of it. -/
theorem ofStatements_annotates (index : LineIndex) (catalog : Catalog)
    (statements : List Statement) :
    let resolved := (ofStatements index catalog statements).statements
    resolved.map Statement.cleared = statements.map Statement.cleared ∧
      resolved.map Statement.outline = statements.map Statement.outline ∧
      resolved.map Statement.render = statements.map Statement.render ∧
      List.Forall₂ (fun s s' => ∀ table, s.body = .createTable table → table.IsTypedAsWritten →
        ∀ source c c', s'.canonical source c' = s.canonical source c) statements resolved := by
  intro resolved
  have hpairs := Resolver.statements_yield statements (ResolverState.start index catalog)
  have hkept : ∀ {γ : Type} {f : Statement → γ}, (∀ s, f s.cleared = f s) →
      resolved.map f = statements.map f := fun hf =>
    map_eq_of_forall₂ (hpairs.imp fun s s' h => by rw [← hf s', h.1, hf s])
  refine ⟨map_eq_of_forall₂ (hpairs.imp fun _ _ h => h.1), hkept Statement.outline_cleared,
    hkept Statement.render_cleared, hpairs.imp fun s s' h table hbody htable source c c' => ?_⟩
  exact Statement.canonical_annotated h.1 h.2 hbody htable source c c'

/-- Two columns with one name are declared, of which the second is not resolved. -/
theorem ofStatements_annotates_duplicate :
    let column (type : String) : ColumnDef :=
      { name := ⟨"a", false, default⟩, typeName := some ⟨type, [], default⟩, constraints := [],
        span := default, type := none, binding := none }
    let table : CreateTable :=
      { ifNotExists := false, name := ⟨"t", false, default⟩,
        columns := [column "integer", column "text"], constraints := [], binding := none }
    let statement : Statement := ⟨.createTable table, default, none⟩
    let resolved := (ofStatements default default [statement]).statements
    table.IsTypedAsWritten ∧
      resolved.map (fun s => s.canonical "" none) = [statement.canonical "" none] := by
  intro column table statement resolved
  have htyped : table.IsTypedAsWritten := by
    intro d hd
    rcases List.mem_pair.mp hd with rfl | rfl <;> exact .inl rfl
  refine ⟨htyped, ?_⟩
  obtain ⟨-, -, -, hcanonical⟩ := ofStatements_annotates default default [statement]
  obtain ⟨s', rest, hs', hrest, hresolved⟩ := List.forall₂_cons_left_iff.mp hcanonical
  rw [List.forall₂_nil_left_iff.mp hrest] at hresolved
  have hresolved : resolved = [s'] := hresolved
  rw [hresolved, List.map_singleton, hs' table rfl htyped "" none none]

end Resolution
end SqlAnalysis
