import SqlAnalysis.Proofs.Grammar.CleanDefinitions
import SqlAnalysis.Proofs.Grammar.Identifiers
import SqlAnalysis.Proofs.Resolution.SettledChecks

/-!
# Checks that types imply, in tables

The check that the type of a column implies can be read, and its text stays as it is. Once it
stands at the column, it is found there and not added again. In a new table it is a truth value,
about which nothing is said: without it the statement ends with the same complaints.
-/
namespace SqlAnalysis

/-- A column that has the check that its type implies does not get it a second time. -/
theorem ColumnDef.impliedCheck?_of_hasCheck {d : ColumnDef} {t : SqlType} {text : String}
    (htype : d.knownType? = some t) (htext : t.constraint? d.name.render = some text)
    (hcheck : d.hasCheck text = true) : d.impliedCheck? = none := by
  rw [impliedCheck?, htype, Option.bind_some, htext, Option.filter_some, hcheck]
  rfl

namespace Resolver

theorem Settles.congr {P : ResolverState → Prop} {model model' : Expr} {type : Option SqlType}
    (h : Settles P model type) (heq : model'.skeleton = model.skeleton) : Settles P model' type :=
  fun e hcleared hmodel => h e hcleared (hmodel.trans heq)

end Resolver

/-- The check that a type implies is read as an expression with the same text. It is not added
where it stands already, so no check is missing in what the canonical text of a table is read
as. Where the name stands for a column of the type, it is a truth value and nothing is said about
it. So it is in a new table wherever it stands: without it the statement ends with the same
complaints and the same catalog, and with the constant in its place in the same state. -/
theorem SqlType.constraint?_settled {source name text : String} {s s' : ParserState} {ident : Ident}
    {params : List Nat} {t : SqlType} (htokens : s.tokens ⊆ (Lexed.ofText source).tokens)
    (hfinal : s.final.kind = .eof) (hident : Parser.ident.run s = (.ok ident, s'))
    (hparams : ∀ n ∈ params, n ≤ Text.maxWord) (htype : SqlType.ofParts name params = .ok t)
    (htext : t.constraint? ident.render = some text) :
    ∃ check, Expr.parse text = .ok check ∧ check.render = text ∧
      (∀ d : ColumnDef, d.knownType? = some t → d.name.render = ident.render →
        d.hasCheck check.render = true → d.impliedCheck? = none) ∧
      (∀ (definition : String) (statement : Statement) (table : CreateTable),
        (∀ token ∈ (Lexed.ofText definition).tokens, token.kind.isShowable = true) →
        statement ∈ (Script.ofTokens (Lexed.ofText definition).tokens).statements →
        statement.body = .createTable table → table.columns ≠ [] →
        (Lexed.ofText table.canonical).errors = [] ∧
          (Script.ofTokens (Lexed.ofText table.canonical).tokens).errors = [] ∧
            ∃ statement' table',
              (Script.ofTokens (Lexed.ofText table.canonical).tokens).statements = [statement'] ∧
                statement'.body = .createTable table' ∧
                  ∀ d ∈ table'.columns, d.impliedCheck? = none) ∧
      (∀ (s : ResolverState) (e : Expr), s.Means ident.name t → e.cleared = e →
        e.skeleton = check.skeleton →
        let resolved := (Resolver.condition "CHECK" e.span (Resolver.term e)).run s
        resolved.1.type = some (SqlType.plain .boolean) ∧
          resolved.2.diagnostics = s.diagnostics) ∧
      ∀ (s : ResolverState) (statement : Statement) (table : CreateTable), s.catalog.Indexed →
        statement.body = .createTable table → s.catalog.findTables table.name.name = [] →
        (table.columns.map fun d => Text.foldCase d.name.name).Nodup →
        (∃ d ∈ table.columns, d.name.isNamed ident.name = true ∧ d.writtenType? = some t) →
        (∀ e ∈ table.checks, e.cleared = e) →
        (∃ table', ((Resolver.statement statement).run s).1.body = .createTable table' ∧
          List.Forall₂ (fun e e' => e.skeleton = check.skeleton →
            e'.type = some (SqlType.plain .boolean)) table.checks table'.checks) ∧
        ∀ f : Expr → Option Expr, (∀ e ∈ table.checks, f e = some e ∨
            e.skeleton = check.skeleton ∧ (f e = none ∨ f e = some (.trueAt e.span))) →
          let last := ((Resolver.statement statement).run s).2
          let edited := ((Resolver.statement { statement with
            body := .createTable (table.editChecks f) }).run s).2
          edited.diagnostics = last.diagnostics ∧ edited.catalog = last.catalog ∧
            ((∀ e ∈ table.checks, f e ≠ none) → edited = last) := by
  have hplain := Parser.plain_of_ident htokens hfinal hident
  have hbounded : ∀ n ∈ t.params, n ≤ Text.maxWord :=
    fun n hn => hparams n (params_of_ofParts htype hn)
  rw [constraint?_eq] at htext
  obtain ⟨model, hmodel, rfl⟩ := Option.map_eq_some_iff.mp htext
  obtain ⟨check, hparse, hkept⟩ := check?_parses hplain hbounded hmodel
  have hsettles := (Resolver.Settles.check model hmodel).congr hkept.bare
  refine ⟨check, hparse, hkept.text, fun d htype hname hcheck => ?_,
    fun definition statement table hshowable hmem hbody _ =>
      CreateTable.canonical_reads_back hshowable hmem hbody,
    fun s e hmeans hcleared hmodel => ?_,
    fun s statement table hs hbody hfree hnodup hcolumn hcleared => ?_⟩
  · refine ColumnDef.impliedCheck?_of_hasCheck htype ?_ hcheck
    rw [hname, constraint?_eq, hmodel, hkept.text]
    rfl
  · obtain ⟨e', hrun, htype⟩ := Resolver.condition_run_of_types (hsettles e hcleared hmodel) "CHECK"
      e.span (hmeans.sees_enter e.span)
    have hleave := congrArg ResolverState.diagnostics (s.forgetLeft_leave_enter e.span)
    rw [hrun]
    exact ⟨htype, hleave⟩
  obtain ⟨d, hd, hname, hwritten⟩ := hcolumn
  have hagrees {look : ResolverState → ResolverState} (hblurs : Resolver.Blurs look)
      (f : Expr → Option Expr) (hf : ∀ e ∈ table.checks, Resolver.TrustsIn look check f e) :=
    Resolver.statement_agrees hblurs hsettles hs hbody hfree hnodup hd hname hwritten hcleared hf
  refine ⟨(hagrees Resolver.blurs_id some fun e _ => .inl rfl).1, fun f hf => ?_⟩
  have hforgotten := (hagrees Resolver.blurs_forgetLeft f fun e he => (hf e he).imp_right
    fun ⟨hlike, h⟩ => ⟨hlike, h.symm.imp_right fun hnone =>
      ⟨hnone, fun s => s.forgetLeft_leave_enter e.span⟩⟩).2
  have hdiagnostics := congrArg ResolverState.diagnostics hforgotten
  have hcatalog := congrArg ResolverState.catalog hforgotten
  refine ⟨hdiagnostics, hcatalog, fun hsome => ?_⟩
  exact (hagrees Resolver.blurs_id f fun e he => (hf e he).imp_right
    fun ⟨hlike, h⟩ => ⟨hlike, .inl (h.resolve_left (hsome e he))⟩).2

/-- A column that is called like the function in the check. -/
theorem SqlType.constraint?_settled_length :
    let length : Ident := ⟨"length", false, Span.zero⟩
    let check := (Expr.callOn "length" length).binaryOf .le (.ofNat 5)
    let table : CreateTable := ⟨false, ⟨"t", false, Span.zero⟩,
      [⟨length, some ⟨"varchar", [5], Span.zero⟩, [⟨none, .check check, Span.zero⟩], Span.zero,
        none, none⟩], [⟨none, .check check, Span.zero⟩], none⟩
    let statement : Statement := ⟨.createTable table, Span.zero, none⟩
    let start := ResolverState.start ⟨[], 0⟩ .empty
    let inside := ((Resolver.startTable table).run (start.enter Span.zero)).2
    let resolved := (Resolver.condition "CHECK" check.span (Resolver.term check)).run inside
    let script := Script.ofTokens (Lexed.ofText "create table t (length varchar(5))").tokens
    (∃ found, Expr.parse "length(length) <= 5" = .ok found ∧ found.skeleton = check.skeleton ∧
      found.render = "length(length) <= 5") ∧
      (∃ s ∈ script.statements, ∃ table s' table', s.body = .createTable table ∧
        (Script.ofTokens (Lexed.ofText table.canonical).tokens).statements = [s'] ∧
          s'.body = .createTable table' ∧ ∀ d ∈ table'.columns, d.impliedCheck? = none) ∧
      inside.Means "length" ⟨.varchar, [5]⟩ ∧ resolved.1.type = some (.plain .boolean) ∧
      resolved.2.diagnostics = [] ∧
      (∃ table', ((Resolver.statement statement).run start).1.body = .createTable table' ∧
        table'.checks.map Expr.type = [some (.plain .boolean), some (.plain .boolean)]) ∧
      ((Resolver.statement statement).run start).2.diagnostics = [] := by
  intro length check table statement start inside resolved script
  let s := ParserState.start (Lexed.ofText "length").tokens
  have htokens : s.tokens ⊆ (Lexed.ofText "length").tokens :=
    (List.takeWhile_sublist _).trans List.filter_sublist |>.subset
  have hname : Parser.nameOf? s.current.kind = some ("length", false) := by decide +kernel
  have hrun : Parser.ident.run s = (.ok ⟨"length", false, s.current.span⟩, s.advance) := by
    rw [Parser.ident_run, hname]
  have hparams : ∀ n ∈ [5], n ≤ Text.maxWord := by decide
  have htype : ofParts "varchar" [5] = .ok ⟨.varchar, [5]⟩ := rfl
  have hmodel : check? ⟨.varchar, [5]⟩ length = some check := rfl
  have hcheck : check.render = "length(length) <= 5" := by decide +kernel
  have hconstraint : constraint? ⟨.varchar, [5]⟩ (Ident.render ⟨"length", false, s.current.span⟩) =
      some "length(length) <= 5" := (constraint?_eq _ length).trans (by rw [hmodel, ← hcheck]; rfl)
  obtain ⟨found, hparse, htext, -, hclean, hcondition, hresolved⟩ :=
    constraint?_settled htokens (by decide +kernel) hrun hparams htype hconstraint
  have hskeleton : found.skeleton = check.skeleton := by
    have hplain : length.Plain := by
      unfold Ident.Plain
      decide +kernel
    obtain ⟨found', hparse', hkept⟩ := check?_parses hplain hparams hmodel
    rw [hcheck, hparse] at hparse'
    exact Except.ok.inj hparse' ▸ hkept.bare
  have hcleared : ∀ e ∈ table.checks, e.cleared = e := by
    intro e he
    rcases List.mem_pair.mp he with rfl | rfl <;> rfl
  obtain ⟨⟨table', hbody, htypes⟩, hstate⟩ := hresolved start statement table .empty rfl rfl
    (by decide) ⟨_, List.mem_singleton_self _, (Text.sameName_iff _ _).mpr rfl, rfl⟩ hcleared
  have hmeans : inside.Means "length" ⟨.varchar, [5]⟩ :=
    Resolver.startTable_means (t := table) .empty (fun _ => rfl) (by decide)
      (List.mem_singleton_self _) rfl
  obtain ⟨hboolean, hquiet⟩ := hcondition inside check hmeans rfl hskeleton.symm
  have hnothing : resolved.2.diagnostics = [] := by
    rw [hquiet]
    decide +kernel
  refine ⟨⟨found, hparse, hskeleton, htext⟩, ?_, hmeans, hboolean, hnothing,
    ⟨table', hbody, ?_⟩, ?_⟩
  · obtain ⟨s, hs, hcolumns⟩ : ∃ s ∈ script.statements, s.body.columnDefs ≠ [] := by decide +kernel
    obtain ⟨written, hwritten, hcolumns⟩ := s.body.createTable_of_columnDefs hcolumns
    obtain ⟨-, -, s', table', hread⟩ := hclean _ s written (by decide +kernel) hs hwritten hcolumns
    exact ⟨s, hs, written, s', table', hwritten, hread⟩
  · obtain ⟨e, es, he, hes, hchecks⟩ := List.forall₂_cons_left_iff.mp htypes
    obtain ⟨e', es', he', hes', rfl⟩ := List.forall₂_cons_left_iff.mp hes
    obtain rfl := List.forall₂_nil_left_iff.mp hes'
    rw [hchecks, List.map_cons, List.map_singleton, he hskeleton.symm, he' hskeleton.symm]
  · have hlike : ∀ e ∈ table.checks, e.skeleton = found.skeleton := by
      intro e he
      rcases List.mem_pair.mp he with rfl | rfl <;> exact hskeleton.symm
    obtain ⟨hdiagnostics, -⟩ := hstate (fun _ => none) fun e he => .inr ⟨hlike e he, .inl rfl⟩
    rw [← hdiagnostics]
    decide +kernel

end SqlAnalysis
