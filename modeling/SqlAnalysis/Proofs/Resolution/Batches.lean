import SqlAnalysis.Proofs.Diagnostic.Sinks
import SqlAnalysis.Proofs.Resolution.Delivery
import SqlAnalysis.Proofs.Resolution.Orderly

/-!
# Resolving batches piece by piece

Between two statements no scope is open, and of the statements before only the
catalog, their complaints and their scopes are left. Complaints and scopes only
stand before those of later statements, so a batch can be cut anywhere.
-/
namespace SqlAnalysis

namespace ResolverState

/-- Whether all scopes opened since a state without any have been left. -/
structure Settled (s s' : ResolverState) : Prop where
  frames : s'.frames = []
  index : s'.index = s.index
  scope : s'.root.scope = s.root.scope
  opaqueSource : s'.root.opaqueSource = s.root.opaqueSource

theorem Settled.trans {s t u : ResolverState} (h : s.Settled t) (h' : t.Settled u) :
    s.Settled u where
  frames := h'.frames
  index := h'.index.trans h.index
  scope := h'.scope.trans h.scope
  opaqueSource := h'.opaqueSource.trans h.opaqueSource

/-- Such a state is a fresh one behind what was done before. -/
theorem Settled.eq_behind {index : LineIndex} {catalog : Catalog} {s : ResolverState}
    (h : (start index catalog).Settled s) :
    s = (start index s.catalog).behind s.diagnostics s.root.children := by
  obtain ⟨hframes, hindex, hscope, hopaque⟩ := h
  obtain ⟨_, _, _, _, ⟨_, _, _⟩⟩ := s
  simp_all [start, behind]

end ResolverState

namespace Resolver

open ResolverState

/-- Where no scope is open, a resolver in a scope of its own only adds that scope
to the root. -/
theorem leave_settles {s s' : ResolverState} {span : Span} (hs : s.frames = [])
    (h : (s.enter span).Keeps s') : s.Settled s'.leave := by
  have hscope : s'.root.scope = s.root.scope := congrArg Frame.scope h.root
  have hopaque : s'.root.opaqueSource = s.root.opaqueSource :=
    congrArg Frame.opaqueSource h.root
  obtain ⟨tree, hleave⟩ := leave_of_keeps h
  rw [hleave, hs]
  exact ⟨rfl, h.index, hscope, hopaque⟩

/-- A statement leaves no scope open, and does the same behind whatever was done before. -/
theorem statement_settles (statement : Statement) {s : ResolverState} (hs : s.frames = []) :
    s.Settled ((Resolver.statement statement).run s).2 ∧
      ∀ ds trees, (Resolver.statement statement).run (s.behind ds trees) =
        (((Resolver.statement statement).run s).1,
          ((Resolver.statement statement).run s).2.behind ds trees) := by
  have hbody : Orderly (do
      return { statement with body := ← statementBody statement.body }) :=
    (statementBody_orderly statement.body).bind fun body => .pure _
  have hinner := hbody (s.enter statement.span) (List.cons_ne_nil _ _)
  unfold Resolver.statement
  refine ⟨leave_settles hs hinner.keeps, fun ds trees => ?_⟩
  rw [run_within, run_within, enter_behind, hinner.behind, leave_behind]

theorem run_statements_cons (statement : Statement) (statements : List Statement)
    (s : ResolverState) :
    ((statement :: statements).mapM Resolver.statement).run s =
      (((Resolver.statement statement).run s).1 ::
          ((statements.mapM Resolver.statement).run ((Resolver.statement statement).run s).2).1,
        ((statements.mapM Resolver.statement).run ((Resolver.statement statement).run s).2).2) := by
  rw [List.mapM_cons]
  rfl

theorem statements_settle (statements : List Statement) :
    ∀ {s : ResolverState}, s.frames = [] →
      s.Settled ((statements.mapM Resolver.statement).run s).2 ∧
        ∀ ds trees, (statements.mapM Resolver.statement).run (s.behind ds trees) =
          (((statements.mapM Resolver.statement).run s).1,
            ((statements.mapM Resolver.statement).run s).2.behind ds trees) := by
  induction statements with
  | nil => exact fun hs => ⟨⟨hs, rfl, rfl, rfl⟩, fun _ _ => rfl⟩
  | cons statement statements ih =>
    intro s hs
    obtain ⟨hfirst, hbehind⟩ := statement_settles statement hs
    obtain ⟨hrest, hbehind'⟩ := ih hfirst.frames
    rw [run_statements_cons]
    refine ⟨hfirst.trans hrest, fun ds trees => ?_⟩
    rw [run_statements_cons, hbehind, hbehind']

/-- No statement takes back an error that an earlier one raised. -/
theorem statements_failed (statements : List Statement) {s : ResolverState} (hs : s.frames = [])
    (hfailed : s.Failed) : ((statements.mapM Resolver.statement).run s).2.Failed := by
  have hframes : { s with diagnostics := [] }.frames = [] := hs
  exact failed_of_behind (r := statements.mapM Resolver.statement) hfailed
    (statements_settle statements hframes).2

end Resolver

namespace Resolution

open ResolverState

/-- The only thing that a statement passes on to later ones is the catalog. -/
theorem ofStatements_append (index : LineIndex) (catalog : Catalog)
    (before after : List Statement) :
    let whole := ofStatements index catalog (before ++ after)
    let first := ofStatements index catalog before
    let second := ofStatements index first.catalog after
    whole.catalog = second.catalog ∧
      whole.statements = first.statements ++ second.statements ∧
      (whole.sink 0).items = (first.sink 0).items ++ (second.sink 0).items ∧
      whole.scopes.children = first.scopes.children ++ second.scopes.children := by
  intro whole first second
  have hrun : ((before ++ after).mapM Resolver.statement).run (start index catalog) =
      (((before.mapM Resolver.statement).run (start index catalog)).1 ++
          ((after.mapM Resolver.statement).run
            ((before.mapM Resolver.statement).run (start index catalog)).2).1,
        ((after.mapM Resolver.statement).run
          ((before.mapM Resolver.statement).run (start index catalog)).2).2) := by
    rw [List.mapM_append]
    rfl
  obtain ⟨hsettled, -⟩ := Resolver.statements_settle before (s := start index catalog) rfl
  obtain ⟨-, hbehind⟩ := Resolver.statements_settle after (s := start index first.catalog) rfl
  have hmiddle : ((before.mapM Resolver.statement).run (start index catalog)).2 =
      (start index first.catalog).behind first.raised first.scopes.children := hsettled.eq_behind
  rw [hmiddle, hbehind] at hrun
  have hraised : whole.raised = first.raised ++ second.raised :=
    congrArg (fun result => result.2.diagnostics) hrun
  refine ⟨congrArg (fun result => result.2.catalog) hrun, congrArg Prod.fst hrun, ?_,
    congrArg (fun result => result.2.root.children) hrun⟩
  simp only [sink, Sink.items_ofList_zero, hraised]

end Resolution
end SqlAnalysis
