import SqlAnalysis.Resolution.Statement

/-!
# What a resolver leaves alone

Inside a scope a resolver changes the innermost open scope, the catalog and the
end of the complaints. It never looks at earlier complaints or at scopes that have
been left, and it keeps the scopes around the innermost one. All this is stated of a
single resolver here and holds of sequences and of everything run in a scope of its
own; the resolvers for expressions and statements are built from nothing else.
-/
namespace SqlAnalysis

/-- The frame without the scopes that were left in it. -/
def Frame.forgetLeft (f : Frame) : Frame :=
  { f with children := [] }

@[simp] theorem Frame.forgetLeft_forgetLeft (f : Frame) :
    f.forgetLeft.forgetLeft = f.forgetLeft := rfl

namespace ResolverState

/-- The state without the scopes that were left in the open ones. -/
def forgetLeft (s : ResolverState) : ResolverState :=
  { s with frames := s.frames.map Frame.forgetLeft, root := s.root.forgetLeft }

/-- The state behind earlier complaints and scopes that were left before. -/
def behind (s : ResolverState) (ds : List Diagnostic) (trees : List ScopeTree) : ResolverState :=
  { s with
    diagnostics := ds ++ s.diagnostics
    root := { s.root with children := trees ++ s.root.children } }

/-- What no resolver changes while a scope is open. -/
structure Keeps (s s' : ResolverState) : Prop where
  index : s'.index = s.index
  root : s'.root = s.root
  outer : s'.frames.tail = s.frames.tail
  isOpen : s'.frames ≠ []

namespace Keeps

variable {s t u : ResolverState}

theorem refl (hs : s.frames ≠ []) : s.Keeps s :=
  ⟨rfl, rfl, rfl, hs⟩

theorem trans (h : s.Keeps t) (h' : t.Keeps u) : s.Keeps u where
  index := h'.index.trans h.index
  root := h'.root.trans h.root
  outer := h'.outer.trans h.outer
  isOpen := h'.isOpen

end Keeps

variable (s : ResolverState) (ds : List Diagnostic) (trees : List ScopeTree)

@[simp] theorem forgetLeft_catalog : s.forgetLeft.catalog = s.catalog := rfl

@[simp] theorem forgetLeft_diagnostics : s.forgetLeft.diagnostics = s.diagnostics := rfl

@[simp] theorem forgetLeft_scopes : s.forgetLeft.scopes = s.scopes := by
  simp [scopes, allFrames, forgetLeft, Frame.forgetLeft, Function.comp_def]

@[simp] theorem forgetLeft_isOpaque : s.forgetLeft.isOpaque = s.isOpaque := by
  simp [isOpaque, allFrames, forgetLeft, Frame.forgetLeft, Function.comp_def]

@[simp] theorem forgetLeft_forgetLeft : s.forgetLeft.forgetLeft = s.forgetLeft := by
  simp [forgetLeft, Function.comp_def]

theorem forgetLeft_ne_nil {s : ResolverState} (hs : s.frames ≠ []) : s.forgetLeft.frames ≠ [] := by
  simpa [forgetLeft] using hs

theorem forgetLeft_enter (span : Span) : (s.enter span).forgetLeft = s.forgetLeft.enter span := by
  unfold enter forgetLeft
  cases s.frames <;> rfl

theorem forgetLeft_modifyFrame {f : Frame → Frame}
    (hf : ∀ frame : Frame, (f frame.forgetLeft).forgetLeft = (f frame).forgetLeft) :
    (s.forgetLeft.modifyFrame f).forgetLeft = (s.modifyFrame f).forgetLeft := by
  unfold modifyFrame forgetLeft
  cases s.frames <;> simp [hf, Function.comp_def]

theorem forgetLeft_leave : s.forgetLeft.leave.forgetLeft = s.leave.forgetLeft := by
  unfold leave forgetLeft modifyFrame
  rcases hframes : s.frames with _ | ⟨frame, _ | ⟨next, outer⟩⟩ <;>
    simp [hframes, Frame.forgetLeft, Function.comp_def]

/-- A scope that is left at once leaves no trace but itself. -/
theorem forgetLeft_leave_enter (span : Span) : (s.enter span).leave.forgetLeft = s.forgetLeft := by
  unfold enter leave modifyFrame forgetLeft
  cases hframes : s.frames <;> simp [Frame.forgetLeft]

@[simp] theorem behind_catalog : (s.behind ds trees).catalog = s.catalog := rfl

@[simp] theorem behind_scopes : (s.behind ds trees).scopes = s.scopes := by
  simp [scopes, allFrames, behind]

@[simp] theorem behind_isOpaque : (s.behind ds trees).isOpaque = s.isOpaque := by
  simp [isOpaque, allFrames, behind]

variable {s}

theorem modifyFrame_keeps (hs : s.frames ≠ []) (f : Frame → Frame) : s.Keeps (s.modifyFrame f) := by
  obtain ⟨frame, outer, hframes⟩ := List.exists_cons_of_ne_nil hs
  constructor <;> simp [modifyFrame, hframes]

theorem modifyFrame_behind (hs : s.frames ≠ []) (f : Frame → Frame) :
    (s.behind ds trees).modifyFrame f = (s.modifyFrame f).behind ds trees := by
  obtain ⟨frame, outer, hframes⟩ := List.exists_cons_of_ne_nil hs
  simp [modifyFrame, behind, hframes]

end ResolverState

namespace Resolver

open ResolverState

variable {α β : Type}

/-- Whether a resolver keeps what is outside of the innermost scope, does the same behind
whatever was done before and does not look at scopes that were left. -/
structure OrderlyFrom (s : ResolverState) (r : Resolver α) : Prop where
  keeps : s.Keeps (r.run s).2
  behind : ∀ ds trees, r.run (s.behind ds trees) = ((r.run s).1, (r.run s).2.behind ds trees)
  result_forgetLeft : (r.run s.forgetLeft).1 = (r.run s).1
  forgetLeft : (r.run s.forgetLeft).2.forgetLeft = (r.run s).2.forgetLeft

/-- Whether a resolver is so wherever a scope is open. -/
def Orderly (r : Resolver α) : Prop :=
  ∀ s : ResolverState, s.frames ≠ [] → OrderlyFrom s r

namespace Orderly

variable {r : Resolver α} {f : α → Resolver β}

theorem pure (a : α) : Orderly (pure a) :=
  fun s hs => ⟨.refl hs, fun _ _ => rfl, rfl, s.forgetLeft_forgetLeft⟩

theorem bind (hr : Orderly r) (hf : ∀ a, Orderly (f a)) : Orderly (r >>= f) := by
  intro s hs
  have hfirst := hr s hs
  have hrest := hf (r.run s).1 (r.run s).2 hfirst.keeps.isOpen
  -- The rest runs from another state, in which the same scopes are open.
  have hforgotten := hf (r.run s).1 (r.run s.forgetLeft).2
    (hr _ (forgetLeft_ne_nil hs)).keeps.isOpen
  refine ⟨hfirst.keeps.trans hrest.keeps, fun ds trees => ?_, ?_, ?_⟩
  · show (f (r.run (s.behind ds trees)).1).run (r.run (s.behind ds trees)).2 = _
    rw [hfirst.behind, hrest.behind]
    rfl
  · show ((f (r.run s.forgetLeft).1).run (r.run s.forgetLeft).2).1 = _
    rw [hfirst.result_forgetLeft, ← hforgotten.result_forgetLeft, hfirst.forgetLeft,
      hrest.result_forgetLeft]
    rfl
  · show ((f (r.run s.forgetLeft).1).run (r.run s.forgetLeft).2).2.forgetLeft = _
    rw [hfirst.result_forgetLeft, ← hforgotten.forgetLeft, hfirst.forgetLeft, hrest.forgetLeft]
    rfl

theorem map (hr : Orderly r) (g : α → β) : Orderly (g <$> r) :=
  hr.bind fun a => pure (g a)

/-- Looks at nothing but the names that can be seen and the catalog. -/
theorem view {f : ResolverState → Resolver β} (hf : ∀ s, Orderly (f s))
    (hview : ∀ s s' : ResolverState, s'.catalog = s.catalog → s'.scopes = s.scopes →
      s'.isOpaque = s.isOpaque → f s' = f s) : Orderly (get >>= f) := by
  intro s hs
  have hrun := hf s s hs
  refine ⟨hrun.keeps, fun ds trees => ?_, ?_, ?_⟩
  · show (f (s.behind ds trees)).run (s.behind ds trees) = _
    rw [hview s (s.behind ds trees) rfl (s.behind_scopes ds trees) (s.behind_isOpaque ds trees),
      hrun.behind]
    rfl
  · show ((f s.forgetLeft).run s.forgetLeft).1 = _
    rw [hview s s.forgetLeft rfl s.forgetLeft_scopes s.forgetLeft_isOpaque, hrun.result_forgetLeft]
    rfl
  · show ((f s.forgetLeft).run s.forgetLeft).2.forgetLeft = _
    rw [hview s s.forgetLeft rfl s.forgetLeft_scopes s.forgetLeft_isOpaque, hrun.forgetLeft]
    rfl

theorem update {g : ResolverState → ResolverState}
    (hkeeps : ∀ s : ResolverState, s.frames ≠ [] → s.Keeps (g s))
    (hbehind : ∀ (s : ResolverState) ds trees, s.frames ≠ [] →
      g (s.behind ds trees) = (g s).behind ds trees)
    (hforget : ∀ s : ResolverState, (g s.forgetLeft).forgetLeft = (g s).forgetLeft) :
    Orderly (modify g : Resolver Unit) := by
  intro s hs
  refine ⟨hkeeps s hs, fun ds trees => ?_, rfl, hforget s⟩
  show ((), g (s.behind ds trees)) = _
  rw [hbehind s ds trees hs]
  rfl

theorem modifyFrame {f : Frame → Frame}
    (hf : ∀ frame : Frame, (f frame.forgetLeft).forgetLeft = (f frame).forgetLeft) :
    Orderly (modify fun s => s.modifyFrame f) :=
  update (fun _ hs => modifyFrame_keeps hs f)
    (fun _ ds trees hs => modifyFrame_behind ds trees hs f) fun s => s.forgetLeft_modifyFrame hf

theorem modifyCatalog (g : Catalog → Catalog) : Orderly (modifyCatalog g) :=
  update (fun _ hs => ⟨rfl, rfl, rfl, hs⟩) (fun _ _ _ _ => rfl) fun s =>
    congrArg (fun t : ResolverState => { t with catalog := g s.catalog }) s.forgetLeft_forgetLeft

theorem complain (make : Range → Diagnostic) (span : Span) : Orderly (complain make span) := by
  refine update (fun _ hs => ⟨rfl, rfl, rfl, hs⟩) (fun s ds trees _ => ?_) fun s => ?_
  · simp [behind]
  · exact congrArg (fun t : ResolverState => { t with
      diagnostics := s.diagnostics ++ [make (s.index.range span)] }) s.forgetLeft_forgetLeft

theorem bindColumns (table : TableId) : Orderly (modify fun s => s.bindColumns table) :=
  update (fun _ hs => modifyFrame_keeps hs _)
    (fun _ ds trees hs => modifyFrame_behind ds trees hs _) fun s =>
      s.forgetLeft_modifyFrame fun _ => rfl

theorem bindTable (name : String) (table : TableId) :
    Orderly (modify fun s => s.bindTable name table) := by
  have hfirst : Orderly (modify fun s => s.modifyFrame fun f =>
      { f with scope := f.scope.bindTable name table }) := modifyFrame fun _ => rfl
  exact hfirst.bind fun _ => bindColumns table

theorem bindColumn (name : String) (column : ColumnId) :
    Orderly (modify fun s => s.bindColumn name column) :=
  modifyFrame fun _ => rfl

end Orderly

theorem catalog_orderly : Orderly catalog :=
  .view (fun s => .pure s.catalog) fun _ _ hcatalog _ _ => congrArg pure hcatalog

/-- What is done in a scope of its own begins with an open scope and ends by
handing it to the one around it. -/
theorem run_within (span : Span) (r : Resolver α) (s : ResolverState) :
    (within span r).run s = ((r.run (s.enter span)).1, (r.run (s.enter span)).2.leave) := rfl

theorem enter_behind (s : ResolverState) (span : Span) (ds : List Diagnostic)
    (trees : List ScopeTree) : (s.behind ds trees).enter span = (s.enter span).behind ds trees := by
  unfold enter behind
  cases s.frames <;> rfl

theorem leave_behind (s : ResolverState) (ds : List Diagnostic) (trees : List ScopeTree) :
    (s.behind ds trees).leave = s.leave.behind ds trees := by
  unfold leave behind modifyFrame
  rcases hframes : s.frames with _ | ⟨frame, _ | ⟨next, outer⟩⟩ <;> simp [hframes]

/-- Leaving undoes what entering did to the open scopes. -/
theorem leave_of_keeps {s s' : ResolverState} {span : Span} (h : (s.enter span).Keeps s') :
    ∃ tree, s'.leave = { s' with frames := s.frames }.modifyFrame fun f =>
      { f with children := f.children ++ [tree] } := by
  obtain ⟨frame, outer, hframes⟩ := List.exists_cons_of_ne_nil h.isOpen
  have houter : outer = s.frames := by
    have := h.outer
    rwa [hframes] at this
  refine ⟨frame.toTree, ?_⟩
  unfold leave
  rw [hframes, houter]

theorem Orderly.within {r : Resolver α} (hr : Orderly r) (span : Span) :
    Orderly (within span r) := by
  intro s hs
  have hinner := hr (s.enter span) (List.cons_ne_nil _ _)
  refine ⟨?_, fun ds trees => ?_, ?_, ?_⟩
  · obtain ⟨tree, hleave⟩ := leave_of_keeps hinner.keeps
    rw [run_within, hleave]
    have hback : s.Keeps { (r.run (s.enter span)).2 with frames := s.frames } :=
      ⟨hinner.keeps.index, hinner.keeps.root, rfl, hs⟩
    exact hback.trans (modifyFrame_keeps hback.isOpen _)
  · rw [run_within, enter_behind, hinner.behind, leave_behind]
    rfl
  · rw [run_within, ← forgetLeft_enter]
    exact hinner.result_forgetLeft
  · rw [run_within, run_within, ← forgetLeft_enter, ← forgetLeft_leave, hinner.forgetLeft,
      forgetLeft_leave]

/-- What has been complained about stays, and new complaints come after it. -/
theorem Orderly.appends {r : Resolver α} (hr : Orderly r) {s : ResolverState}
    (hs : s.frames ≠ []) : ∃ ds, (r.run s).2.diagnostics = s.diagnostics ++ ds := by
  have hbehind := (hr { s with diagnostics := [] } hs).behind
  have hstate : { s with diagnostics := [] }.behind s.diagnostics [] = s := by
    simp [behind]
  have hrun := hbehind s.diagnostics []
  rw [hstate] at hrun
  exact ⟨_, by rw [hrun]; rfl⟩

end Resolver
end SqlAnalysis
