import SqlAnalysis.Proofs.Resolution.Bindings
import SqlAnalysis.Proofs.Resolution.Framing

/-!
# What resolvers deliver

As long as nothing is wrong a resolver works on a closed catalog and on scopes that
name nothing outside of it and whose sources are all known. From such a state it
either complains of an error, which is never taken back, or ends in such a state
again with a result that can be relied on. That is stated of single resolvers and
holds of sequences, lists and scopes.
-/
namespace SqlAnalysis

/-! ### Scopes that name what exists -/

/-- All that a name stands for exists. -/
structure Symbol.Within (c : Catalog) (symbol : Symbol) : Prop where
  tables : ∀ id ∈ symbol.tables, c.HasTable id
  columns : ∀ id ∈ symbol.columns, c.HasColumn id

def Scope.Within (c : Catalog) (scope : Scope) : Prop :=
  ∀ entry ∈ scope.symbols, entry.2.Within c

namespace Symbol.Within

variable {c c' : Catalog} {symbol : Symbol}

theorem empty (c : Catalog) : Symbol.Within c {} :=
  ⟨fun _ hid => absurd hid List.not_mem_nil, fun _ hid => absurd hid List.not_mem_nil⟩

theorem mono (h : symbol.Within c) (hgrow : c.Grows c') : symbol.Within c' :=
  ⟨fun id hid => (h.tables id hid).mono hgrow, fun id hid => (h.columns id hid).mono hgrow⟩

theorem addTable (h : symbol.Within c) {id : TableId} (hid : c.HasTable id) :
    (symbol.addTable id).Within c := by
  unfold Symbol.addTable
  split
  · exact h
  · refine ⟨fun other hother => ?_, h.columns⟩
    rcases List.mem_append.mp hother with hold | hnew
    · exact h.tables other hold
    · exact List.mem_singleton.mp hnew ▸ hid

theorem addColumn (h : symbol.Within c) {id : ColumnId} (hid : c.HasColumn id) :
    (symbol.addColumn id).Within c := by
  unfold Symbol.addColumn
  split
  · exact h
  · refine ⟨h.tables, fun other hother => ?_⟩
    rcases List.mem_append.mp hother with hold | hnew
    · exact h.columns other hold
    · exact List.mem_singleton.mp hnew ▸ hid

end Symbol.Within

namespace Scope

variable {c c' : Catalog} {scope : Scope}

theorem Within.mono (h : scope.Within c) (hgrow : c.Grows c') : scope.Within c' :=
  fun entry hentry => (h entry hentry).mono hgrow

theorem within_update {key : String} {f : Symbol → Symbol} {symbols : List (String × Symbol)}
    (hf : ∀ symbol : Symbol, symbol.Within c → (f symbol).Within c)
    (h : ∀ entry ∈ symbols, entry.2.Within c) :
    ∀ entry ∈ update key f symbols, entry.2.Within c := by
  induction symbols with
  | nil => simpa [update] using hf {} (.empty c)
  | cons first rest ih =>
    obtain ⟨hfirst, hrest⟩ := List.forall_mem_cons.mp h
    rw [update]
    split
    · exact List.forall_mem_cons.mpr ⟨hf _ hfirst, hrest⟩
    · exact List.forall_mem_cons.mpr ⟨hfirst, ih hrest⟩

theorem Within.bindTable (h : scope.Within c) (name : String) {id : TableId}
    (hid : c.HasTable id) : (scope.bindTable name id).Within c :=
  within_update (fun _ hsymbol => hsymbol.addTable hid) h

theorem Within.bindColumn (h : scope.Within c) (name : String) {id : ColumnId}
    (hid : c.HasColumn id) : (scope.bindColumn name id).Within c :=
  within_update (fun _ hsymbol => hsymbol.addColumn hid) h

/-- What a look-up finds is wanted and stands in one of the scopes. -/
theorem within_of_lookup {scopes : List Scope} {name : String} {wanted : Symbol → Bool}
    {symbol : Symbol} (hscopes : ∀ scope ∈ scopes, scope.Within c)
    (h : lookup scopes name wanted = some symbol) : symbol.Within c := by
  obtain ⟨scope, hscope, hsymbol⟩ := List.mem_filterMap.mp (List.mem_of_find?_eq_some h)
  obtain ⟨before, after, hsymbols, -⟩ := List.lookup_eq_some_iff.mp hsymbol
  exact hscopes scope hscope (Text.foldCase name, symbol) (by simp [hsymbols])

end Scope

/-! ### States in order -/

/-- The sources of an open scope are known, and so is all that it names. -/
structure Frame.Fine (c : Catalog) (f : Frame) : Prop where
  known : f.opaqueSource = false
  scope : f.scope.Within c

namespace ResolverState

/-- An error has been complained of. -/
def Failed (s : ResolverState) : Prop :=
  ∃ d ∈ s.diagnostics, d.isError = true

structure Fine (s : ResolverState) : Prop where
  catalog : s.catalog.Closed
  frames : ∀ f ∈ s.allFrames, f.Fine s.catalog

variable {s : ResolverState}

theorem Fine.isOpaque (h : s.Fine) : s.isOpaque = false := by
  unfold ResolverState.isOpaque
  rw [List.any_eq_false]
  intro f hf
  simp [(h.frames f hf).known]

theorem Fine.scopes (h : s.Fine) : ∀ scope ∈ s.scopes, scope.Within s.catalog := by
  intro scope hscope
  obtain ⟨f, hf, rfl⟩ := List.mem_map.mp hscope
  exact (h.frames f hf).scope

theorem Fine.extendCatalog (h : s.Fine) {c : Catalog} (hextends : s.catalog.Extends c) :
    { s with catalog := c }.Fine ∧ s.catalog.Grows c := by
  obtain ⟨hclosed, hgrow⟩ := hextends h.catalog
  refine ⟨⟨hclosed, fun f hf => ?_⟩, hgrow⟩
  have hfine := h.frames f hf
  exact ⟨hfine.known, hfine.scope.mono hgrow⟩

@[simp] theorem modifyFrame_catalog (s : ResolverState) (f : Frame → Frame) :
    (s.modifyFrame f).catalog = s.catalog := by
  unfold modifyFrame
  split <;> rfl

@[simp] theorem modifyFrame_diagnostics (s : ResolverState) (f : Frame → Frame) :
    (s.modifyFrame f).diagnostics = s.diagnostics := by
  unfold modifyFrame
  split <;> rfl

theorem modifyFrame_index (s : ResolverState) (f : Frame → Frame) :
    (s.modifyFrame f).index = s.index := by
  unfold modifyFrame
  split <;> rfl

theorem Fine.modifyFrame (h : s.Fine) {f : Frame → Frame}
    (hf : ∀ frame : Frame, frame.Fine s.catalog → (f frame).Fine s.catalog) :
    (s.modifyFrame f).Fine := by
  obtain ⟨hcatalog, hframes⟩ := h
  refine ⟨by rwa [modifyFrame_catalog], ?_⟩
  rw [modifyFrame_catalog]
  unfold ResolverState.modifyFrame
  cases hs : s.frames with
  | nil =>
    simp only [allFrames, hs, List.nil_append, List.forall_mem_singleton] at hframes ⊢
    exact hf _ hframes
  | cons frame outer =>
    simp only [allFrames, hs, List.cons_append, List.forall_mem_cons] at hframes ⊢
    exact ⟨hf _ hframes.1, hframes.2⟩

theorem Fine.enter (h : s.Fine) (span : Span) : (s.enter span).Fine := by
  refine ⟨h.catalog, List.forall_mem_cons.mpr ⟨⟨rfl, ?_⟩, h.frames⟩⟩
  intro entry hentry
  exact absurd hentry List.not_mem_nil

theorem Fine.leave (h : s.Fine) : s.leave.Fine := by
  unfold ResolverState.leave
  cases hs : s.frames with
  | nil => exact h
  | cons frame outer =>
    have houter : { s with frames := outer }.Fine := by
      refine ⟨h.catalog, fun f hf => h.frames f ?_⟩
      simp only [allFrames, hs, List.cons_append]
      exact List.mem_cons_of_mem _ hf
    exact houter.modifyFrame fun f hf => ⟨hf.known, hf.scope⟩

@[simp] theorem leave_catalog (s : ResolverState) : s.leave.catalog = s.catalog := by
  unfold leave
  split <;> simp

@[simp] theorem leave_diagnostics (s : ResolverState) : s.leave.diagnostics = s.diagnostics := by
  unfold leave
  split <;> simp

theorem leave_index (s : ResolverState) : s.leave.index = s.index := by
  unfold leave
  split
  · rw [modifyFrame_index]
  · rfl

theorem start_fine (index : LineIndex) {c : Catalog} (h : c.Closed) : (start index c).Fine := by
  refine ⟨h, List.forall_mem_singleton.mpr ⟨rfl, ?_⟩⟩
  intro entry hentry
  exact absurd hentry List.not_mem_nil

end ResolverState

/-! ### Resolvers -/

namespace Resolver

open ResolverState

variable {α β : Type} {P P' : Catalog → Prop} {Q Q' : Catalog → α → Prop} {R : Catalog → β → Prop}

/-- What does the same behind earlier complaints never takes one back. -/
theorem failed_of_behind {r : Resolver α} {s : ResolverState} (hs : s.Failed)
    (h : ∀ ds trees, r.run ({ s with diagnostics := [] }.behind ds trees) =
      ((r.run { s with diagnostics := [] }).1,
        (r.run { s with diagnostics := [] }).2.behind ds trees)) : (r.run s).2.Failed := by
  have hstate : { s with diagnostics := [] }.behind s.diagnostics [] = s := by
    simp [behind]
  have hrun := h s.diagnostics []
  rw [hstate] at hrun
  obtain ⟨d, hd, herror⟩ := hs
  exact ⟨d, by rw [hrun]; exact List.mem_append_left _ hd, herror⟩

theorem Orderly.failed {r : Resolver α} (h : Orderly r) {s : ResolverState}
    (hopen : s.frames ≠ []) (hs : s.Failed) : (r.run s).2.Failed :=
  failed_of_behind hs (h { s with diagnostics := [] } hopen).behind

/-- A run that ends in a state in order has only added to the catalog, and its
result is good there and in whatever the catalog becomes. -/
structure Done (s : ResolverState) (Q : Catalog → α → Prop) (result : α × ResolverState) :
    Prop where
  fine : result.2.Fine
  grows : s.catalog.Grows result.2.catalog
  good : ∀ c, result.2.catalog.Grows c → Q c result.1

/-- What is done in a scope of its own is done as well when the scope is left. -/
theorem run_within_done {r : Resolver α} {span : Span} {s : ResolverState}
    (h : (r.run (s.enter span)).2.Failed ∨ Done (s.enter span) Q (r.run (s.enter span))) :
    ((within span r).run s).2.Failed ∨ Done s Q ((within span r).run s) := by
  rw [run_within]
  rcases h with ⟨d, hd, herror⟩ | hdone
  · exact .inl ⟨d, by rwa [leave_diagnostics], herror⟩
  · refine .inr ⟨hdone.fine.leave, ?_, ?_⟩
    · rw [leave_catalog]
      exact hdone.grows
    · rw [leave_catalog]
      exact hdone.good

/-- Whether a resolver, where something holds of the catalog and all that grow out
of it, gives a good result unless there is an error. -/
structure Delivers (P : Catalog → Prop) (r : Resolver α) (Q : Catalog → α → Prop) : Prop where
  orderly : Orderly r
  run : ∀ s, s.frames ≠ [] → s.Fine → (∀ c, s.catalog.Grows c → P c) →
    (r.run s).2.Failed ∨ Done s Q (r.run s)

namespace Delivers

variable {r : Resolver α} {f : α → Resolver β}

theorem pure {a : α} (h : ∀ c, P c → Q c a) : Delivers P (pure a) Q :=
  ⟨.pure a, fun _ _ hs hP => .inr ⟨hs, .refl _, fun c hc => h c (hP c hc)⟩⟩

theorem weaken (hr : Delivers P r Q) (hP : ∀ c, P' c → P c) (hQ : ∀ c a, Q c a → Q' c a) :
    Delivers P' r Q' := by
  refine ⟨hr.orderly, fun s hopen hs hP' => ?_⟩
  rcases hr.run s hopen hs fun c hc => hP c (hP' c hc) with hfailed | hdone
  · exact .inl hfailed
  · exact .inr ⟨hdone.fine, hdone.grows, fun c hc => hQ c _ (hdone.good c hc)⟩

theorem bind (hr : Delivers P r Q) (hf : ∀ a, Delivers (fun c => P c ∧ Q c a) (f a) R) :
    Delivers P (r >>= f) R := by
  refine ⟨hr.orderly.bind fun a => (hf a).orderly, fun s hopen hs hP => ?_⟩
  have hopen' := (hr.orderly s hopen).keeps.isOpen
  rcases hr.run s hopen hs hP with hfailed | hdone
  · exact .inl ((hf _).orderly.failed hopen' hfailed)
  · have hnext : ∀ c, (r.run s).2.catalog.Grows c → P c ∧ Q c (r.run s).1 := fun c hc =>
      ⟨hP c (hdone.grows.trans hc), hdone.good c hc⟩
    rcases (hf (r.run s).1).run (r.run s).2 hopen' hdone.fine hnext with hfailed | hdone'
    · exact .inl hfailed
    · exact .inr ⟨hdone'.fine, hdone.grows.trans hdone'.grows, hdone'.good⟩

theorem map (hr : Delivers P r Q) {g : α → β} (hg : ∀ c a, Q c a → R c (g a)) :
    Delivers P (g <$> r) R :=
  hr.bind fun a => pure fun c h => hg c a h.2

/-- Looks at a state, which is in order. -/
theorem view {f : ResolverState → Resolver β} (horderly : Orderly (get >>= f))
    (hf : ∀ s, s.Fine → Delivers (fun c => P c ∧ s.catalog.Grows c) (f s) R) :
    Delivers P (get >>= f) R :=
  ⟨horderly, fun s hopen hs hP => (hf s hs).run s hopen hs fun c hc => ⟨hP c hc, hc⟩⟩

/-- Nothing need be said of what follows an error. -/
theorem error {make : Range → Diagnostic} {span : Span}
    (hmake : ∀ range, (make range).isError = true) {Q : Catalog → Unit → Prop} :
    Delivers P (complain make span) Q := by
  refine ⟨.complain make span, fun s _ _ _ => .inl ?_⟩
  exact ⟨make (s.index.range span), List.mem_append_right _ List.mem_cons_self, hmake _⟩

theorem refuse {make : Range → Diagnostic} {span : Span}
    (hmake : ∀ range, (make range).isError = true) {a : α} :
    Delivers P (do Resolver.complain make span; return a) Q :=
  (error hmake (Q := fun _ _ => False)).bind fun _ => pure fun _ h => h.2.elim

theorem complain (make : Range → Diagnostic) (span : Span) :
    Delivers P (complain make span) fun _ _ => True :=
  ⟨.complain make span, fun _ _ hs _ => .inr ⟨⟨hs.catalog, hs.frames⟩, .refl _, fun _ _ => trivial⟩⟩

theorem catalog : Delivers P catalog fun c before => before.Closed ∧ before.Grows c :=
  ⟨catalog_orderly, fun _ _ hs _ => .inr ⟨hs, .refl _, fun _ hc => ⟨hs.catalog, hc⟩⟩⟩

theorem modifyCatalog {g : Catalog → Catalog} (hg : ∀ c, P c → c.Extends (g c)) :
    Delivers P (modifyCatalog g) fun _ _ => True := by
  refine ⟨.modifyCatalog g, fun s _ hs hP => .inr ?_⟩
  obtain ⟨hfine, hgrow⟩ := hs.extendCatalog (hg _ (hP _ (.refl _)))
  exact ⟨hfine, hgrow, fun _ _ => trivial⟩

/-- Changes the innermost open scope. -/
theorem modifyFrame {f : Frame → Frame}
    (hforget : ∀ frame : Frame, (f frame.forgetLeft).forgetLeft = (f frame).forgetLeft)
    (hf : ∀ c, P c → ∀ frame : Frame, frame.Fine c → (f frame).Fine c) :
    Delivers P (modify fun s => s.modifyFrame f) fun _ _ => True := by
  refine ⟨.modifyFrame hforget, fun s _ hs hP => .inr ?_⟩
  refine ⟨hs.modifyFrame (hf _ (hP _ (.refl _))), ?_, fun _ _ => trivial⟩
  show s.catalog.Grows (s.modifyFrame f).catalog
  rw [modifyFrame_catalog]
  exact .refl _

theorem bindColumns (table : TableId) :
    Delivers P (modify fun s => s.bindColumns table) fun _ _ => True := by
  refine ⟨.bindColumns table, fun s _ hs _ => .inr ⟨hs.modifyFrame fun frame hframe => ?_, ?_, ?_⟩⟩
  · have hcolumns : ∀ id ∈ (s.catalog.table table).columns, s.catalog.HasColumn id :=
      fun id hid => hs.catalog.hasColumn_of_table hid
    refine ⟨hframe.known, ?_⟩
    have hscope := hframe.scope
    generalize (s.catalog.table table).columns = ids at hcolumns
    generalize frame.scope = scope at hscope
    induction ids generalizing scope with
    | nil => exact hscope
    | cons id ids ih =>
      obtain ⟨hid, hids⟩ := List.forall_mem_cons.mp hcolumns
      exact ih hids _ (hscope.bindColumn _ hid)
  · show s.catalog.Grows (s.bindColumns table).catalog
    unfold ResolverState.bindColumns
    rw [modifyFrame_catalog]
    exact .refl _
  · exact fun _ _ => trivial

theorem bindTable (name : String) {table : TableId} (htable : ∀ c, P c → c.HasTable table) :
    Delivers P (modify fun s => s.bindTable name table) fun _ _ => True := by
  have hscope : Delivers P (modify fun s => s.modifyFrame fun f =>
      { f with scope := f.scope.bindTable name table }) fun _ _ => True :=
    modifyFrame (fun _ => rfl) fun c hc f hf => ⟨hf.known, hf.scope.bindTable name (htable c hc)⟩
  exact hscope.bind fun _ => bindColumns table

theorem bindColumn (name : String) {column : ColumnId}
    (hcolumn : ∀ c, P c → c.HasColumn column) :
    Delivers P (modify fun s => s.bindColumn name column) fun _ _ => True :=
  modifyFrame (fun _ => rfl) fun c hc _ hf => ⟨hf.known, hf.scope.bindColumn name (hcolumn c hc)⟩

theorem within (hr : Delivers P r Q) (span : Span) : Delivers P (within span r) Q :=
  ⟨hr.orderly.within span, fun s _ hs hP =>
    run_within_done (hr.run (s.enter span) (List.cons_ne_nil _ _) (hs.enter span) hP)⟩

end Delivers
end Resolver
end SqlAnalysis
