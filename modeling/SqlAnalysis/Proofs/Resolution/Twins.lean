import SqlAnalysis.Proofs.Catalog.Likeness
import SqlAnalysis.Proofs.Diagnostic.Sinks
import SqlAnalysis.Proofs.Resolution.Delivery
import SqlAnalysis.Proofs.Resolution.Orderly
import SqlAnalysis.Proofs.Syntax.LikeTexts

/-!
# Two resolvers side by side

Two resolvers run on states that are alike: their catalogs differ in the case of names
only, and where types may be forgotten the second catalog may lack types of the first.
They are twins if they then give related results in states that are alike again and
complain about the same. Where types may be forgotten, nothing is said once the first one
complains of an error.
-/
namespace SqlAnalysis

open Text

/-- The entries mean the same by one name, up to case. -/
structure EntryLike {α : Type} (a b : String × α) : Prop where
  name : foldCase a.1 = foldCase b.1
  meaning : a.2 = b.2

/-- The pairs are related part by part. -/
structure Both {α β : Type} (R : α → α → Prop) (S : β → β → Prop) (x y : α × β) : Prop where
  left : R x.1 y.1
  right : S x.2 y.2

instance EntryLike.refl {α : Type} : Std.Refl (EntryLike (α := α)) :=
  ⟨fun _ => ⟨rfl, rfl⟩⟩

instance Both.refl {α β : Type} {R : α → α → Prop} {S : β → β → Prop} [Std.Refl R] [Std.Refl S] :
    Std.Refl (Both R S) :=
  ⟨fun _ => ⟨Std.Refl.refl _, Std.Refl.refl _⟩⟩

/-! ### Alike states -/

namespace Scope

theorem bindTable_eq {name name' : String} (h : foldCase name = foldCase name') (s : Scope)
    (id : TableId) : s.bindTable name id = s.bindTable name' id := by
  rw [bindTable, bindTable, h]

theorem bindColumn_eq {name name' : String} (h : foldCase name = foldCase name') (s : Scope)
    (id : ColumnId) : s.bindColumn name id = s.bindColumn name' id := by
  rw [bindColumn, bindColumn, h]

theorem lookup_eq {name name' : String} (h : foldCase name = foldCase name')
    (scopes : List Scope) (wanted : Symbol → Bool) :
    lookup scopes name wanted = lookup scopes name' wanted := by
  simp only [lookup, symbol?, h]

end Scope

variable {forget : Prop}

namespace ResolverState

structure Like (forget : Prop) (s s' : ResolverState) : Prop where
  index : s.index = s'.index
  catalog : s.catalog.Like forget s'.catalog
  diagnostics : List.Forall₂ Diagnostic.Like s.diagnostics s'.diagnostics
  frames : s.frames = s'.frames
  root : s.root = s'.root

namespace Like

variable {s s' : ResolverState}

theorem scopes (h : s.Like forget s') : s.scopes = s'.scopes := by
  rw [ResolverState.scopes, ResolverState.scopes, allFrames, allFrames, h.frames, h.root]

theorem isOpaque (h : s.Like forget s') : s.isOpaque = s'.isOpaque := by
  rw [ResolverState.isOpaque, ResolverState.isOpaque, allFrames, allFrames, h.frames, h.root]

theorem modifyFrame (h : s.Like forget s') (f : Frame → Frame) :
    (s.modifyFrame f).Like forget (s'.modifyFrame f) := by
  unfold ResolverState.modifyFrame
  rw [← h.frames, ← h.root]
  split
  · exact { h with frames := rfl, root := rfl }
  · exact { h with frames := rfl, root := rfl }

theorem enter (h : s.Like forget s') (span : Span) :
    (s.enter span).Like forget (s'.enter span) := by
  unfold ResolverState.enter
  rw [← h.frames, ← h.root, ← h.index]
  exact { h with frames := rfl, index := rfl, root := rfl }

theorem leave (h : s.Like forget s') : s.leave.Like forget s'.leave := by
  unfold ResolverState.leave
  rw [← h.frames]
  split
  · next frame outer _ =>
    have hout : ResolverState.Like forget { s with frames := outer } { s' with frames := outer } :=
      { h with frames := rfl }
    exact hout.modifyFrame _
  · exact h

theorem bindColumns (h : s.Like forget s') (table : TableId) :
    (s.bindColumns table).Like forget (s'.bindColumns table) := by
  have hbind : ∀ scope : Scope,
      (s.catalog.table table).columns.foldl
          (fun scope id => scope.bindColumn (s.catalog.column id).name id) scope =
        (s'.catalog.table table).columns.foldl
          (fun scope id => scope.bindColumn (s'.catalog.column id).name id) scope := by
    rw [← (h.catalog.table table).columns]
    intro scope
    congr 1
    funext scope id
    exact Scope.bindColumn_eq (h.catalog.column id).name scope id
  unfold ResolverState.bindColumns
  simp only [hbind]
  exact h.modifyFrame _

theorem bindTable (h : s.Like forget s') {name name' : String}
    (hname : foldCase name = foldCase name') (table : TableId) :
    (s.bindTable name table).Like forget (s'.bindTable name' table) := by
  unfold ResolverState.bindTable
  simp only [Scope.bindTable_eq hname]
  exact (h.modifyFrame _).bindColumns table

theorem bindColumn (h : s.Like forget s') {name name' : String}
    (hname : foldCase name = foldCase name') (column : ColumnId) :
    (s.bindColumn name column).Like forget (s'.bindColumn name' column) := by
  unfold ResolverState.bindColumn
  simp only [Scope.bindColumn_eq hname]
  exact h.modifyFrame _

end Like
end ResolverState

namespace Resolver

open ResolverState

variable {α β : Type} {R : α → α → Prop} {S : β → β → Prop}

/-! ### Twins -/

/-- The runs end alike, unless the first one complains of an error where it may. -/
def TwinRuns (forget : Prop) (R : α → α → Prop) (x y : α × ResolverState) : Prop :=
  (forget ∧ x.2.Failed) ∨ R x.1 y.1 ∧ x.2.Like forget y.2

/-- Whether two resolvers, run inside a scope on alike states, end alike. -/
structure Twins (forget : Prop) (r r' : Resolver α) (R : α → α → Prop) : Prop where
  orderly : Orderly r
  run : ∀ s s', s.frames ≠ [] → s.Like forget s' → TwinRuns forget R (r.run s) (r'.run s')

namespace Twins

variable {r r' : Resolver α} {f f' : α → Resolver β}

theorem pure {a a' : α} (h : R a a') : Twins forget (pure a) (pure a') R :=
  ⟨.pure a, fun _ _ _ hs => .inr ⟨h, hs⟩⟩

/-- What is done after an error does not matter, but must not take it back. -/
theorem bind [Std.Refl R] (hr : Twins forget r r' R)
    (hf : ∀ a a', R a a' → Twins forget (f a) (f' a') S) :
    Twins forget (r >>= f) (r' >>= f') S := by
  have horderly : ∀ a, Orderly (f a) := fun a => (hf a a (Std.Refl.refl a)).orderly
  refine ⟨hr.orderly.bind horderly, fun s s' hopen hs => ?_⟩
  have hopen' := (hr.orderly s hopen).keeps.isOpen
  rcases hr.run s s' hopen hs with ⟨hforget, hfailed⟩ | ⟨hresult, hafter⟩
  · exact .inl ⟨hforget, (horderly _).failed hopen' hfailed⟩
  · exact (hf _ _ hresult).run _ _ hopen' hafter

theorem map [Std.Refl R] (hr : Twins forget r r' R) {g g' : α → β}
    (hg : ∀ a a', R a a' → S (g a) (g' a')) : Twins forget (g <$> r) (g' <$> r') S :=
  hr.bind fun a a' h => pure (hg a a' h)

/-- Looks at states that are alike. -/
theorem view {f f' : ResolverState → Resolver β} (horderly : Orderly (get >>= f))
    (hf : ∀ s s' : ResolverState, s.Like forget s' → Twins forget (f s) (f' s') S) :
    Twins forget (get >>= f) (get >>= f') S :=
  ⟨horderly, fun s s' hopen hs => (hf s s' hs).run s s' hopen hs⟩

theorem update {g g' : ResolverState → ResolverState}
    (horderly : Orderly (modify g : Resolver Unit))
    (hg : ∀ s s' : ResolverState, s.Like forget s' → (g s).Like forget (g' s')) :
    Twins forget (modify g) (modify g') Eq :=
  ⟨horderly, fun s s' _ hs => .inr ⟨rfl, hg s s' hs⟩⟩

theorem modifyFrame {f : Frame → Frame}
    (hforget : ∀ frame : Frame, (f frame.forgetLeft).forgetLeft = (f frame).forgetLeft) :
    Twins forget (modify fun s => s.modifyFrame f) (modify fun s => s.modifyFrame f) Eq :=
  update (.modifyFrame hforget) fun _ _ hs => hs.modifyFrame f

theorem modifyCatalog {g g' : Catalog → Catalog}
    (hg : ∀ c c' : Catalog, c.Like forget c' → (g c).Like forget (g' c')) :
    Twins forget (modifyCatalog g) (Resolver.modifyCatalog g') Eq :=
  update (.modifyCatalog g) fun _ _ hs => { hs with catalog := hg _ _ hs.catalog }

theorem complain {make make' : Range → Diagnostic} (h : ∀ range, (make range).Like (make' range))
    (span : Span) : Twins forget (complain make span) (Resolver.complain make' span) Eq := by
  refine update (.complain make span) fun s s' hs => { hs with diagnostics := ?_ }
  exact List.rel_append hs.diagnostics (.cons (hs.index ▸ h _) .nil)

theorem bindTable {name name' : String} (h : foldCase name = foldCase name') (table : TableId) :
    Twins forget (modify fun s => s.bindTable name table)
      (modify fun s => s.bindTable name' table) Eq :=
  update (.bindTable name table) fun _ _ hs => hs.bindTable h table

theorem bindColumns (table : TableId) :
    Twins forget (modify fun s => s.bindColumns table)
      (modify fun s => s.bindColumns table) Eq :=
  update (.bindColumns table) fun _ _ hs => hs.bindColumns table

theorem bindColumn {name name' : String} (h : foldCase name = foldCase name')
    (column : ColumnId) :
    Twins forget (modify fun s => s.bindColumn name column)
      (modify fun s => s.bindColumn name' column) Eq :=
  update (.bindColumn name column) fun _ _ hs => hs.bindColumn h column

/-- In a scope of their own twins end alike wherever they are run. -/
theorem within_twinRuns (hr : Twins forget r r' R) (span : Span) {s s' : ResolverState}
    (hs : s.Like forget s') :
    TwinRuns forget R ((Resolver.within span r).run s) ((Resolver.within span r').run s') := by
  rw [run_within, run_within]
  rcases hr.run _ _ (List.cons_ne_nil _ _) (hs.enter span) with
    ⟨hforget, d, hd, herror⟩ | ⟨hresult, hafter⟩
  · exact .inl ⟨hforget, d, by rwa [leave_diagnostics], herror⟩
  · exact .inr ⟨hresult, hafter.leave⟩

theorem within (hr : Twins forget r r' R) (span : Span) :
    Twins forget (within span r) (Resolver.within span r') R :=
  ⟨hr.orderly.within span, fun _ _ _ hs => hr.within_twinRuns span hs⟩

/-- A resolver that always complains of an error has every twin. -/
theorem of_failed (hforget : forget) (horderly : Orderly r) (h : ∀ s, (r.run s).2.Failed) :
    Twins forget r r' R :=
  ⟨horderly, fun s _ _ _ => .inl ⟨hforget, h s⟩⟩

theorem mapM [Std.Refl S] {γ : Type} {T : γ → γ → Prop} {f f' : γ → Resolver β}
    {as as' : List γ} (h : List.Forall₂ T as as')
    (hf : ∀ a a', T a a' → Twins forget (f a) (f' a') S) :
    Twins forget (as.mapM f) (as'.mapM f') (List.Forall₂ S) := by
  induction h with
  | nil => exact .pure .nil
  | cons ha _ ih =>
    rw [List.mapM_cons, List.mapM_cons]
    exact (hf _ _ ha).bind fun b b' hb => ih.bind fun bs bs' hbs => .pure (.cons hb hbs)

theorem forM {γ : Type} {T : γ → γ → Prop} {f f' : γ → Resolver Unit} {as as' : List γ}
    (h : List.Forall₂ T as as') (hf : ∀ a a', T a a' → Twins forget (f a) (f' a') Eq) :
    Twins forget (as.forM f) (as'.forM f') Eq := by
  induction h with
  | nil => exact .pure rfl
  | cons ha _ ih => exact (hf _ _ ha).bind fun _ _ _ => ih

end Twins
end Resolver
end SqlAnalysis
