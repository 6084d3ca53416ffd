import SqlAnalysis.Proofs.Catalog.Edits
import SqlAnalysis.Proofs.Resolution.Delivery

/-!
# Resolvers edit the catalog

A resolver changes the catalog by edits only, and what it finds there stays true in
every catalog that further edits lead to. That is stated of single resolvers, also of
those that leave the catalog alone, and holds of sequences, lists and scopes.
-/
namespace SqlAnalysis.Resolver

open Catalog

variable {α β : Type}

theorem run_bind (r : Resolver α) (f : α → Resolver β) (s : ResolverState) :
    (r >>= f).run s = (f (r.run s).1).run (r.run s).2 :=
  rfl

theorem run_catalog_bind (f : Catalog → Resolver α) (s : ResolverState) :
    (catalog >>= f).run s = (f s.catalog).run s :=
  rfl

/-! ### Resolvers that leave the catalog alone -/

def Quiet (r : Resolver α) : Prop :=
  ∀ s, (r.run s).2.catalog = s.catalog

namespace Quiet

variable {r : Resolver α} {f : α → Resolver β}

theorem pure (a : α) : Quiet (pure a) :=
  fun _ => rfl

theorem bind (hr : Quiet r) (hf : ∀ a, Quiet (f a)) : Quiet (r >>= f) :=
  fun s => (hf _ _).trans (hr s)

theorem map (hr : Quiet r) (g : α → β) : Quiet (g <$> r) :=
  hr.bind fun a => pure (g a)

theorem view {f : ResolverState → Resolver β} (hf : ∀ s, Quiet (f s)) : Quiet (get >>= f) :=
  fun s => hf s s

theorem catalog : Quiet catalog :=
  fun _ => rfl

theorem complain (make : Range → Diagnostic) (span : Span) : Quiet (complain make span) :=
  fun _ => rfl

theorem modifyFrame (f : ResolverState → Frame → Frame) :
    Quiet (modify fun s => s.modifyFrame (f s)) :=
  fun s => ResolverState.modifyFrame_catalog s (f s)

theorem bindTable (name : String) (table : TableId) :
    Quiet (modify fun s => s.bindTable name table) := by
  intro s
  show (s.bindTable name table).catalog = s.catalog
  unfold ResolverState.bindTable ResolverState.bindColumns
  rw [ResolverState.modifyFrame_catalog, ResolverState.modifyFrame_catalog]

end Quiet

/-! ### Resolvers that edit it -/

variable {own : Rights} {P P' : Catalog → Prop} {Q Q' : Catalog → α → Prop}
  {R : Catalog → β → Prop}

/-- A run edits the catalog, and its result is good then and after further edits. -/
structure EvolvesAt (own : Rights) (s : ResolverState) (r : Resolver α)
    (Q : Catalog → α → Prop) : Prop where
  edits : Edits own s.catalog (r.run s).2.catalog
  good : ∀ c, Edits own (r.run s).2.catalog c → Q c (r.run s).1

/-- Every run does where something holds of the catalog and of all that edits make of it. -/
def Evolves (own : Rights) (P : Catalog → Prop) (r : Resolver α)
    (Q : Catalog → α → Prop) : Prop :=
  ∀ s, s.catalog.Editable own → (∀ c, Edits own s.catalog c → P c) → EvolvesAt own s r Q

theorem EvolvesAt.bind {s : ResolverState} {r : Resolver α} {f : α → Resolver β}
    (hr : EvolvesAt own s r Q) (hf : EvolvesAt own (r.run s).2 (f (r.run s).1) R) :
    EvolvesAt own s (r >>= f) R :=
  ⟨hr.edits.trans hf.edits, hf.good⟩

/-- What a resolver sees of the catalog is the catalog that it starts with. -/
theorem EvolvesAt.view {s : ResolverState} {f : Catalog → Resolver α}
    (h : EvolvesAt own s (f s.catalog) Q) : EvolvesAt own s (catalog >>= f) Q :=
  ⟨h.edits, h.good⟩

namespace Evolves

variable {r : Resolver α} {f : α → Resolver β}

theorem pure {a : α} (h : ∀ c, P c → Q c a) : Evolves own P (pure a) Q :=
  fun _ _ hP => ⟨.refl, fun c hc => h c (hP c hc)⟩

theorem weaken (hr : Evolves own P r Q) (hP : ∀ c, P' c → P c) (hQ : ∀ c a, Q c a → Q' c a) :
    Evolves own P' r Q' := by
  intro s hs hP'
  have hrun := hr s hs fun c hc => hP c (hP' c hc)
  exact ⟨hrun.edits, fun c hc => hQ c _ (hrun.good c hc)⟩

theorem bind (hr : Evolves own P r Q) (hf : ∀ a, Evolves own (fun c => P c ∧ Q c a) (f a) R) :
    Evolves own P (r >>= f) R := by
  intro s hs hP
  have hrun := hr s hs hP
  refine hrun.bind (hf _ _ (hs.of_edits hrun.edits) fun c hc => ⟨?_, hrun.good c hc⟩)
  exact hP c (hrun.edits.trans hc)

theorem map (hr : Evolves own P r Q) {g : α → β} (hg : ∀ c a, Q c a → R c (g a)) :
    Evolves own P (g <$> r) R :=
  hr.bind fun a => pure fun c h => hg c a h.2

theorem quiet (h : Quiet r) : Evolves own P r fun _ _ => True := by
  intro s _ _
  constructor
  · rw [h s]
  · exact fun _ _ => trivial

/-- A resolver that looks something up says nothing about what was there before. -/
theorem quietly (h : Quiet r)
    (hgood : ∀ s, s.catalog.Editable own → (∀ c, Edits own s.catalog c → P c) →
      ∀ c, Edits own s.catalog c → Q c (r.run s).1) : Evolves own P r Q := by
  intro s hs hP
  constructor
  · rw [h s]
  · intro c hc
    rw [h s] at hc
    exact hgood s hs hP c hc

theorem modifyCatalog {g : Catalog → Catalog}
    (hg : ∀ c, c.Editable own → P c → Edits own c (g c)) :
    Evolves own P (modifyCatalog g) fun _ _ => True :=
  fun s hs hP => ⟨hg s.catalog hs (hP _ .refl), fun _ _ => trivial⟩

theorem within (hr : Evolves own P r Q) (span : Span) : Evolves own P (within span r) Q := by
  intro s hs hP
  have hrun := hr (s.enter span) hs hP
  constructor
  · rw [run_within, ResolverState.leave_catalog]
    exact hrun.edits
  · rw [run_within, ResolverState.leave_catalog]
    exact hrun.good

theorem mapM_of {S : Catalog → α → Prop}
    (hf : ∀ (P : Catalog → Prop) a, (∀ c, P c → S c a) → Evolves own P (f a) R)
    (as : List α) : ∀ P : Catalog → Prop, (∀ c, P c → ∀ a ∈ as, S c a) →
      Evolves own P (as.mapM f) fun c bs => ∀ b ∈ bs, R c b := by
  induction as with
  | nil => exact fun P _ => pure fun _ _ _ hb => absurd hb List.not_mem_nil
  | cons a as ih =>
    intro P hP
    rw [List.mapM_cons]
    apply (hf P a fun c hc => hP c hc a List.mem_cons_self).bind
    intro b
    apply (ih _ fun c h a ha => hP c h.1 a (List.mem_cons_of_mem _ ha)).bind
    intro bs
    exact pure fun c h => List.forall_mem_cons.mpr ⟨h.1.2, h.2⟩

theorem forM_of {f : α → Resolver Unit} {S : Catalog → α → Prop}
    (hf : ∀ (P : Catalog → Prop) a, (∀ c, P c → S c a) → Evolves own P (f a) fun _ _ => True)
    (as : List α) : ∀ P : Catalog → Prop, (∀ c, P c → ∀ a ∈ as, S c a) →
      Evolves own P (as.forM f) fun _ _ => True := by
  induction as with
  | nil => exact fun P _ => pure fun _ _ => trivial
  | cons a as ih =>
    intro P hP
    apply (hf P a fun c hc => hP c hc a List.mem_cons_self).bind
    intro _
    exact ih _ fun c h a ha => hP c h.1 a (List.mem_cons_of_mem _ ha)

end Evolves
end SqlAnalysis.Resolver
