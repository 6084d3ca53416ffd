import Mathlib.Data.List.Induction
import SqlAnalysis.Diagnostic.Sink

/-!
# Sorted diagnostics in a sink

The sink compares a newcomer with the first item it clashes with and may put it in that
item's place, at another column. Out of order this can bring two items together. If the
diagnostics come sorted by their starts, the only item that can clash is the last one, so
that what is kept stays sorted and apart, and for every diagnostic that was offered
something close by is kept that is as serious.
-/
namespace SqlAnalysis

namespace Severity

theorem outranks_iff {a b : Severity} : a.outranks b = true ↔ a = .error ∧ b = .warning := by
  simp [outranks]

theorem not_outranks_error (a : Severity) : a.outranks .error = false := by
  simp [outranks]

theorem not_outranks_self (a : Severity) : a.outranks a = false := by
  cases a <;> rfl

end Severity

namespace Sink

variable {window : Nat} {d item kept : Diagnostic} {done items : List Diagnostic}

theorem clashes_iff {a b : Diagnostic} :
    clashes window a b = true ↔ a.range.start.line = b.range.start.line ∧
      a.range.start.column < b.range.start.column + window ∧
      b.range.start.column < a.range.start.column + window := by
  simp only [clashes, Bool.and_eq_true, beq_iff_eq, decide_eq_true_eq]
  omega

/-- What stands between two that clash clashes with both. -/
theorem clashes_between {a b c : Diagnostic} (h : clashes window a c = true)
    (hab : a.range.start ≤ b.range.start) (hbc : b.range.start ≤ c.range.start) :
    clashes window a b = true ∧ clashes window b c = true := by
  simp only [clashes_iff, Position.le_iff] at *
  omega

/-- Either a newcomer clashes with no item, or it meets the first with which it does. -/
theorem settle_cases (window : Nat) (d : Diagnostic) (items : List Diagnostic) :
    (settle window d items = none ∧ ∀ item ∈ items, clashes window item d = false) ∨
      ∃ before item after, items = before ++ item :: after ∧ clashes window item d = true ∧
        (∀ x ∈ before, clashes window x d = false) ∧
        settle window d items = some (d.severity.outranks item.severity,
          before ++ (if d.severity.outranks item.severity then d else item) :: after) := by
  induction items with
  | nil => exact .inl ⟨rfl, by simp⟩
  | cons first items ih =>
    unfold settle
    by_cases hclash : clashes window first d = true
    · refine .inr ⟨[], first, items, rfl, hclash, by simp, ?_⟩
      rw [if_pos hclash]
      cases d.severity.outranks first.severity <;> rfl
    · rw [if_neg hclash]
      rw [Bool.not_eq_true] at hclash
      rcases ih with ⟨hnone, hall⟩ | ⟨before, item, after, rfl, hitem, hbefore, hsome⟩
      · exact .inl ⟨by rw [hnone]; rfl, List.forall_mem_cons.mpr ⟨hclash, hall⟩⟩
      · refine .inr ⟨first :: before, item, after, rfl, hitem, ?_, by rw [hsome]; rfl⟩
        exact List.forall_mem_cons.mpr ⟨hclash, hbefore⟩

/-- Whether what is kept makes up for a diagnostic: it is that diagnostic or one that
counts as the same problem, and no less serious. -/
structure StandsFor (window : Nat) (kept d : Diagnostic) : Prop where
  near : kept = d ∨ clashes window kept d = true
  severity : d.severity.outranks kept.severity = false

theorem StandsFor.refl (window : Nat) (d : Diagnostic) : StandsFor window d d :=
  ⟨.inl rfl, Severity.not_outranks_self _⟩

/-- What a sink holds when the diagnostics `done` have been offered to it in order. A
warning that is kept may still be replaced, so it must not lie behind what it stands for. -/
structure Holds (window : Nat) (done items : List Diagnostic) : Prop where
  ordered : items.Pairwise fun a b => a.range.start ≤ b.range.start
  apart : items.Pairwise fun a b => clashes window a b = false
  offered : ∀ item ∈ items, item ∈ done
  covered : ∀ d ∈ done, ∃ kept ∈ items, StandsFor window kept d ∧
    (kept.severity = .warning → kept.range.start ≤ d.range.start)

theorem Holds.nil (window : Nat) : Holds window [] [] :=
  ⟨.nil, .nil, by simp, by simp⟩

namespace Holds

/-- Nothing stands behind an item that a later diagnostic clashes with. -/
theorem after_eq_nil {before after : List Diagnostic}
    (h : Holds window done (before ++ item :: after))
    (hlast : ∀ x ∈ done, x.range.start ≤ d.range.start) (hclash : clashes window item d = true) :
    after = [] := by
  apply List.eq_nil_iff_forall_not_mem.mpr
  intro x hx
  have hordered := (List.pairwise_append.mp h.ordered).2.1
  have hapart := (List.pairwise_append.mp h.apart).2.1
  have hle : item.range.start ≤ x.range.start := (List.pairwise_cons.mp hordered).1 x hx
  have hxd : x.range.start ≤ d.range.start := hlast x (h.offered x (by simp [hx]))
  have hfree : clashes window item x = false := (List.pairwise_cons.mp hapart).1 x hx
  rw [(clashes_between hclash hle hxd).1] at hfree
  cases hfree

theorem append (h : Holds window done items) (hlast : ∀ x ∈ done, x.range.start ≤ d.range.start)
    (hfree : ∀ item ∈ items, clashes window item d = false) :
    Holds window (done ++ [d]) (items ++ [d]) where
  ordered := by
    refine List.pairwise_append.mpr ⟨h.ordered, List.pairwise_singleton _ _, ?_⟩
    intro item hitem x hx
    obtain rfl := List.mem_singleton.mp hx
    exact hlast item (h.offered item hitem)
  apart := by
    refine List.pairwise_append.mpr ⟨h.apart, List.pairwise_singleton _ _, ?_⟩
    intro item hitem x hx
    obtain rfl := List.mem_singleton.mp hx
    exact hfree item hitem
  offered := by
    intro item hitem
    rcases List.mem_append.mp hitem with hitem | hitem
    · exact List.mem_append_left _ (h.offered item hitem)
    · exact List.mem_append_right _ hitem
  covered := by
    intro x hx
    rcases List.mem_append.mp hx with hx | hx
    · obtain ⟨kept, hkept, hstands⟩ := h.covered x hx
      exact ⟨kept, List.mem_append_left _ hkept, hstands⟩
    · obtain rfl := List.mem_singleton.mp hx
      exact ⟨x, List.mem_concat_self, .refl _ _, fun _ => Position.le_refl _⟩

/-- A newcomer that is no more serious than what it clashes with is dropped. -/
theorem drop (h : Holds window done items) (hlast : ∀ x ∈ done, x.range.start ≤ d.range.start)
    (hitem : item ∈ items) (hclash : clashes window item d = true)
    (hrank : d.severity.outranks item.severity = false) : Holds window (done ++ [d]) items where
  ordered := h.ordered
  apart := h.apart
  offered := fun x hx => List.mem_append_left _ (h.offered x hx)
  covered := by
    intro x hx
    rcases List.mem_append.mp hx with hx | hx
    · exact h.covered x hx
    · obtain rfl := List.mem_singleton.mp hx
      exact ⟨item, hitem, ⟨.inr hclash, hrank⟩, fun _ => hlast item (h.offered item hitem)⟩

/-- An error takes the place of a warning at the end. All that the warning stood for
lies between the two. -/
theorem replace {before : List Diagnostic} (h : Holds window done (before ++ [item]))
    (hlast : ∀ x ∈ done, x.range.start ≤ d.range.start) (hclash : clashes window item d = true)
    (hbefore : ∀ x ∈ before, clashes window x d = false)
    (hrank : d.severity.outranks item.severity = true) :
    Holds window (done ++ [d]) (before ++ [d]) where
  ordered := by
    have hordered := List.pairwise_append.mp h.ordered
    refine List.pairwise_append.mpr ⟨hordered.1, List.pairwise_singleton _ _, ?_⟩
    intro x hx y hy
    obtain rfl := List.mem_singleton.mp hy
    exact hlast x (h.offered x (List.mem_append_left _ hx))
  apart := by
    have hapart := List.pairwise_append.mp h.apart
    refine List.pairwise_append.mpr ⟨hapart.1, List.pairwise_singleton _ _, ?_⟩
    intro x hx y hy
    obtain rfl := List.mem_singleton.mp hy
    exact hbefore x hx
  offered := by
    intro x hx
    rcases List.mem_append.mp hx with hx | hx
    · exact List.mem_append_left _ (h.offered x (List.mem_append_left _ hx))
    · exact List.mem_append_right _ hx
  covered := by
    obtain ⟨herror, hwarning⟩ := Severity.outranks_iff.mp hrank
    have hserious : ∀ x : Diagnostic, x.severity.outranks d.severity = false := by
      intro x
      rw [herror]
      exact Severity.not_outranks_error _
    intro x hx
    rcases List.mem_append.mp hx with hx | hx
    · obtain ⟨kept, hkept, hstands, hfront⟩ := h.covered x hx
      rcases List.mem_append.mp hkept with hkept | hkept
      · exact ⟨kept, List.mem_append_left _ hkept, hstands, hfront⟩
      · obtain rfl := List.mem_singleton.mp hkept
        have hbetween := clashes_between hclash (hfront hwarning) (hlast x hx)
        have hnear : clashes window d x = true := by
          have hxd := hbetween.2
          rw [clashes_iff] at hxd ⊢
          omega
        refine ⟨d, List.mem_concat_self, ⟨.inr hnear, hserious x⟩, ?_⟩
        rw [herror]
        exact nofun
    · obtain rfl := List.mem_singleton.mp hx
      exact ⟨x, List.mem_concat_self, .refl _ _, fun _ => Position.le_refl _⟩

end Holds

@[simp] theorem window_push (sink : Sink) (d : Diagnostic) :
    (sink.push d).window = sink.window := by
  unfold push offer
  split <;> rfl

/-- One more diagnostic, which starts behind all others. -/
theorem Holds.push {sink : Sink} (h : Holds sink.window done sink.items)
    (hlast : ∀ x ∈ done, x.range.start ≤ d.range.start) :
    Holds sink.window (done ++ [d]) (sink.push d).items := by
  unfold Sink.push offer
  rcases settle_cases sink.window d sink.items with
    ⟨hnone, hfree⟩ | ⟨before, item, after, hitems, hclash, hbefore, hsome⟩
  · rw [hnone]
    exact h.append hlast hfree
  · rw [hsome]
    rw [hitems] at h
    obtain rfl := h.after_eq_nil hlast hclash
    cases hrank : d.severity.outranks item.severity with
    | false => exact h.drop hlast List.mem_concat_self hclash hrank
    | true => exact h.replace hlast hclash hbefore hrank

theorem Holds.extend (ds : List Diagnostic) :
    ∀ (sink : Sink) (done : List Diagnostic), Holds sink.window done sink.items →
      (done ++ ds).Pairwise (fun a b => a.range.start ≤ b.range.start) →
      Holds sink.window (done ++ ds) (sink.extend ds).items := by
  induction ds with
  | nil =>
    intro sink done h _
    rw [List.append_nil]
    exact h
  | cons d ds ih =>
    intro sink done h hsorted
    have hlast : ∀ x ∈ done, x.range.start ≤ d.range.start := fun x hx =>
      (List.pairwise_append.mp hsorted).2.2 x hx d List.mem_cons_self
    have hassoc : done ++ d :: ds = done ++ [d] ++ ds := by simp
    have hpush := h.push hlast
    rw [hassoc] at hsorted ⊢
    rw [← window_push sink d] at hpush ⊢
    exact ih (sink.push d) (done ++ [d]) hpush hsorted

/-- What is kept of diagnostics that are sorted by their starts. -/
theorem holds_ofList {ds : List Diagnostic} (window : Nat)
    (h : ds.Pairwise fun a b => a.range.start ≤ b.range.start) :
    Holds window ds (ofList window ds).items :=
  Holds.extend ds (empty window) [] (.nil window) h

/-! ### Nothing is made up -/

theorem items_push_subset (sink : Sink) (d : Diagnostic) :
    (sink.push d).items ⊆ sink.items ++ [d] := by
  unfold push offer
  rcases settle_cases sink.window d sink.items with
    ⟨hnone, -⟩ | ⟨before, item, after, hitems, -, -, hsome⟩
  · rw [hnone]
    exact List.Subset.refl _
  · rw [hsome, hitems]
    cases d.severity.outranks item.severity <;> intro x hx <;>
      simp only [Bool.false_eq_true, if_true, if_false, List.mem_append, List.mem_cons] at hx ⊢ <;>
      grind

theorem items_extend_subset (ds : List Diagnostic) :
    ∀ sink : Sink, (sink.extend ds).items ⊆ sink.items ++ ds := by
  induction ds with
  | nil => simp [Sink.extend]
  | cons d ds ih =>
    intro sink x hx
    rcases List.mem_append.mp (ih (sink.push d) hx) with hx | hx
    · rcases List.mem_append.mp (items_push_subset sink d hx) with hx | hx
      · exact List.mem_append_left _ hx
      · rw [List.mem_singleton.mp hx]
        exact List.mem_append_right _ List.mem_cons_self
    · exact List.mem_append_right _ (List.mem_cons_of_mem d hx)

/-- In whatever order diagnostics are offered, only these are kept. -/
theorem items_ofList_subset (window : Nat) (ds : List Diagnostic) :
    (ofList window ds).items ⊆ ds :=
  items_extend_subset ds (empty window)

/-! ### Diagnostics that are kept close together

An item that is appended is apart from all items, but an error that takes the place of a
warning may come to stand next to an item behind it in the list. Whatever the order of the
diagnostics, this is the one way for two of those that are kept to clash. -/

variable {other : Diagnostic}

/-- The error took the place of a warning when the other was already kept, and stands
between the two: it clashes with both, and they do not clash. -/
structure Squeezed (window : Nat) (done : List Diagnostic) (error other : Diagnostic) : Prop where
  severity : error.severity = .error
  clash : clashes window error other = true
  displaced : ∃ warning, warning.severity = .warning ∧ [warning, other, error].Sublist done ∧
    clashes window warning error = true ∧ clashes window warning other = false

/-- What holds of an item and one that is kept behind it. Only a warning can lose its
place, so that its order to the items behind it has to be known. -/
structure KeptBefore (window : Nat) (done : List Diagnostic) (item other : Diagnostic) : Prop where
  order : item.severity = .warning → [item, other].Sublist done
  apart : clashes window item other = true → Squeezed window done item other

theorem Squeezed.concat (h : Squeezed window done item other) (d : Diagnostic) :
    Squeezed window (done ++ [d]) item other := by
  obtain ⟨warning, hwarning, horder, hclashes⟩ := h.displaced
  exact ⟨h.severity, h.clash, warning, hwarning,
    horder.trans (List.sublist_append_left done [d]), hclashes⟩

namespace KeptBefore

theorem concat (h : KeptBefore window done item other) (d : Diagnostic) :
    KeptBefore window (done ++ [d]) item other :=
  ⟨fun hwarning => (h.order hwarning).trans (List.sublist_append_left done [d]),
    fun hclash => (h.apart hclash).concat d⟩

/-- A newcomer behind an item it does not clash with. -/
theorem newcomer (hitem : item ∈ done) (hfree : clashes window item d = false) :
    KeptBefore window (done ++ [d]) item d where
  order := fun _ => (List.singleton_sublist.mpr hitem).append (List.Sublist.refl [d])
  apart := by
    intro hclash
    rw [hfree] at hclash
    cases hclash

/-- A newcomer in the place of a warning. -/
theorem displace (h : KeptBefore window done item other)
    (hclash : clashes window item d = true) (hrank : d.severity.outranks item.severity = true) :
    KeptBefore window (done ++ [d]) d other := by
  obtain ⟨herror, hwarning⟩ := Severity.outranks_iff.mp hrank
  have hfree : clashes window item other = false := by
    cases hnear : clashes window item other with
    | false => rfl
    | true =>
      have hserious := (h.apart hnear).severity
      rw [hwarning] at hserious
      cases hserious
  have horder : [item, other, d].Sublist (done ++ [d]) :=
    (h.order hwarning).append (List.Sublist.refl [d])
  refine ⟨?_, fun hnear => ⟨herror, hnear, item, hwarning, horder, hclash, hfree⟩⟩
  intro hmild
  rw [herror] at hmild
  cases hmild

end KeptBefore

/-- One more diagnostic, from wherever it comes. -/
theorem keptBefore_push (sink : Sink) (d : Diagnostic) (hoffered : sink.items ⊆ done)
    (h : sink.items.Pairwise (KeptBefore sink.window done)) :
    (sink.push d).items.Pairwise (KeptBefore sink.window (done ++ [d])) := by
  have hgrown : sink.items.Pairwise (KeptBefore sink.window (done ++ [d])) :=
    h.imp fun hpair => hpair.concat d
  unfold push offer
  rcases settle_cases sink.window d sink.items with
    ⟨hnone, hfree⟩ | ⟨before, item, after, hitems, hclash, hbefore, hsome⟩
  · rw [hnone]
    refine List.pairwise_append.mpr ⟨hgrown, List.pairwise_singleton _ _, ?_⟩
    intro x hx y hy
    obtain rfl := List.mem_singleton.mp hy
    exact .newcomer (hoffered hx) (hfree x hx)
  · rw [hsome]
    cases hrank : d.severity.outranks item.severity with
    | false =>
      rw [hitems] at hgrown
      exact hgrown
    | true =>
      rw [hitems] at h hgrown hoffered
      have hafter := (List.pairwise_append.mp h).2.1
      obtain ⟨hfront, hback, hacross⟩ := List.pairwise_append.mp hgrown
      refine List.pairwise_append.mpr ⟨hfront, List.pairwise_cons.mpr ⟨?_, hback.tail⟩, ?_⟩
      · intro x hx
        exact ((List.pairwise_cons.mp hafter).1 x hx).displace hclash hrank
      · intro x hx y hy
        rcases List.mem_cons.mp hy with rfl | hy
        · exact .newcomer (hoffered (List.mem_append_left _ hx)) (hbefore x hx)
        · exact hacross x hx y (List.mem_cons_of_mem _ hy)

theorem ofList_concat (window : Nat) (ds : List Diagnostic) (d : Diagnostic) :
    ofList window (ds ++ [d]) = (ofList window ds).push d := by
  simp [ofList, extend]

@[simp] theorem window_ofList (window : Nat) (ds : List Diagnostic) :
    (ofList window ds).window = window := by
  induction ds using List.reverseRecOn with
  | nil => rfl
  | append_singleton ds d ih => rw [ofList_concat, window_push, ih]

/-- Of what a run keeps, each item is related to all behind it. -/
theorem keptBefore_ofList (window : Nat) (ds : List Diagnostic) :
    (ofList window ds).items.Pairwise (KeptBefore window ds) := by
  induction ds using List.reverseRecOn with
  | nil => exact .nil
  | append_singleton ds d ih =>
    rw [ofList_concat]
    have hpush := keptBefore_push (ofList window ds) d (items_ofList_subset window ds)
    rw [window_ofList] at hpush
    exact hpush ih

/-- Of two that are kept and clash, the one in front is an error that took the place of a
warning, between that warning and the other, when both were kept. Two warnings never clash. -/
theorem items_ofList_squeezed (window : Nat) (ds : List Diagnostic) :
    (ofList window ds).items.Pairwise fun item other =>
      clashes window item other = true → Squeezed window ds item other :=
  (keptBefore_ofList window ds).imp KeptBefore.apart

/-- An error between two warnings that are a window apart takes the place of the first,
and the second stays where it is. -/
theorem items_ofList_not_apart :
    ¬ ∀ (window : Nat) (ds : List Diagnostic), 0 < window →
      (ofList window ds).items.Pairwise fun item other => clashes window item other = false := by
  intro h
  have hapart := h 10 [.warning "a" ⟨⟨0, 0⟩, ⟨0, 1⟩⟩, .warning "b" ⟨⟨0, 10⟩, ⟨0, 11⟩⟩,
    .semantic "c" ⟨⟨0, 5⟩, ⟨0, 6⟩⟩] (by decide)
  revert hapart
  decide

end Sink
end SqlAnalysis
