import Mathlib.Data.List.Induction

/-!
# Choosing from a list

A list is gone through once, and what is kept gives way to a newcomer that is preferred to
it. If preference goes on along a chain, the choice does not depend on what was kept in
between: it is the element that is preferred to all before it and that none behind it is
preferred to.
-/
namespace SqlAnalysis

variable {α : Type} {prefers : α → α → Bool}

/-- What is kept when one more element comes. -/
def keepPreferred (prefers : α → α → Bool) (kept : Option α) (x : α) : Option α :=
  match kept with
  | some b => if prefers x b then some x else some b
  | none => some x

/-- Preference is carried on by what is preferred, and by what nothing is preferred to. -/
structure IsPreference (prefers : α → α → Bool) : Prop where
  trans : ∀ a b c, prefers a b = true → prefers b c = true → prefers a c = true
  trans_not : ∀ a b c, prefers a b = true → prefers c b = false → prefers a c = true

/-- The list can be split at the element so that it is preferred to all that come before it,
and none that come behind it are preferred to it. -/
def IsPreferred (prefers : α → α → Bool) (xs : List α) (x : α) : Prop :=
  ∃ before after, xs = before ++ x :: after ∧ (∀ b ∈ before, prefers x b = true) ∧
    ∀ a ∈ after, prefers a x = false

theorem foldl_keepPreferred_concat (xs : List α) (x : α) :
    (xs ++ [x]).foldl (keepPreferred prefers) none =
      keepPreferred prefers (xs.foldl (keepPreferred prefers) none) x := by
  rw [List.foldl_append, List.foldl_cons, List.foldl_nil]

theorem foldl_keepPreferred_eq_none_iff {xs : List α} :
    xs.foldl (keepPreferred prefers) none = none ↔ xs = [] := by
  cases xs using List.reverseRecOn with
  | nil => simp
  | append_singleton xs x =>
    rw [foldl_keepPreferred_concat]
    cases xs.foldl (keepPreferred prefers) none with
    | none => simp [keepPreferred]
    | some b => cases h : prefers x b <;> simp [keepPreferred, h]

theorem isPreferred_of_foldl (h : IsPreference prefers) {xs : List α} {x : α}
    (hx : xs.foldl (keepPreferred prefers) none = some x) : IsPreferred prefers xs x := by
  induction xs using List.reverseRecOn generalizing x with
  | nil => cases hx
  | append_singleton xs y ih =>
    rw [foldl_keepPreferred_concat] at hx
    cases hkept : xs.foldl (keepPreferred prefers) none with
    | none =>
      rw [hkept] at hx
      rw [foldl_keepPreferred_eq_none_iff.mp hkept]
      obtain rfl : y = x := Option.some.inj hx
      exact ⟨[], [], rfl, by simp, by simp⟩
    | some b =>
      obtain ⟨before, after, rfl, hbefore, hafter⟩ := ih hkept
      rw [hkept] at hx
      cases hy : prefers y b with
      | false =>
        obtain rfl : b = x := by simpa [keepPreferred, hy] using hx
        refine ⟨before, after ++ [y], by simp, hbefore, ?_⟩
        exact List.forall_mem_append.mpr ⟨hafter, by simpa using hy⟩
      | true =>
        obtain rfl : y = x := by simpa [keepPreferred, hy] using hx
        refine ⟨before ++ b :: after, [], rfl, ?_, by simp⟩
        refine List.forall_mem_append.mpr ⟨fun a ha => ?_, List.forall_mem_cons.mpr ⟨hy, ?_⟩⟩
        · exact h.trans y b a hy (hbefore a ha)
        · exact fun a ha => h.trans_not y b a hy (hafter a ha)

theorem foldl_keepPreferred_stays {x : α} {after : List α}
    (h : ∀ a ∈ after, prefers a x = false) :
    after.foldl (keepPreferred prefers) (some x) = some x := by
  induction after with
  | nil => rfl
  | cons a after ih =>
    obtain ⟨ha, hafter⟩ := List.forall_mem_cons.mp h
    rw [List.foldl_cons, keepPreferred, ha, if_neg Bool.false_ne_true, ih hafter]

/-- Going through a list ends with its preferred element. -/
theorem foldl_keepPreferred_eq_some_iff (h : IsPreference prefers) {xs : List α} {x : α} :
    xs.foldl (keepPreferred prefers) none = some x ↔ IsPreferred prefers xs x := by
  refine ⟨isPreferred_of_foldl h, ?_⟩
  rintro ⟨before, after, rfl, hbefore, hafter⟩
  have hreached : keepPreferred prefers (before.foldl (keepPreferred prefers) none) x = some x := by
    cases hkept : before.foldl (keepPreferred prefers) none with
    | none => rfl
    | some b =>
      obtain ⟨front, back, rfl, -, -⟩ := isPreferred_of_foldl h hkept
      rw [keepPreferred, hbefore b (by simp), if_pos rfl]
  rw [List.foldl_append, List.foldl_cons, hreached, foldl_keepPreferred_stays hafter]

end SqlAnalysis
