import Mathlib.Data.List.Forall2
import Mathlib.Data.Option.Basic

/-!
# Related lists

Lists and options whose entries are related place by place, and what keeps them so.
-/
namespace SqlAnalysis

variable {α β : Type} {R : α → β → Prop} {as : List α} {bs : List β}

instance forall₂_refl {R : α → α → Prop} [Std.Refl R] : Std.Refl (List.Forall₂ R) :=
  ⟨List.forall₂_refl⟩

instance rel_refl {R : α → α → Prop} [Std.Refl R] : Std.Refl (Option.Rel R) where
  refl
    | none => .none
    | some a => .some (Std.Refl.refl a)

theorem forall₂_getElem? (h : List.Forall₂ R as bs) (i : Nat) : Option.Rel R as[i]? bs[i]? := by
  induction h generalizing i with
  | nil => exact .none
  | cons hab _ ih =>
    cases i with
    | zero => exact .some hab
    | succ i => simpa using ih i

theorem exists_of_mem_right (h : List.Forall₂ R as bs) {b : β} (hb : b ∈ bs) :
    ∃ a ∈ as, R a b := by
  obtain ⟨i, hi, rfl⟩ := List.getElem_of_mem hb
  have hlength := h.length_eq
  exact ⟨as[i], List.getElem_mem (by omega), h.get (by omega) hi⟩

theorem exists_of_mem_left (h : List.Forall₂ R as bs) {a : α} (ha : a ∈ as) : ∃ b ∈ bs, R a b :=
  exists_of_mem_right (R := flip R) h.flip ha

theorem forall₂_getLast? (h : List.Forall₂ R as bs) : Option.Rel R as.getLast? bs.getLast? := by
  rw [List.getLast?_eq_getElem?, List.getLast?_eq_getElem?, h.length_eq]
  exact forall₂_getElem? h _

theorem forall₂_isEmpty (h : List.Forall₂ R as bs) : as.isEmpty = bs.isEmpty := by
  cases h <;> rfl

theorem map_eq_of_forall₂ {γ : Type} {f : α → γ} {g : β → γ}
    (h : List.Forall₂ (fun a b => g b = f a) as bs) : bs.map g = as.map f := by
  induction h with
  | nil => rfl
  | cons hab _ ih => rw [List.map_cons, List.map_cons, hab, ih]

theorem forall₂_modify {f : α → α} {g : β → β} (hfg : ∀ a b, R a b → R (f a) (g b))
    (h : List.Forall₂ R as bs) (i : Nat) : List.Forall₂ R (as.modify i f) (bs.modify i g) := by
  induction h generalizing i with
  | nil => simp
  | cons hab hrest ih =>
    cases i with
    | zero => simpa using ⟨hfg _ _ hab, hrest⟩
    | succ i => simpa using ⟨hab, ih i⟩

theorem forall₂_takeWhile {p : α → Bool} {q : β → Bool} (hpq : ∀ a b, R a b → p a = q b)
    (h : List.Forall₂ R as bs) : List.Forall₂ R (as.takeWhile p) (bs.takeWhile q) := by
  induction h with
  | nil => exact .nil
  | cons hab _ ih =>
    rw [List.takeWhile_cons, List.takeWhile_cons, hpq _ _ hab]
    split
    · exact .cons hab ih
    · exact .nil

theorem forall₂_find? {p : α → Bool} {q : β → Bool} (hpq : ∀ a b, R a b → p a = q b)
    (h : List.Forall₂ R as bs) : Option.Rel R (as.find? p) (bs.find? q) := by
  induction h with
  | nil => exact .none
  | cons hab _ ih =>
    rw [List.find?_cons, List.find?_cons, hpq _ _ hab]
    split
    · exact .some hab
    · exact ih

theorem mapM_eq_some_iff {f : α → Option β} :
    as.mapM f = some bs ↔ List.Forall₂ (fun a b => f a = some b) as bs := by
  induction as generalizing bs with
  | nil => simp [eq_comm]
  | cons a as ih =>
    rw [List.mapM_cons]
    constructor
    · intro h
      obtain ⟨b, hb, h⟩ := Option.bind_eq_some_iff.mp h
      obtain ⟨bs', hbs, h⟩ := Option.bind_eq_some_iff.mp h
      cases h
      exact .cons hb (ih.mp hbs)
    · rintro (_ | ⟨hb, hbs⟩)
      rw [hb, ih.mpr hbs]
      rfl

theorem rel_getD {a : Option α} {b : Option β} (h : Option.Rel R a b) {x : α} {y : β}
    (hxy : R x y) : R (a.getD x) (b.getD y) := by
  cases h with
  | none => exact hxy
  | some h => exact h

theorem rel_toList {a : Option α} {b : Option β} (h : Option.Rel R a b) :
    List.Forall₂ R a.toList b.toList := by
  cases h with
  | none => exact .nil
  | some h => exact .cons h .nil

/-- Sorting keeps lists related if the order does not tell related entries apart. -/
theorem forall₂_mergeSort {le : α → α → Bool} {le' : β → β → Bool}
    (hle : ∀ a b c d, R a b → R c d → le a c = le' b d) (h : List.Forall₂ R as bs) :
    List.Forall₂ R (as.mergeSort le) (bs.mergeSort le') := by
  have hlength := h.length_eq
  let pairs := as.zip bs
  have hpairs : ∀ pair ∈ pairs, R pair.1 pair.2 := fun _ hpair => List.forall₂_zip h hpair
  have hleft : as = pairs.map Prod.fst := (List.map_fst_zip (by omega)).symm
  have hright : bs = pairs.map Prod.snd := (List.map_snd_zip (by omega)).symm
  let sorted := pairs.mergeSort fun p q => le p.1 q.1
  have has : sorted.map Prod.fst = as.mergeSort le := by
    rw [hleft]
    exact List.map_mergeSort fun _ _ _ _ => rfl
  have hbs : sorted.map Prod.snd = bs.mergeSort le' := by
    rw [hright]
    exact List.map_mergeSort fun p hp q hq => hle _ _ _ _ (hpairs p hp) (hpairs q hq)
  rw [← has, ← hbs, List.forall₂_map_left_iff, List.forall₂_map_right_iff, List.forall₂_same]
  exact fun pair hpair => hpairs pair (List.mem_mergeSort.mp hpair)

end SqlAnalysis
