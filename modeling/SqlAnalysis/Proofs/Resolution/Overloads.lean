import SqlAnalysis.Proofs.Syntax.Likeness
import SqlAnalysis.Signature

/-!
# Calls whose arguments are unknown

No two signatures of a function have the same shape. So the types of the arguments do
not choose among signatures; they only decide whether the one of the right shape takes
them, and an argument of unknown type is taken by every parameter.
-/
namespace SqlAnalysis.Signature

open Text

/-- If the signatures have one name, no call has the shape of both. -/
def Apart (s t : Signature) : Prop :=
  s.name = t.name → s.star = t.star → s.star = false ∧
    s.variadic = false ∧ t.variadic = false ∧ s.params.length ≠ t.params.length

instance : DecidableRel Apart := fun _ _ => inferInstanceAs (Decidable (_ → _ → _))

theorem pairwise_apart : all.Pairwise Apart := by
  decide +kernel

theorem Apart.not_fitsShape {s t : Signature} (h : Apart s t) (hname : s.name = t.name)
    {count : Nat} {star : Bool} (hs : s.fitsShape count star = true)
    (ht : t.fitsShape count star = true) : False := by
  unfold fitsShape at hs ht
  cases star with
  | true =>
    rw [if_pos rfl] at hs ht
    obtain ⟨hstar, -⟩ := h hname (hs.trans ht.symm)
    exact Bool.false_ne_true (hstar.symm.trans hs)
  | false =>
    simp only [Bool.false_eq_true, if_false, Bool.and_eq_true, Bool.not_eq_true'] at hs ht
    obtain ⟨-, hvariadic, hvariadic', hlength⟩ := h hname (hs.1.trans ht.1.symm)
    simp only [hvariadic, hvariadic', Bool.false_eq_true, if_false, beq_iff_eq] at hs ht
    exact hlength (hs.2.symm.trans ht.2)

/-- A function has one signature of a shape at most. -/
theorem length_fitting_le_one (name : String) (count : Nat) (star : Bool) :
    ((overloads name).filter fun s => s.fitsShape count star).length ≤ 1 := by
  have hapart : ((overloads name).filter fun s => s.fitsShape count star).Pairwise Apart :=
    (pairwise_apart.filter _).filter _
  have hmem : ∀ s ∈ (overloads name).filter fun s => s.fitsShape count star,
      s.name = foldCase name ∧ s.fitsShape count star = true := by
    intro s hs
    obtain ⟨hover, hfits⟩ := List.mem_filter.mp hs
    exact ⟨by simpa using (List.mem_filter.mp hover).2, hfits⟩
  revert hapart hmem
  generalize (overloads name).filter (fun s => s.fitsShape count star) = fitting
  intro hapart hmem
  rcases fitting with _ | ⟨s, _ | ⟨t, rest⟩⟩
  · exact Nat.zero_le 1
  · exact Nat.le_refl 1
  · have hs := hmem s (by simp)
    have ht := hmem t (by simp)
    have hst : Apart s t := List.rel_of_pairwise_cons hapart (by simp)
    exact (hst.not_fitsShape (hs.1.trans ht.1.symm) hs.2 ht.2).elim

variable {forget : Prop} {args args' : List (Option SqlType)}

theorem accepts_of_like {p : ParamType} {a a' : Option SqlType} (h : TypeLike forget a a')
    (ha : p.accepts a = true) : p.accepts a' = true := by
  obtain rfl | ⟨-, rfl⟩ := h
  · exact ha
  · exact p.accepts_none

theorem all_accepts_of_like {p : ParamType} (h : List.Forall₂ (TypeLike forget) args args')
    (hall : args.all p.accepts = true) : args'.all p.accepts = true := by
  induction h with
  | nil => rfl
  | cons ha _ ih =>
    rw [List.all_cons, Bool.and_eq_true] at hall ⊢
    exact ⟨accepts_of_like ha hall.1, ih hall.2⟩

/-- Arguments are still taken when their types are forgotten. -/
theorem fitsTypes_of_like (h : List.Forall₂ (TypeLike forget) args args')
    {ps : List ParamType} (hfits : fitsTypes ps args = true) : fitsTypes ps args' = true := by
  induction h generalizing ps with
  | nil => cases ps <;> rfl
  | @cons a a' rest rest' ha hrest ih =>
    rcases ps with _ | ⟨p, _ | ⟨q, ps⟩⟩
    · rfl
    · exact all_accepts_of_like (.cons ha hrest) hfits
    · simp only [fitsTypes, Bool.and_eq_true] at hfits ⊢
      exact ⟨accepts_of_like ha hfits.1, ih hfits.2⟩

theorem resultType_like (s : Signature) (h : List.Forall₂ (TypeLike forget) args args') :
    TypeLike forget (s.resultType args) (s.resultType args') := by
  unfold resultType
  split
  · exact Std.Refl.refl _
  · cases h with
    | nil => exact Std.Refl.refl _
    | cons ha _ => exact ha

/-- Types differ only where they may be forgotten. -/
theorem forget_of_ne (h : List.Forall₂ (TypeLike forget) args args') (hne : args' ≠ args) :
    forget := by
  induction h with
  | nil => exact (hne rfl).elim
  | cons ha _ ih =>
    obtain rfl | ⟨hforget, -⟩ := ha
    · exact ih fun hrest => hne (congrArg _ hrest)
    · exact hforget

/-- What a call turns out to be stays the same when types of its arguments are forgotten,
but for its type, unless it was wrong for these types. -/
inductive Match.Like (forget : Prop) : Match → Match → Prop
  | resolved {t t' : Option SqlType} {aggregate : Bool} (h : TypeLike forget t t') :
    Match.Like forget (.resolved t aggregate) (.resolved t' aggregate)
  | unknownFunction : Match.Like forget .unknownFunction .unknownFunction
  | wrongArity (expected : List String) :
    Match.Like forget (.wrongArity expected) (.wrongArity expected)
  | noMatchingSignature (expected : List String) :
    Match.Like forget (.noMatchingSignature expected) (.noMatchingSignature expected)
  | forgotten (hforget : forget) (expected : List String) (found : Match) :
    Match.Like forget (.noMatchingSignature expected) found

theorem resolve_like {name name' : String} (hname : foldCase name = foldCase name')
    (h : List.Forall₂ (TypeLike forget) args args') (star : Bool) :
    (resolve name args star).Like forget (resolve name' args' star) := by
  have hnames : overloads name = overloads name' := by
    rw [overloads, overloads, hname]
  have hone := length_fitting_le_one name args.length star
  unfold resolve
  rw [← hnames, ← h.length_eq]
  generalize overloads name = candidates at hone
  cases candidates with
  | nil => exact .unknownFunction
  | cons first others =>
    dsimp only
    generalize (first :: others).filter (fun s => s.fitsShape args.length star) = fitting at hone
    rcases fitting with _ | ⟨s, _ | ⟨t, rest⟩⟩
    · exact .wrongArity _
    · simp only [List.find?_cons, List.find?_nil]
      cases hfits : fitsTypes s.params args with
      | true =>
        rw [fitsTypes_of_like h hfits]
        exact .resolved (resultType_like s h)
      | false =>
        by_cases hsame : args' = args
        · rw [hsame, hfits]
          exact .noMatchingSignature _
        · exact .forgotten (forget_of_ne h hsame) _ _
    · simp at hone

end SqlAnalysis.Signature
