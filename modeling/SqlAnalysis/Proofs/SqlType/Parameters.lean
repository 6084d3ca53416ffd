import SqlAnalysis.Proofs.Pointwise
import SqlAnalysis.SqlType.Result
import SqlAnalysis.SqlType.Storage

/-!
# Parameters that types have

A type that is read, built from parts, found for a literal or given by an operation has at
most the parameters that its kind takes, and each of them fits a word. The last holds because
lengths are cut at the largest word when they are added, and because decimal arithmetic has
only parameters that an operand has.
-/
namespace SqlAnalysis

open Text

namespace SqlType

/-- A type that can be declared: its kind takes the parameters, and each fits a word. -/
structure Admitted (t : SqlType) : Prop where
  count : t.params.length ≤ t.kind.parameters.length
  words : ∀ n ∈ t.params, n ≤ maxWord

theorem admitted_plain (kind : TypeKind) : (plain kind).Admitted :=
  ⟨Nat.zero_le _, fun _ hn => absurd hn List.not_mem_nil⟩

/-- Only texts and decimals have parameters. -/
theorem Admitted.kind_of_params {t : SqlType} (h : t.Admitted) (hne : t.params ≠ []) :
    t.kind = .varchar ∨ t.kind = .char ∨ t.kind = .decimal := by
  have hpos : 0 < t.kind.parameters.length :=
    Nat.lt_of_lt_of_le (List.length_pos_iff.mpr hne) h.count
  cases hkind : t.kind <;> simp [hkind, TypeKind.parameters] at hpos ⊢

/-! ### Types from names and parameters -/

section

variable {name raw : String} {params : List Nat} {t : SqlType}

/-- A type has the parameters that were given, or none. -/
theorem params_of_ofParts (h : ofParts name params = .ok t) : t.params ⊆ params := by
  unfold ofParts at h
  split at h
  · cases h
  · dsimp only at h
    split at h
    · cases h
      exact List.nil_subset params
    · split at h <;> cases h
      exact List.Subset.refl params

/-- A type has no more parameters than its kind takes. -/
theorem count_of_ofParts (h : ofParts name params = .ok t) :
    t.params.length ≤ t.kind.parameters.length := by
  unfold ofParts at h
  split at h
  · cases h
  · dsimp only at h
    split at h
    · cases h
      exact Nat.zero_le _
    · split at h <;> cases h
      next hlength => exact Nat.not_lt.mp hlength

theorem ofParts_admitted (hwords : ∀ n ∈ params, n ≤ maxWord) (h : ofParts name params = .ok t) :
    t.Admitted :=
  ⟨count_of_ofParts h, fun n hn => hwords n (params_of_ofParts h hn)⟩

theorem ofName?_name (kind : TypeKind) : TypeKind.ofName? kind.name = some kind := by
  cases kind <;> decide +kernel

/-- The canonical name of a kind stands for it, with all parameters that it takes. -/
theorem ofParts_name (h : t.params.length ≤ t.kind.parameters.length) :
    ofParts t.kind.name t.params = .ok t := by
  unfold ofParts
  rw [ofName?_name]
  dsimp only
  split
  · next haccepted =>
    have hparams : t.params = [] := List.eq_nil_of_length_eq_zero (by omega)
    rw [plain, ← hparams]
  · rw [if_neg (Nat.not_lt.mpr h)]

theorem readParams?_words {cs : List Char} (h : readParams? cs = some params) :
    ∀ n ∈ params, n ≤ maxWord := by
  unfold readParams? at h
  split at h
  · intro n hn
    obtain ⟨part, -, hpart⟩ := exists_of_mem_right (mapM_eq_some_iff.mp h) hn
    exact word?_le hpart
  · cases h

/-- What is read has the parameters between its brackets, if it has brackets. -/
theorem parse_admitted (h : parse raw = .ok t) : t.Admitted := by
  unfold parse at h
  dsimp only at h
  split at h
  · cases h
  · cases h
  · next params hparams _ =>
    refine ofParts_admitted ?_ h
    split at hparams
    · exact readParams?_words hparams
    · cases hparams
      exact fun _ hn => absurd hn List.not_mem_nil

end

/-! ### Types of literals and operations -/

section

variable {a b t : SqlType}

theorem sqlType?_admitted {value : Literal} (h : value.sqlType? = some t) : t.Admitted := by
  have hone {kind : TypeKind} {n : Nat} (hkind : 1 ≤ kind.parameters.length) (hn : n ≤ maxWord) :
      SqlType.Admitted ⟨kind, [n]⟩ :=
    ⟨hkind, List.forall_mem_singleton.mpr hn⟩
  cases value with
  | integer _ | float _ | boolean _ =>
    cases h
    exact admitted_plain _
  | string s =>
    cases h
    exact hone (by decide) (Nat.min_le_right _ _)
  | character c =>
    cases h
    exact hone (by decide) (by decide)
  | null => cases h

theorem length_maxParams (xs ys : List Nat) :
    (maxParams xs ys).length = max xs.length ys.length := by
  induction xs, ys using maxParams.induct with
  | case1 ys => simp [maxParams]
  | case2 xs _ => cases xs <;> simp [maxParams]
  | case3 x xs y ys ih => simp [maxParams, ih]

theorem mem_maxParams {xs ys : List Nat} {n : Nat} (h : n ∈ maxParams xs ys) : n ∈ xs ∨ n ∈ ys := by
  induction xs, ys using maxParams.induct with
  | case1 ys => exact .inr h
  | case2 xs _ => cases xs <;> exact .inl h
  | case3 x xs y ys ih =>
    rw [maxParams, List.mem_cons] at h
    rcases h with rfl | h
    · rcases Nat.le_total x y with hle | hle
      · exact .inr (by rw [Nat.max_eq_right hle]; exact List.mem_cons_self)
      · exact .inl (by rw [Nat.max_eq_left hle]; exact List.mem_cons_self)
    · exact (ih h).imp (List.mem_cons_of_mem x) (List.mem_cons_of_mem y)

theorem Admitted.decimalParams (h : t.Admitted) :
    t.decimalParams.length ≤ TypeKind.decimal.parameters.length ∧
      ∀ n ∈ t.decimalParams, n ≤ maxWord := by
  unfold SqlType.decimalParams
  split
  · next hkind => exact ⟨hkind ▸ h.count, h.words⟩
  · exact ⟨Nat.zero_le _, fun _ hn => absurd hn List.not_mem_nil⟩

/-- Lengths that are added are cut at the largest word. -/
theorem joinedLength_admitted (a b : SqlType) : SqlType.Admitted ⟨.varchar, joinedLength a b⟩ := by
  unfold joinedLength
  split
  · exact ⟨Nat.le_refl _, List.forall_mem_singleton.mpr (Nat.min_le_right _ _)⟩
  · exact admitted_plain .varchar

theorem Admitted.maxParams (ha : a.Admitted) (hb : b.Admitted) :
    SqlType.Admitted ⟨.decimal, SqlType.maxParams a.decimalParams b.decimalParams⟩ := by
  obtain ⟨hcount, hwords⟩ := ha.decimalParams
  obtain ⟨hcount', hwords'⟩ := hb.decimalParams
  refine ⟨?_, fun n hn => (mem_maxParams hn).elim (hwords n) (hwords' n)⟩
  rw [length_maxParams]
  exact Nat.max_le.mpr ⟨hcount, hcount'⟩

theorem operate?_admitted {op : BinaryOperator} (ha : a.Admitted) (hb : b.Admitted)
    (h : operate? op a b = some t) : t.Admitted := by
  obtain ⟨kind, -, rfl⟩ := Option.map_eq_some_iff.mp h
  split
  · exact joinedLength_admitted a b
  · exact ha.maxParams hb
  · exact admitted_plain _

theorem operateUnary?_admitted {op : UnaryOperator} (ha : a.Admitted)
    (h : operateUnary? op a = some t) : t.Admitted := by
  unfold operateUnary? at h
  split at h <;> split at h <;> cases h
  · exact ha
  · exact admitted_plain _

end

end SqlType
end SqlAnalysis
