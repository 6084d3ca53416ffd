import Mathlib.Data.List.Induction
import SqlAnalysis.Proofs.Source.Ranges
import SqlAnalysis.Scope.Tree

/-!
# Finding scopes by position

The way to the innermost scope around a position enters a child as long as one touches
the position, and so ends at a scope of which no child does.
-/
namespace SqlAnalysis.ScopeTree

variable {p : Position} {t found : ScopeTree}

/-- Whether every scope but the outermost has its ends in order and lies within the one
around it. -/
inductive Nests : ScopeTree → Prop
  | mk {scope : Scope} {children : List ScopeTree} :
      (∀ t ∈ children, t.scope.range.start ≤ t.scope.range.stop ∧
        scope.range.encloses t.scope.range = true) →
      (∀ t ∈ children, Nests t) → Nests (.node scope children)

theorem Nests.inside (h : t.Nests) : ∀ child ∈ t.children,
    child.scope.range.start ≤ child.scope.range.stop ∧
      t.scope.range.encloses child.scope.range = true := by
  cases h with
  | mk hinside _ => exact hinside

theorem Nests.child (h : t.Nests) : ∀ child ∈ t.children, child.Nests := by
  cases h with
  | mk _ hchildren => exact hchildren

/-- What is found further inside lies within every scope on the way. -/
theorem Nests.get? {path : Path} (h : t.Nests) (hfound : t.get? path = some found) :
    found.Nests ∧ t.scope.range.encloses found.scope.range = true := by
  induction path generalizing t with
  | nil =>
    obtain rfl := Option.some.inj hfound
    exact ⟨h, Range.encloses_refl _⟩
  | cons i path ih =>
    obtain ⟨child, hchild, hfound⟩ := Option.bind_eq_some_iff.mp hfound
    have hmem := List.mem_of_getElem? hchild
    obtain ⟨hnests, hencloses⟩ := ih (h.child child hmem) hfound
    exact ⟨hnests, Range.encloses_trans (h.inside child hmem).2 hencloses⟩

/-! ### The child to enter -/

theorem closest?_concat (candidates : List (Range × Path)) (c : Range × Path) :
    closest? (candidates ++ [c]) =
      match closest? candidates with
      | some best => if isCloser c.1 best.1 then some c else some best
      | none => some c :=
  List.foldl_concat _ _ _ _

theorem mem_of_closest? {candidates : List (Range × Path)} {best : Range × Path}
    (h : closest? candidates = some best) : best ∈ candidates := by
  induction candidates using List.reverseRecOn generalizing best with
  | nil => simp [closest?] at h
  | append_singleton candidates c ih =>
    rw [closest?_concat] at h
    rw [List.mem_append, List.mem_singleton]
    split at h
    · next earlier hearlier =>
      split at h
      · exact .inr (Option.some.inj h).symm
      · exact .inl (Option.some.inj h ▸ ih hearlier)
    · exact .inr (Option.some.inj h).symm

theorem eq_nil_of_closest? {candidates : List (Range × Path)} (h : closest? candidates = none) :
    candidates = [] := by
  induction candidates using List.reverseRecOn with
  | nil => rfl
  | append_singleton candidates c ih =>
    rw [closest?_concat] at h
    split at h
    · split at h <;> cases h
    · cases h

theorem exists_of_mem_candidatesAt {c : Range × Path} {ts : List ScopeTree} :
    ∀ {i : Nat}, c ∈ candidatesAt p i ts → ∃ k t, ts[k]? = some t ∧
      t.scope.range.touches p = true ∧ c.2 = (i + k) :: t.pathAt p := by
  induction ts with
  | nil => simp [candidatesAt]
  | cons t ts ih =>
    intro i h
    have hlater : c ∈ candidatesAt p (i + 1) ts → ∃ k u, (t :: ts)[k]? = some u ∧
        u.scope.range.touches p = true ∧ c.2 = (i + k) :: u.pathAt p := by
      intro hmem
      obtain ⟨k, u, hu, htouches, hc⟩ := ih hmem
      exact ⟨k + 1, u, hu, htouches, by rw [hc, Nat.add_right_comm, Nat.add_assoc]⟩
    rw [candidatesAt] at h
    split at h
    · next htouches =>
      rcases List.mem_cons.mp h with rfl | h
      · exact ⟨0, t, rfl, htouches, rfl⟩
      · exact hlater h
    · exact hlater h

theorem candidatesAt_eq_nil {ts : List ScopeTree} : ∀ {i : Nat}, candidatesAt p i ts = [] →
    ∀ t ∈ ts, t.scope.range.touches p = false := by
  induction ts with
  | nil => simp
  | cons t ts ih =>
    intro i h
    rw [candidatesAt] at h
    split at h
    · cases h
    · next htouches =>
      exact List.forall_mem_cons.mpr ⟨Bool.eq_false_iff.mpr htouches, ih h⟩

/-- A child that touches the position is entered if there is one. -/
theorem pathAt_cases (p : Position) (t : ScopeTree) :
    (t.pathAt p = [] ∧ ∀ child ∈ t.children, child.scope.range.touches p = false) ∨
      ∃ k child, t.children[k]? = some child ∧ child.scope.range.touches p = true ∧
        t.pathAt p = k :: child.pathAt p := by
  obtain ⟨scope, children⟩ := t
  rw [pathAt]
  split
  · next range path hbest =>
    obtain ⟨k, child, hchild, htouches, hpath⟩ :=
      exists_of_mem_candidatesAt (mem_of_closest? hbest)
    rw [Nat.zero_add] at hpath
    exact .inr ⟨k, child, hchild, htouches, hpath⟩
  · next hnone => exact .inl ⟨rfl, candidatesAt_eq_nil (eq_nil_of_closest? hnone)⟩

theorem pathAt_eq_nil_iff : t.pathAt p = [] ↔
    ∀ child ∈ t.children, child.scope.range.touches p = false := by
  rcases pathAt_cases p t with ⟨hpath, hnone⟩ | ⟨k, child, hchild, htouches, hpath⟩
  · exact ⟨fun _ => hnone, fun _ => hpath⟩
  · constructor
    · intro h
      rw [hpath] at h
      cases h
    · intro h
      have hfalse := h child (List.mem_of_getElem? hchild)
      rw [htouches] at hfalse
      cases hfalse

/-! ### The scope that is found -/

/-- The way leads to a scope of which no child touches the position, and which does so
itself if the first scope does. -/
theorem exists_get?_pathAt (p : Position) : ∀ t : ScopeTree, ∃ found,
    t.get? (t.pathAt p) = some found ∧
      (t.scope.range.touches p = true → found.scope.range.touches p = true) ∧
        ∀ child ∈ found.children, child.scope.range.touches p = false
  | .node scope children => by
    rcases pathAt_cases p (.node scope children) with
      ⟨hpath, hnone⟩ | ⟨k, child, hchild, htouches, hpath⟩
    · exact ⟨_, by rw [hpath]; rfl, id, hnone⟩
    · have hmem : child ∈ children := List.mem_of_getElem? hchild
      obtain ⟨found, hfound, hkeeps, hinner⟩ := exists_get?_pathAt p child
      refine ⟨found, ?_, fun _ => hkeeps htouches, hinner⟩
      rw [hpath]
      exact Option.bind_eq_some_iff.mpr ⟨child, hchild, hfound⟩

theorem chainFrom_head? {path : Path} (h : t.get? path = some found) :
    ∀ outer, (chainFrom outer path t).head? = some found.scope := by
  induction path generalizing t with
  | nil =>
    obtain rfl := Option.some.inj h
    exact fun _ => rfl
  | cons i path ih =>
    obtain ⟨child, hchild, hfound⟩ := Option.bind_eq_some_iff.mp h
    intro outer
    rw [chainFrom, hchild]
    exact ih hfound _

/-- The innermost scope around a position in nested scopes: below the outermost it lies
in a child that touches the position and touches it as well. -/
theorem Nests.exists_chainAt (h : t.Nests) (p : Position) : ∃ found,
    t.get? (t.pathAt p) = some found ∧ (t.chainAt p).head? = some found.scope ∧
      (t.pathAt p ≠ [] → found.scope.range.touches p = true ∧
        ∃ child ∈ t.children, child.scope.range.touches p = true ∧
          child.scope.range.encloses found.scope.range = true) ∧
      ∀ child ∈ found.children, child.scope.range.touches p = false := by
  obtain ⟨found, hfound, -, hinner⟩ := exists_get?_pathAt p t
  refine ⟨found, hfound, chainFrom_head? hfound [], fun hne => ?_, hinner⟩
  rcases pathAt_cases p t with ⟨hpath, -⟩ | ⟨k, child, hchild, htouches, hpath⟩
  · exact absurd hpath hne
  have hmem := List.mem_of_getElem? hchild
  obtain ⟨inner, hget, hkeeps, -⟩ := exists_get?_pathAt p child
  have hsame : found = inner := by
    rw [hpath] at hfound
    obtain ⟨child', hchild', hfound⟩ := Option.bind_eq_some_iff.mp hfound
    obtain rfl : child = child' := Option.some.inj (hchild.symm.trans hchild')
    exact Option.some.inj (hfound.symm.trans hget)
  rw [hsame]
  exact ⟨hkeeps htouches, child, hmem, htouches, ((h.child child hmem).get? hget).2⟩

end SqlAnalysis.ScopeTree
