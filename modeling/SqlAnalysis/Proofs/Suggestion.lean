import Mathlib.Order.Bounds.Basic
import SqlAnalysis.Proofs.Preference
import SqlAnalysis.Suggestion

/-!
# The nearest name

The distance of two texts is the least number of edits, insertions, deletions and
substitutions of one character, that turn one into the other. It is computed row by row,
with what the two texts have read up to some place. Counted from the other end, the same
numbers follow the recursion on two lists, where no edit changes the number by more than
one; so agreeing characters need no edit, and the diagonal is best.

What is suggested for a name is the nearest of the candidates that are other names and lie
within two edits, and of those as near the first in alphabetical order. Nothing is
suggested only if there is none.
-/
namespace SqlAnalysis.Suggestion

/-- One edit: a character more, a character less, or another in the place of one. -/
inductive Edit : List Char → List Char → Prop
  | insert (c : Char) (before after : List Char) : Edit (before ++ after) (before ++ c :: after)
  | delete (c : Char) (before after : List Char) : Edit (before ++ c :: after) (before ++ after)
  | substitute (c d : Char) (before after : List Char) :
      Edit (before ++ c :: after) (before ++ d :: after)

/-- Texts that some number of edits, one after the other, turn into one another. -/
inductive Edits : Nat → List Char → List Char → Prop
  | refl (a : List Char) : Edits 0 a a
  | tail {n : Nat} {a b c : List Char} : Edits n a b → Edit b c → Edits (n + 1) a c

/-! ### Edits of longer texts and of texts read backwards -/

theorem Edit.cons (c : Char) {a b : List Char} (h : Edit a b) : Edit (c :: a) (c :: b) := by
  cases h with
  | insert d before after => exact .insert d (c :: before) after
  | delete d before after => exact .delete d (c :: before) after
  | substitute d e before after => exact .substitute d e (c :: before) after

theorem Edit.reverse {a b : List Char} (h : Edit a b) : Edit a.reverse b.reverse := by
  cases h with
  | insert d before after => simpa using Edit.insert d after.reverse before.reverse
  | delete d before after => simpa using Edit.delete d after.reverse before.reverse
  | substitute d e before after =>
    simpa using Edit.substitute d e after.reverse before.reverse

namespace Edits

variable {n : Nat} {a b : List Char}

theorem cons (c : Char) (h : Edits n a b) : Edits n (c :: a) (c :: b) := by
  induction h with
  | refl => exact .refl _
  | tail _ hedit ih => exact .tail ih (hedit.cons c)

theorem reverse (h : Edits n a b) : Edits n a.reverse b.reverse := by
  induction h with
  | refl => exact .refl _
  | tail _ hedit ih => exact .tail ih hedit.reverse

theorem reverse_iff : Edits n a.reverse b.reverse ↔ Edits n a b :=
  ⟨fun h => by simpa using h.reverse, reverse⟩

/-- An edit may also come first. -/
theorem head {a b c : List Char} (hedit : Edit a b) (h : Edits n b c) : Edits (n + 1) a c := by
  induction h with
  | refl => exact .tail (.refl a) hedit
  | tail _ hlast ih => exact .tail (ih hedit) hlast

end Edits

/-! ### The recursion on two texts -/

/-- The number of edits between two texts, by their first characters. -/
def editCount : List Char → List Char → Nat
  | [], b => b.length
  | _ :: a, [] => a.length + 1
  | c :: a, d :: b =>
    if c = d then editCount a b
    else 1 + min (min (editCount a b) (editCount a (d :: b))) (editCount (c :: a) b)

@[simp] theorem editCount_nil_left (b : List Char) : editCount [] b = b.length := by
  rw [editCount]

@[simp] theorem editCount_nil_right (a : List Char) : editCount a [] = a.length := by
  cases a <;> rw [editCount, List.length]

theorem editCount_cons_self (c : Char) (a b : List Char) :
    editCount (c :: a) (c :: b) = editCount a b := by
  rw [editCount, if_pos rfl]

theorem editCount_cons_of_ne {c d : Char} (h : c ≠ d) (a b : List Char) :
    editCount (c :: a) (d :: b) =
      1 + min (min (editCount a b) (editCount a (d :: b))) (editCount (c :: a) b) := by
  rw [editCount, if_neg h]

theorem editCount_comm (a b : List Char) : editCount a b = editCount b a := by
  fun_induction editCount a b with
  | case1 b => simp
  | case2 c a => simp
  | case3 a c b ih => rw [editCount_cons_self, ih]
  | case4 c a d b hne ih ih' ih'' =>
    rw [editCount_cons_of_ne (Ne.symm hne), ih, ih', ih'']
    omega

theorem editCount_self (a : List Char) : editCount a a = 0 := by
  induction a with
  | nil => rw [editCount_nil_left, List.length_nil]
  | cons c a ih => rw [editCount_cons_self, ih]

/-! #### One character more or less -/

/-- Without its first character a text is at most one edit further away. -/
theorem editCount_le_cons (b : List Char) : ∀ (c : Char) (a : List Char),
    editCount a b ≤ editCount (c :: a) b + 1 := by
  induction b with
  | nil => simp; omega
  | cons d b ih =>
    -- One more character on the other side is one more edit at most, by the cases for `b`.
    have hlonger : ∀ a, editCount a (d :: b) ≤ editCount a b + 1 := by
      intro a
      cases a with
      | nil => simp
      | cons e a =>
        by_cases he : e = d
        · subst he
          rw [editCount_cons_self]
          exact ih e a
        · rw [editCount_cons_of_ne he]
          omega
    intro c a
    have hsome := hlonger a
    by_cases hc : c = d
    · subst hc
      rw [editCount_cons_self]
      exact hsome
    · have hless := ih c a
      rw [editCount_cons_of_ne hc]
      omega

theorem editCount_cons_le (c : Char) (a b : List Char) :
    editCount (c :: a) b ≤ editCount a b + 1 := by
  cases b with
  | nil => simp
  | cons d b =>
    by_cases hc : c = d
    · subst hc
      rw [editCount_cons_self, editCount_comm a b, editCount_comm a]
      exact editCount_le_cons a c b
    · rw [editCount_cons_of_ne hc]
      omega

/-- Another first character is at most one edit. -/
theorem editCount_substitute_le (c d : Char) (b a : List Char) :
    editCount (d :: b) a ≤ editCount (c :: b) a + 1 := by
  induction a with
  | nil => simp
  | cons e a ih =>
    have hshorter : editCount b a ≤ editCount b (e :: a) + 1 := by
      rw [editCount_comm b a, editCount_comm b]
      exact editCount_le_cons b e a
    have hdropped := editCount_le_cons a c b
    by_cases hd : d = e <;> by_cases hc : c = e <;> simp only [editCount, hd, hc, if_true, if_false]
    all_goals omega

/-- What changes the number by at most one does so with one more character in front. -/
theorem editCount_cons_le_of_le {b b' : List Char}
    (h : ∀ a, editCount b' a ≤ editCount b a + 1) (c : Char) (a : List Char) :
    editCount (c :: b') a ≤ editCount (c :: b) a + 1 := by
  induction a with
  | nil => simpa using h []
  | cons e a ih =>
    have hboth := h a
    have hone := h (e :: a)
    by_cases hc : c = e <;> simp only [editCount, hc, if_true, if_false] at ih ⊢
    all_goals omega

/-- No edit changes the number of edits by more than one. -/
theorem editCount_le_of_edit {b b' : List Char} (h : Edit b b') :
    ∀ a, editCount b' a ≤ editCount b a + 1 := by
  cases h with
  | insert c before after =>
    induction before with
    | nil => exact editCount_cons_le c after
    | cons d before ih => exact editCount_cons_le_of_le ih d
  | delete c before after =>
    induction before with
    | nil => exact fun a => editCount_le_cons a c after
    | cons d before ih => exact editCount_cons_le_of_le ih d
  | substitute c d before after =>
    induction before with
    | nil => exact editCount_substitute_le c d after
    | cons e before ih => exact editCount_cons_le_of_le ih e

/-! #### The least number of edits -/

theorem edits_nil_left (b : List Char) : Edits b.length [] b := by
  induction b with
  | nil => exact .refl []
  | cons c b ih => exact .tail ih (.insert c [] b)

theorem edits_nil_right (a : List Char) : Edits a.length a [] := by
  induction a with
  | nil => exact .refl []
  | cons c a ih => exact ih.head (.delete c [] a)

theorem edits_editCount (a b : List Char) : Edits (editCount a b) a b := by
  fun_induction editCount a b with
  | case1 b => exact edits_nil_left b
  | case2 c a => exact edits_nil_right (c :: a)
  | case3 a c b ih => exact ih.cons c
  | case4 c a d b hne hboth hleft hright =>
    have hsubstituted : Edits (editCount a b + 1) (c :: a) (d :: b) :=
      (hboth.cons d).head (.substitute c d [] a)
    have hdeleted : Edits (editCount a (d :: b) + 1) (c :: a) (d :: b) :=
      hleft.head (.delete c [] a)
    have hinserted : Edits (editCount (c :: a) b + 1) (c :: a) (d :: b) :=
      hright.tail (.insert d [] b)
    rw [Nat.add_comm 1]
    rcases Nat.le_total (min (editCount a b) (editCount a (d :: b))) (editCount (c :: a) b) with
      hle | hle
    · rw [Nat.min_eq_left hle]
      rcases Nat.le_total (editCount a b) (editCount a (d :: b)) with hle | hle
      · rwa [Nat.min_eq_left hle]
      · rwa [Nat.min_eq_right hle]
    · rwa [Nat.min_eq_right hle]

theorem editCount_le_of_edits {n : Nat} {a b : List Char} (h : Edits n a b) :
    editCount a b ≤ n := by
  induction h with
  | refl a => exact Nat.le_of_eq (editCount_self a)
  | @tail n a b c _ hedit ih =>
    have hstep := editCount_le_of_edit hedit a
    rw [editCount_comm c, editCount_comm b] at hstep
    omega

theorem isLeast_editCount (a b : List Char) : IsLeast {n | Edits n a b} (editCount a b) :=
  ⟨edits_editCount a b, fun _ h => editCount_le_of_edits h⟩

/-! ### The rows -/

/-- The numbers of edits between `a` and what has been read of a text, now and after each of
the characters left. What has been read stands with its last character first. -/
def rowFrom (a read : List Char) : List Char → List Nat
  | [] => [editCount a read]
  | d :: left => editCount a read :: rowFrom a (d :: read) left

theorem exists_rowFrom (a read left : List Char) :
    ∃ row, rowFrom a read left = editCount a read :: row := by
  cases left with
  | nil => exact ⟨_, rfl⟩
  | cons d left => exact ⟨_, rfl⟩

theorem firstRow_eq (b : List Char) : firstRow b = rowFrom [] [] b := by
  have hrange : ∀ left read : List Char,
      rowFrom [] read left = List.range' read.length (left.length + 1) := by
    intro left
    induction left with
    | nil => simp [rowFrom]
    | cons d left ih => intro read; simp [rowFrom, ih, List.range'_succ]
  rw [hrange, firstRow, List.range_eq_range', List.length_nil]

/-- Each entry comes of the three that the recursion asks for. -/
theorem rowRest_rowFrom (c : Char) (a left : List Char) : ∀ read : List Char,
    rowRest c (editCount (c :: a) read) left (rowFrom a read left) =
      (rowFrom (c :: a) read left).tail := by
  induction left with
  | nil => exact fun read => rfl
  | cons d left ih =>
    intro read
    obtain ⟨above, habove⟩ := exists_rowFrom a (d :: read) left
    obtain ⟨row, hrow⟩ := exists_rowFrom (c :: a) (d :: read) left
    have hentry : (if c = d then editCount a read
        else 1 + min (min (editCount a read) (editCount a (d :: read))) (editCount (c :: a) read)) =
        editCount (c :: a) (d :: read) := by rw [editCount]
    have hrest := ih (d :: read)
    rw [habove, hrow, List.tail_cons] at hrest
    rw [rowFrom, rowFrom, habove, rowRest, hentry, hrest, hrow, List.tail_cons]

theorem nextRow_rowFrom (c : Char) (a b : List Char) :
    nextRow b (rowFrom a [] b) c = rowFrom (c :: a) [] b := by
  obtain ⟨above, habove⟩ := exists_rowFrom a [] b
  obtain ⟨row, hrow⟩ := exists_rowFrom (c :: a) [] b
  have hfirst : (rowFrom a [] b).headD 0 + 1 = editCount (c :: a) [] := by simp [habove]
  rw [nextRow, hfirst, rowRest_rowFrom, hrow, List.tail_cons]

theorem foldl_nextRow (a b : List Char) : ∀ read : List Char,
    a.foldl (nextRow b) (rowFrom read [] b) = rowFrom (a.reverse ++ read) [] b := by
  induction a with
  | nil => exact fun read => rfl
  | cons c a ih => intro read; simp [nextRow_rowFrom, ih]

theorem getLastD_rowFrom (a left : List Char) : ∀ read : List Char,
    (rowFrom a read left).getLastD 0 = editCount a (left.reverse ++ read) := by
  induction left with
  | nil => exact fun read => rfl
  | cons d left ih =>
    intro read
    obtain ⟨row, hrow⟩ := exists_rowFrom a (d :: read) left
    have hlast := ih (d :: read)
    rw [hrow] at hlast
    rw [rowFrom, hrow, List.reverse_cons, List.append_assoc, List.singleton_append, ← hlast]
    rfl

theorem distance_eq_editCount (a b : String) :
    distance a b = editCount a.toList.reverse b.toList.reverse := by
  rw [distance, firstRow_eq, foldl_nextRow, getLastD_rowFrom, List.append_nil, List.append_nil]

/-- The distance is the least number of edits that turn one text into the other. -/
theorem isLeast_distance (a b : String) :
    IsLeast {n | Edits n a.toList b.toList} (distance a b) := by
  have hreversed := isLeast_editCount a.toList.reverse b.toList.reverse
  simpa only [Edits.reverse_iff, ← distance_eq_editCount] using hreversed

/-- Two of six characters are replaced and one is added. -/
example : distance "kitten" "sitting" = 3 := by decide

/-! ### Candidates -/

variable {name : String} {candidates : List String}

/-- How far a candidate is from a name, the case of ASCII letters aside. -/
def foldedDistance (name c : String) : Nat :=
  distance (Text.foldCase name) (Text.foldCase c)

/-- A candidate that can be suggested for a name: another name within two edits. -/
structure IsClose (name c : String) : Prop where
  other : Text.sameName c name = false
  near : foldedDistance name c ≤ 2

/-- A candidate that is close and nearer than all others, or as near and no later in
alphabetical order. -/
structure IsNearest (name : String) (candidates : List String) (c : String) : Prop where
  mem : c ∈ candidates
  close : IsClose name c
  least : ∀ d ∈ candidates, IsClose name d → foldedDistance name c < foldedDistance name d ∨
    (foldedDistance name c = foldedDistance name d ∧ c ≤ d)

theorem isClose_iff {c : String} : IsClose name c ↔
    Text.sameName c name = false ∧ foldedDistance name c ≤ maxDistance := by
  rw [show maxDistance = 2 from rfl]
  exact ⟨fun h => ⟨h.other, h.near⟩, fun h => ⟨h.1, h.2⟩⟩

theorem isBetter_iff {m n : Nat} {a b : String} :
    isBetter (m, a) (n, b) = true ↔ m < n ∨ (m = n ∧ a < b) := by
  simp [isBetter]

theorem isBetter_eq_false_iff {m n : Nat} {a b : String} :
    isBetter (m, a) (n, b) = false ↔ n < m ∨ (n = m ∧ b ≤ a) := by
  rw [← Bool.not_eq_true, isBetter_iff, ← String.not_lt]
  rcases Nat.lt_trichotomy m n with hlt | heq | hgt
  · simp [hlt, Nat.not_lt_of_lt hlt, Nat.ne_of_gt hlt]
  · simp [heq]
  · simp [hgt, Nat.not_lt_of_lt hgt, Nat.ne_of_gt hgt]

theorem isPreference_isBetter : IsPreference isBetter := by
  constructor
  · rintro ⟨m, a⟩ ⟨n, b⟩ ⟨o, c⟩ hab hbc
    rw [isBetter_iff] at *
    rcases hab with hab | ⟨rfl, hab⟩ <;> rcases hbc with hbc | ⟨rfl, hbc⟩
    · exact .inl (Nat.lt_trans hab hbc)
    · exact .inl hab
    · exact .inl hbc
    · exact .inr ⟨rfl, String.lt_trans hab hbc⟩
  · rintro ⟨m, a⟩ ⟨n, b⟩ ⟨o, c⟩ hab hbc
    rw [isBetter_eq_false_iff] at hbc
    rw [isBetter_iff] at *
    rcases hab with hab | ⟨rfl, hab⟩ <;> rcases hbc with hbc | ⟨rfl, hbc⟩
    · exact .inl (Nat.lt_trans hab hbc)
    · exact .inl hab
    · exact .inl hbc
    · exact .inr ⟨rfl, Std.lt_of_lt_of_le hab hbc⟩

theorem best?_eq_foldl (candidates : List (Nat × String)) :
    best? candidates = candidates.foldl (keepPreferred isBetter) none := by
  unfold best?
  congr
  funext best c
  cases best <;> rfl

/-- The candidates that are compared, each with its distance. -/
def measured (name : String) (candidates : List String) : List (Nat × String) :=
  let others := candidates.filter fun c => !Text.sameName c name
  (others.map fun c => (foldedDistance name c, c)).filter fun m => m.1 ≤ maxDistance

theorem nearest?_eq (name : String) (candidates : List String) : nearest? name candidates =
    ((measured name candidates).foldl (keepPreferred isBetter) none).map Prod.snd := by
  rw [← best?_eq_foldl]
  rfl

theorem mem_measured {n : Nat} {c : String} : (n, c) ∈ measured name candidates ↔
    c ∈ candidates ∧ IsClose name c ∧ n = foldedDistance name c := by
  simp only [measured, List.mem_filter, List.mem_map, Bool.not_eq_true', decide_eq_true_eq,
    Prod.mk.injEq, isClose_iff]
  constructor
  · rintro ⟨⟨d, ⟨hmem, hother⟩, rfl, rfl⟩, hnear⟩
    exact ⟨hmem, ⟨hother, hnear⟩, rfl⟩
  · rintro ⟨hmem, ⟨hother, hnear⟩, rfl⟩
    exact ⟨⟨c, ⟨hmem, hother⟩, rfl, rfl⟩, hnear⟩

theorem IsClose.mem_measured {c : String} (hmem : c ∈ candidates) (hclose : IsClose name c) :
    (foldedDistance name c, c) ∈ measured name candidates := by
  rw [Suggestion.mem_measured]
  exact ⟨hmem, hclose, rfl⟩

theorem IsNearest.unique {c d : String} (hc : IsNearest name candidates c)
    (hd : IsNearest name candidates d) : c = d := by
  rcases hc.least d hd.mem hd.close with hlt | ⟨heq, hle⟩ <;>
    rcases hd.least c hc.mem hc.close with hlt' | ⟨heq', hle'⟩
  · omega
  · omega
  · omega
  · exact String.le_antisymm hle hle'

theorem isNearest_of_nearest? {c : String} (h : nearest? name candidates = some c) :
    IsNearest name candidates c := by
  rw [nearest?_eq] at h
  obtain ⟨⟨n, best⟩, hbest, rfl⟩ := Option.map_eq_some_iff.mp h
  obtain ⟨before, after, hsplit, hbefore, hafter⟩ :=
    isPreferred_of_foldl isPreference_isBetter hbest
  have hmem : (n, best) ∈ measured name candidates := by simp [hsplit]
  obtain ⟨hcandidate, hclose, hdistance⟩ := mem_measured.mp hmem
  refine ⟨hcandidate, hclose, fun d hd hdclose => ?_⟩
  have hdmem := hdclose.mem_measured hd
  rw [hsplit, List.mem_append, List.mem_cons] at hdmem
  rw [← hdistance]
  rcases hdmem with hdmem | hself | hdmem
  · exact (isBetter_iff.mp (hbefore _ hdmem)).imp_right fun h => ⟨h.1, Std.le_of_lt h.2⟩
  · obtain ⟨hn, hd⟩ := Prod.mk.inj hself
    exact .inr ⟨hn.symm, hd ▸ Std.le_refl d⟩
  · exact isBetter_eq_false_iff.mp (hafter _ hdmem)

theorem nearest?_eq_none_iff :
    nearest? name candidates = none ↔ ∀ c ∈ candidates, ¬IsClose name c := by
  rw [nearest?_eq, Option.map_eq_none_iff, foldl_keepPreferred_eq_none_iff,
    List.eq_nil_iff_forall_not_mem]
  constructor
  · exact fun h c hc hclose => h _ (hclose.mem_measured hc)
  · intro h ⟨n, c⟩ hm
    obtain ⟨hc, hclose, -⟩ := mem_measured.mp hm
    exact h c hc hclose

theorem nearest?_eq_some_iff {c : String} :
    nearest? name candidates = some c ↔ IsNearest name candidates c := by
  refine ⟨isNearest_of_nearest?, fun h => ?_⟩
  cases hfound : nearest? name candidates with
  | none => exact absurd h.close (nearest?_eq_none_iff.mp hfound c h.mem)
  | some d => rw [(isNearest_of_nearest? hfound).unique h]

/-- Distance is the least number of edits. The fix that is offered names the nearest of the
candidates that are other names within two edits, and there is none only if no candidate is. -/
theorem fix?_nearest :
    (∀ a b : String, IsLeast {n | Edits n a.toList b.toList} (distance a b)) ∧
      ∀ (name : String) (candidates : List String),
        (∀ fix, fix? name candidates = some fix ↔
          ∃ c, IsNearest name candidates c ∧ fix = "did you mean `" ++ c ++ "`?") ∧
        (fix? name candidates = none ↔ ∀ c ∈ candidates, ¬IsClose name c) := by
  refine ⟨isLeast_distance, fun name candidates => ⟨fun fix => ?_, ?_⟩⟩
  · rw [fix?, Option.map_eq_some_iff]
    simp only [nearest?_eq_some_iff, @eq_comm _ fix]
  · rw [fix?, Option.map_eq_none_iff, nearest?_eq_none_iff]

end SqlAnalysis.Suggestion
