/-!
# Splitting and replacing

Texts cut at every occurrence of a separator. There is always one field more
than there are separators, so `join` undoes `split`.
-/
namespace SqlAnalysis.Text

/-- The fields between the occurrences of `sep`. -/
def split (sep : Char) : List Char → List (List Char)
  | [] => [[]]
  | c :: cs =>
    if c = sep then
      [] :: split sep cs
    else
      match split sep cs with
      | [] => [[c]]
      | w :: ws => (c :: w) :: ws

theorem split_ne_nil (sep : Char) (cs : List Char) : split sep cs ≠ [] := by
  cases cs with
  | nil => simp [split]
  | cons c cs =>
    by_cases h : c = sep
    · simp [split, h]
    · cases hs : split sep cs <;> simp [split, h, hs]

/-- The fields with `sep` put back between them. -/
def join (sep : Char) : List (List Char) → List Char
  | [] => []
  | [w] => w
  | w :: ws => w ++ sep :: join sep ws

theorem join_cons_cons (sep : Char) (w : List Char) {ws : List (List Char)} (h : ws ≠ []) :
    join sep (w :: ws) = w ++ sep :: join sep ws := by
  cases ws with
  | nil => exact absurd rfl h
  | cons v vs => rfl

theorem join_split (sep : Char) (cs : List Char) : join sep (split sep cs) = cs := by
  induction cs with
  | nil => rfl
  | cons c cs ih =>
    have hne := split_ne_nil sep cs
    by_cases h : c = sep
    · simp [split, h, join_cons_cons sep [] hne, ih]
    · cases hs : split sep cs with
      | nil => exact absurd hs hne
      | cons w ws =>
        rw [hs] at ih
        simp only [split, h, if_false, hs]
        cases ws with
        | nil => simpa [join] using ih
        | cons v vs => simpa [join] using ih

theorem split_append (sep : Char) {w : List Char} (hw : sep ∉ w) (cs : List Char) :
    split sep (w ++ sep :: cs) = w :: split sep cs := by
  induction w with
  | nil => simp [split]
  | cons c w ih =>
    obtain ⟨hc, hw⟩ := not_or.mp (mt List.mem_cons.mpr hw)
    simp [split, Ne.symm hc, ih hw]

theorem split_of_not_mem (sep : Char) {w : List Char} (hw : sep ∉ w) : split sep w = [w] := by
  induction w with
  | nil => rfl
  | cons c w ih =>
    obtain ⟨hc, hw⟩ := not_or.mp (mt List.mem_cons.mpr hw)
    simp [split, Ne.symm hc, ih hw]

/-- Fields without the separator are found again. -/
theorem split_join (sep : Char) {ws : List (List Char)} (hne : ws ≠ []) (h : ∀ w ∈ ws, sep ∉ w) :
    split sep (join sep ws) = ws := by
  induction ws with
  | nil => exact absurd rfl hne
  | cons w ws ih =>
    obtain ⟨hw, hws⟩ := List.forall_mem_cons.mp h
    cases ws with
    | nil => exact split_of_not_mem sep hw
    | cons v vs =>
      rw [join_cons_cons sep w (List.cons_ne_nil v vs), split_append sep hw,
        ih (List.cons_ne_nil v vs) hws]

/-- Splits at the first occurrence of `sep`, if there is one. -/
def splitFirst? (sep : Char) : List Char → Option (List Char × List Char)
  | [] => none
  | c :: cs =>
    if c = sep then
      some ([], cs)
    else
      (splitFirst? sep cs).map fun (before, after) => (c :: before, after)

theorem splitFirst?_of_not_mem {sep : Char} {cs : List Char} (h : sep ∉ cs) :
    splitFirst? sep cs = none := by
  induction cs with
  | nil => rfl
  | cons c cs ih =>
    obtain ⟨hc, hcs⟩ := not_or.mp (mt List.mem_cons.mpr h)
    rw [splitFirst?, if_neg (Ne.symm hc), ih hcs]
    rfl

theorem splitFirst?_append {sep : Char} {cs : List Char} (h : sep ∉ cs) (ds : List Char) :
    splitFirst? sep (cs ++ sep :: ds) = some (cs, ds) := by
  induction cs with
  | nil => simp [splitFirst?]
  | cons c cs ih =>
    obtain ⟨hc, hcs⟩ := not_or.mp (mt List.mem_cons.mpr h)
    rw [List.cons_append, splitFirst?, if_neg (Ne.symm hc), ih hcs]
    rfl

theorem eq_append_of_splitFirst? {sep : Char} {cs before after : List Char}
    (h : splitFirst? sep cs = some (before, after)) : cs = before ++ sep :: after := by
  induction cs generalizing before with
  | nil => cases h
  | cons c cs ih =>
    rw [splitFirst?] at h
    split at h
    · next hc =>
      cases h
      rw [hc, List.nil_append]
    · obtain ⟨⟨first, last⟩, hrest, heq⟩ := Option.map_eq_some_iff.mp h
      cases heq
      rw [ih hrest, List.cons_append]

/-- Every occurrence of `c` written twice. -/
def double (c : Char) : List Char → List Char
  | [] => []
  | d :: ds => if d = c then c :: c :: double c ds else d :: double c ds

/-- Texts one after the other with `sep` between them. -/
def joinWith (sep : String) (parts : List String) : String :=
  sep.intercalate parts

theorem toList_joinWith (sep : Char) (parts : List String) :
    (joinWith (String.ofList [sep]) parts).toList = join sep (parts.map String.toList) := by
  induction parts with
  | nil => simp [joinWith, join]
  | cons part parts ih =>
    cases parts with
    | nil => simp [joinWith, join]
    | cons next parts =>
      unfold joinWith at ih ⊢
      rw [String.intercalate_cons_cons, String.toList_append, String.toList_append, ih,
        String.toList_ofList, List.map_cons, List.map_cons, List.map_cons,
        join_cons_cons sep _ (List.cons_ne_nil _ _), List.append_assoc, List.singleton_append]

end SqlAnalysis.Text
