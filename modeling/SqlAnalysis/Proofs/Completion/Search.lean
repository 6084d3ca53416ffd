import Mathlib.Data.List.Nodup
import SqlAnalysis.Completion.Hint
import SqlAnalysis.Proofs.Preference

/-!
# Hints under their lines

Of the hints that touch a position none is missed by looking under its line only, and a
line has its hints in the order in which they were recorded. So the look-up finds what a
search through all hints finds: the innermost hint, and of equals the last one.
-/
namespace SqlAnalysis

theorem Position.eq_iff (a b : Position) : a = b ↔ a.line = b.line ∧ a.column = b.column := by
  obtain ⟨line, column⟩ := a
  obtain ⟨line', column'⟩ := b
  rw [Position.mk.injEq]

namespace Hint

variable {a b h : Hint} {line : Nat} {p : Position}

theorem nodup_lines (h : Hint) : h.lines.Nodup :=
  List.nodup_range'

theorem mem_lines : line ∈ h.lines ↔ h.range.start.line ≤ line ∧ line ≤ h.range.stop.line := by
  rw [lines, List.mem_range'_1]
  omega

/-- A hint reaches into the line of every position that it touches. -/
theorem mem_lines_of_touches (htouch : h.range.touches p = true) : p.line ∈ h.lines := by
  rw [Range.touches_iff, Position.le_iff, Position.le_iff] at htouch
  rw [mem_lines]
  omega

theorem isInner_iff : a.isInner b = true ↔ b.range.start < a.range.start ∨
    (b.range.start = a.range.start ∧ a.range.stop ≤ b.range.stop) := by
  simp only [isInner, Bool.or_eq_true, Bool.and_eq_true, decide_eq_true_eq,
    @eq_comm _ a.range.start]

/-- Of two hints the one that is not inner starts earlier, or with the other and ends later. -/
theorem isInner_eq_false_iff : a.isInner b = false ↔ a.range.start < b.range.start ∨
    (a.range.start = b.range.start ∧ b.range.stop < a.range.stop) := by
  rw [← Bool.not_eq_true, isInner_iff]
  simp only [Position.eq_iff, Position.le_iff, Position.lt_iff]
  omega

theorem isPreference_isInner : IsPreference isInner := by
  constructor <;> intro a b c <;> simp only [isInner_iff, isInner_eq_false_iff, Position.eq_iff,
    Position.le_iff, Position.lt_iff] <;> omega

theorem innermost?_eq_foldl (hints : List Hint) :
    innermost? hints = hints.foldl (keepPreferred isInner) none := by
  unfold innermost?
  congr
  funext best h
  cases best <;> rfl

end Hint

namespace Hints

variable (hints : Hints)

/-- Under a line stand the numbers of the hints that reach into it, in order. -/
theorem numbers_byLine (line : Nat) :
    (hints.byLine.filter fun entry => entry.1 == line).map Prod.snd =
      (hints.entries.zipIdx.filter fun entry => line ∈ entry.1.lines).map Prod.snd := by
  unfold byLine
  induction hints.entries.zipIdx with
  | nil => rfl
  | cons entry entries ih =>
    have hfirst : ((entry.1.lines.map fun line => (line, entry.2)).filter
        fun entry => entry.1 == line).map Prod.snd =
        if line ∈ entry.1.lines then [entry.2] else [] := by
      have hcount := entry.1.nodup_lines.count (a := line)
      simp only [List.filter_map, List.map_map, Function.comp_def, List.filter_beq, hcount]
      split <;> rfl
    rw [List.flatMap_cons, List.filter_append, List.map_append, ih, hfirst, List.filter_cons]
    split <;> simp_all

/-- The hints under a line are those that reach into it, in the order of all hints. -/
theorem onLine_eq_filter (line : Nat) :
    hints.onLine line = hints.entries.filter fun h => line ∈ h.lines := by
  have hentry : ∀ entry ∈ hints.entries.zipIdx, hints.entries[entry.2]? = some entry.1 :=
    fun entry hentry => List.mem_zipIdx_iff_getElem?.mp hentry
  calc hints.onLine line
      = (hints.entries.zipIdx.filter fun entry => line ∈ entry.1.lines).filterMap
          fun entry => hints.entries[entry.2]? := by
        rw [onLine, numbers_byLine, List.filterMap_map]
        rfl
    _ = (hints.entries.zipIdx.filter fun entry => line ∈ entry.1.lines).filterMap
          fun entry => some entry.1 :=
        List.filterMap_congr fun entry h => hentry entry (List.mem_of_mem_filter h)
    _ = (hints.entries.zipIdx.map Prod.fst).filter fun h => line ∈ h.lines := by
        rw [List.filterMap_eq_map', List.filter_map]
        rfl
    _ = hints.entries.filter fun h => line ∈ h.lines := by
        rw [List.zipIdx_map_fst]

/-- Looking under the line of a position finds what looking at all hints finds. -/
theorem at?_eq_innermost? (p : Position) :
    hints.at? p = Hint.innermost? (hints.entries.filter fun h => h.range.touches p) := by
  rw [at?, onLine_eq_filter, List.filter_filter]
  congr 1
  refine List.filter_congr fun h _ => ?_
  cases htouch : h.range.touches p with
  | false => rfl
  | true => simp [Hint.mem_lines_of_touches htouch]

/-- What a search through all hints selects: it touches the position, and of all hints that do
it starts last, of those ends first, and of those comes last. -/
def SelectsAt (p : Position) (h : Hint) : Prop :=
  ∃ before after, hints.entries = before ++ h :: after ∧ h.range.touches p = true ∧
    (∀ other ∈ before, other.range.touches p = true → other.range.start < h.range.start ∨
      (other.range.start = h.range.start ∧ h.range.stop ≤ other.range.stop)) ∧
    ∀ other ∈ after, other.range.touches p = true → other.range.start < h.range.start ∨
      (other.range.start = h.range.start ∧ h.range.stop < other.range.stop)

/-- A choice among the hints that touch a position is a choice among all hints. -/
theorem isPreferred_touching_iff {p : Position} {h : Hint} :
    IsPreferred Hint.isInner (hints.entries.filter fun h => h.range.touches p) h ↔
      hints.SelectsAt p h := by
  constructor
  · rintro ⟨before, after, hsplit, hbefore, hafter⟩
    obtain ⟨front, rest, hentries, rfl, hrest⟩ := List.filter_eq_append_iff.mp hsplit
    obtain ⟨passed, back, rfl, hpassed, htouch, rfl⟩ := List.filter_eq_cons_iff.mp hrest
    refine ⟨front ++ passed, back, by rw [hentries, List.append_assoc], htouch, ?_, ?_⟩
    · intro other hother hreached
      rcases List.mem_append.mp hother with hmem | hmem
      · exact Hint.isInner_iff.mp (hbefore other (List.mem_filter.mpr ⟨hmem, hreached⟩))
      · exact absurd hreached (hpassed other hmem)
    · exact fun other hother hreached =>
        Hint.isInner_eq_false_iff.mp (hafter other (List.mem_filter.mpr ⟨hother, hreached⟩))
  · rintro ⟨before, after, hentries, htouch, hbefore, hafter⟩
    refine ⟨_, _, by rw [hentries, List.filter_append, List.filter_cons, if_pos htouch], ?_, ?_⟩
    · intro other hother
      obtain ⟨hmem, hreached⟩ := List.mem_filter.mp hother
      exact Hint.isInner_iff.mpr (hbefore other hmem hreached)
    · intro other hother
      obtain ⟨hmem, hreached⟩ := List.mem_filter.mp hother
      exact Hint.isInner_eq_false_iff.mpr (hafter other hmem hreached)

/-- A look-up under one line selects as a search through all hints does, and finds nothing
only if there is nothing to be found. -/
theorem at?_selects (p : Position) :
    (∀ h, hints.at? p = some h ↔ hints.SelectsAt p h) ∧
      (hints.at? p = none ↔ ∀ h ∈ hints.entries, h.range.touches p = false) := by
  rw [at?_eq_innermost?, Hint.innermost?_eq_foldl]
  refine ⟨fun h => ?_, ?_⟩
  · rw [foldl_keepPreferred_eq_some_iff Hint.isPreference_isInner, isPreferred_touching_iff]
  · rw [foldl_keepPreferred_eq_none_iff, List.filter_eq_nil_iff]
    simp only [Bool.not_eq_true]

/-- Of two hints with one range the second is found, on the first line as on the last. -/
example :
    let first : Hint := { range := ⟨⟨0, 4⟩, ⟨2, 1⟩⟩ }
    let second : Hint := { first with tables := true }
    let hints : Hints := ⟨[first, second, { range := ⟨⟨2, 0⟩, ⟨1, 0⟩⟩ }]⟩
    hints.at? ⟨0, 4⟩ = some second ∧ hints.at? ⟨2, 1⟩ = some second ∧ hints.at? ⟨2, 2⟩ = none := by
  decide

end Hints
end SqlAnalysis
