import SqlAnalysis.Proofs.Token.Outline
import SqlAnalysis.Scope.Basic
import SqlAnalysis.Source.LineIndex

/-!
# Ranges of spans

Offsets further on stand for positions further on, so the ranges of nested spans nest
as well, and a position leads back to its offset. Cutting a range to a scope that it lies
in does nothing.
-/
namespace SqlAnalysis

theorem Position.le_antisymm {a b : Position} (hab : a ≤ b) (hba : b ≤ a) : a = b := by
  obtain ⟨line, column⟩ := a
  obtain ⟨line', column'⟩ := b
  simp only [Position.le_iff] at hab hba
  rw [Position.mk.injEq]
  omega

namespace LineIndex

theorem le_line_locate (offset : Nat) (later : List Nat) :
    ∀ line start, line ≤ (locate offset line start later).line := by
  induction later with
  | nil => exact fun line start => Nat.le_refl line
  | cons next later ih =>
    intro line start
    rw [locate]
    split
    · exact Nat.le_of_succ_le (ih (line + 1) next)
    · exact Nat.le_refl line

/-- The walk to a later offset goes at least as far. -/
theorem locate_mono {a b : Nat} (h : a ≤ b) (later : List Nat) :
    ∀ line start, locate a line start later ≤ locate b line start later := by
  induction later with
  | nil =>
    intro line start
    exact .inr ⟨rfl, Nat.sub_le_sub_right h start⟩
  | cons next later ih =>
    intro line start
    simp only [locate]
    split
    · next ha =>
      rw [if_pos (Nat.le_trans ha h)]
      exact ih (line + 1) next
    · split
      · exact .inl (le_line_locate b later (line + 1) next)
      · exact .inr ⟨rfl, Nat.sub_le_sub_right h start⟩

variable (index : LineIndex)

theorem position_mono {a b : Nat} (h : a ≤ b) : index.position a ≤ index.position b :=
  locate_mono (by omega) index.laterStarts 0 0

theorem position_le_length (a : Nat) : index.position a ≤ index.position index.length :=
  locate_mono (by omega) index.laterStarts 0 0

/-- The walk ends at the start of a line, as far before the offset as the column says. The
lines passed are those before `start`. -/
theorem start_locate {offset : Nat} (later : List Nat) : ∀ (passed : List Nat) (start : Nat),
    start ≤ offset →
      ∃ begin, (passed ++ start :: later)[(locate offset passed.length start later).line]? =
          some begin ∧
        begin + (locate offset passed.length start later).column = offset := by
  induction later with
  | nil =>
    intro passed start hstart
    exact ⟨start, List.getElem?_concat_length, Nat.add_sub_cancel' hstart⟩
  | cons next later ih =>
    intro passed start hstart
    rw [locate]
    split
    · next hnext =>
      have hrest := ih (passed ++ [start]) next hnext
      rwa [List.length_append, List.append_assoc] at hrest
    · refine ⟨start, ?_, Nat.add_sub_cancel' hstart⟩
      rw [List.getElem?_append_right (Nat.le_refl _), Nat.sub_self]
      rfl

/-- A position leads back to the offset it was found for. -/
theorem offset?_position {a : Nat} (h : a ≤ index.length) :
    index.offset? (index.position a) = some a := by
  obtain ⟨begin, hbegin, hcolumn⟩ := start_locate index.laterStarts [] 0 (Nat.zero_le a)
  rw [offset?, position, Nat.min_eq_left h, starts]
  have hline : (0 :: index.laterStarts)[(locate a 0 0 index.laterStarts).line]? = some begin :=
    hbegin
  rw [hline, Option.map_some]
  simp only [List.length_nil] at hcolumn
  rw [hcolumn, Nat.min_eq_left h]

theorem position_lt {a b : Nat} (hab : a < b) (hb : b ≤ index.length) :
    index.position a < index.position b := by
  refine Position.not_le.mp fun hle => ?_
  have heq : index.position a = index.position b :=
    Position.le_antisymm (index.position_mono (Nat.le_of_lt hab)) hle
  have ha := index.offset?_position (Nat.le_trans (Nat.le_of_lt hab) hb)
  rw [heq, index.offset?_position hb] at ha
  exact Nat.ne_of_gt hab (Option.some.inj ha)

theorem range_ordered {span : Span} (h : span.start ≤ span.stop) :
    (index.range span).start ≤ (index.range span).stop :=
  index.position_mono h

theorem range_encloses {outer inner : Span} (h : outer.Encloses inner) :
    (index.range outer).encloses (index.range inner) = true :=
  (Range.encloses_iff _ _).mpr ⟨index.position_mono h.1, index.position_mono h.2⟩

end LineIndex

namespace Position

theorem origin_le (p : Position) : ⟨0, 0⟩ ≤ p := by
  rw [le_iff]
  dsimp only
  omega

theorem min_eq_left {a b : Position} (h : a ≤ b) : min a b = a :=
  if_pos h

theorem max_eq_right {a b : Position} (h : a ≤ b) : max a b = b :=
  if_pos h

end Position

namespace Range

variable {a b c : Range}

theorem encloses_refl (a : Range) : a.encloses a = true :=
  (encloses_iff a a).mpr ⟨Position.le_refl _, Position.le_refl _⟩

theorem encloses_trans (h : a.encloses b = true) (h' : b.encloses c = true) :
    a.encloses c = true := by
  rw [encloses_iff] at *
  exact ⟨Position.le_trans h.1 h'.1, Position.le_trans h'.2 h.2⟩

end Range

/-- A range that lies in a scope is all of its part there. -/
theorem Scope.clip_eq (s : Scope) {r : Range} (hr : r.start ≤ r.stop)
    (h : s.range.encloses r = true) : s.clip r = r := by
  obtain ⟨hstart, hstop⟩ := (Range.encloses_iff _ _).mp h
  have hlow : max s.range.start (min r.start s.range.stop) = r.start := by
    rw [Position.min_eq_left (Position.le_trans hr hstop), Position.max_eq_right hstart]
  simp only [clip, hlow, Position.min_eq_left hstop, Position.max_eq_right hr]

end SqlAnalysis
