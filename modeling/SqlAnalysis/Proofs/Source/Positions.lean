import SqlAnalysis.Source.LineIndex
import SqlAnalysis.Token.Lexer

/-!
# The two ways to find a position

A position is kept up to date character by character while a text is read, and
it is looked up in a line index afterwards. Between two characters of the text
both give the same.
-/
namespace SqlAnalysis

namespace Text

/-- The text can be cut after `n` bytes: these do not end inside a character. -/
def IsCut (cs : List Char) (n : Nat) : Prop :=
  ∃ before rest, cs = before ++ rest ∧ byteLength before = n

theorem isCut_append (before rest : List Char) :
    IsCut (before ++ rest) (byteLength before) :=
  ⟨before, rest, rfl, rfl⟩

end Text

namespace Position

@[simp] theorem after_nil (p : Position) : p.after [] = p := rfl

theorem after_append (p : Position) (cs ds : List Char) :
    p.after (cs ++ ds) = (p.after cs).after ds := by
  induction cs generalizing p with
  | nil => rfl
  | cons c cs ih =>
    simp only [List.cons_append, after]
    split <;> exact ih _

end Position

namespace LineIndex

theorem lt_of_mem_startsFrom {offset next : Nat} {cs : List Char}
    (h : next ∈ startsFrom offset cs) : offset < next := by
  induction cs generalizing offset with
  | nil => simp [startsFrom] at h
  | cons c cs ih =>
    have hc := c.utf8Size_pos
    simp only [startsFrom] at h
    split at h
    · rcases List.mem_cons.mp h with rfl | h
      · omega
      · have := ih h
        omega
    · have := ih h
      omega

/-- No later line begins before the offset, so the known one is its line. -/
theorem locate_eq_of_lt {offset line start : Nat} {later : List Nat}
    (h : ∀ next ∈ later, offset < next) :
    locate offset line start later = ⟨line, offset - start⟩ := by
  cases later with
  | nil => rfl
  | cons next later =>
    have hnext := h next List.mem_cons_self
    simp [locate, Nat.not_le.mpr hnext]

/-- The walk over the line starts keeps pace with the characters: it is at
`line` and `start` before `cs` and is asked for the offset after it. -/
theorem locate_startsFrom (cs rest : List Char) :
    ∀ offset line start, start ≤ offset →
      locate (offset + Text.byteLength cs) line start (startsFrom offset (cs ++ rest)) =
        Position.after ⟨line, offset - start⟩ cs := by
  induction cs with
  | nil =>
    intro offset line start _
    simpa using locate_eq_of_lt fun next hnext => lt_of_mem_startsFrom hnext
  | cons c cs ih =>
    intro offset line start hstart
    simp only [List.cons_append, startsFrom, Position.after, Text.byteLength_cons,
      ← Nat.add_assoc]
    by_cases hc : c = '\n'
    · have hle : offset + c.utf8Size ≤ offset + c.utf8Size + Text.byteLength cs := by omega
      have hih := ih (offset + c.utf8Size) (line + 1) (offset + c.utf8Size) (Nat.le_refl _)
      simpa [hc, locate, hle] using hih
    · have hih := ih (offset + c.utf8Size) line start (by omega)
      have hcolumn : offset + c.utf8Size - start = offset - start + c.utf8Size := by omega
      simpa [hc, hcolumn] using hih

/-- The index finds the position that reading up to the offset leads to. -/
theorem position_byteLength {source : String} {before rest : List Char}
    (h : source.toList = before ++ rest) :
    (ofText source).position (Text.byteLength before) = Position.after ⟨0, 0⟩ before := by
  have hlocate := locate_startsFrom before rest 0 0 0 (Nat.le_refl 0)
  have hlength : Text.byteLength before ≤ Text.byteSize source := by
    simp [Text.byteSize, h]
  simpa [position, ofText, h, Nat.min_eq_left hlength] using hlocate

end LineIndex
end SqlAnalysis
