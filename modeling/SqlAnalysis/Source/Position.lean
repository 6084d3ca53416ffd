/-!
# Positions and ranges

A position is a line and a byte column within it, both counted from zero, in
reading order. A range is a half-open region between two positions.
-/
namespace SqlAnalysis

/-- A point of a source text. In a text of less than 2 ^ 32 bytes its numbers fit into 32 bits. -/
structure Position where
  line : Nat
  column : Nat
deriving DecidableEq, Inhabited

namespace Position

instance : LE Position :=
  ⟨fun a b => a.line < b.line ∨ (a.line = b.line ∧ a.column ≤ b.column)⟩

instance : LT Position :=
  ⟨fun a b => a.line < b.line ∨ (a.line = b.line ∧ a.column < b.column)⟩

instance (a b : Position) : Decidable (a ≤ b) :=
  inferInstanceAs (Decidable (_ ∨ _))

instance (a b : Position) : Decidable (a < b) :=
  inferInstanceAs (Decidable (_ ∨ _))

instance : Min Position := minOfLe
instance : Max Position := maxOfLe

theorem le_iff (a b : Position) :
    a ≤ b ↔ a.line < b.line ∨ (a.line = b.line ∧ a.column ≤ b.column) := Iff.rfl

theorem lt_iff (a b : Position) :
    a < b ↔ a.line < b.line ∨ (a.line = b.line ∧ a.column < b.column) := Iff.rfl

theorem le_refl (a : Position) : a ≤ a := by
  rw [le_iff]; omega

theorem le_trans {a b c : Position} (hab : a ≤ b) (hbc : b ≤ c) : a ≤ c := by
  rw [le_iff] at *; omega

theorem le_total (a b : Position) : a ≤ b ∨ b ≤ a := by
  simp only [le_iff]; omega

theorem not_le {a b : Position} : ¬ a ≤ b ↔ b < a := by
  simp only [le_iff, lt_iff]; omega

/-- The position as editors show it, counting from one. -/
def render (p : Position) : String :=
  s!"{p.line + 1}:{p.column + 1}"

/-- The position by its own numbers, counting from zero. -/
def coordinates (p : Position) : String :=
  s!"{p.line}:{p.column}"

end Position

/-- The region from `start` up to `stop`. -/
structure Range where
  start : Position
  stop : Position
deriving DecidableEq, Inhabited

namespace Range

/-- The empty range at a position. -/
def point (p : Position) : Range := ⟨p, p⟩

/-- The least range that covers both. -/
def cover (a b : Range) : Range :=
  ⟨min a.start b.start, max a.stop b.stop⟩

/-- Whether a position lies inside the half-open region. -/
def contains (r : Range) (p : Position) : Bool :=
  decide (r.start ≤ p) && decide (p < r.stop)

/-- Whether a position lies inside the region or right at its end, where the
cursor stands after the last character. -/
def touches (r : Range) (p : Position) : Bool :=
  decide (r.start ≤ p) && decide (p ≤ r.stop)

/-- Whether the other range lies within this one. -/
def encloses (r other : Range) : Bool :=
  decide (r.start ≤ other.start) && decide (other.stop ≤ r.stop)

/-- Whether the region holds no position; a reversed one holds none either. -/
def isEmpty (r : Range) : Bool :=
  decide (r.stop ≤ r.start)

/-- The range by its own numbers, counting from zero. -/
def coordinates (r : Range) : String :=
  r.start.coordinates ++ ".." ++ r.stop.coordinates

@[simp] theorem contains_iff (r : Range) (p : Position) :
    r.contains p = true ↔ r.start ≤ p ∧ p < r.stop := by
  simp [contains]

@[simp] theorem touches_iff (r : Range) (p : Position) :
    r.touches p = true ↔ r.start ≤ p ∧ p ≤ r.stop := by
  simp [touches]

@[simp] theorem encloses_iff (r other : Range) :
    r.encloses other = true ↔ r.start ≤ other.start ∧ other.stop ≤ r.stop := by
  simp [encloses]

end Range
end SqlAnalysis
