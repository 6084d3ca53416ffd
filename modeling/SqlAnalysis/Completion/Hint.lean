import SqlAnalysis.Source.Position

/-!
# Completion hints

A hint says what an editor may offer where the cursor stands in some range.
Where ranges overlap the innermost one counts: the one that starts last, of
those the one that ends first, and of those the one recorded last.
-/
namespace SqlAnalysis

/-- The columns to offer. -/
inductive ColumnSuggestion where
  | none
  /-- The columns of every table that can be seen. -/
  | all
  /-- The columns of one table. -/
  | table (name : String)
deriving DecidableEq, Inhabited

structure Hint where
  range : Range
  columns : ColumnSuggestion := .none
  tables : Bool := false
  keywords : List String := []
  /-- Texts to put before and after what is chosen. -/
  wrap : Option (String × String) := none
deriving DecidableEq, Inhabited

namespace Hint

/-- A hint that offers nothing yet, at one position. -/
def startingAt (p : Position) : Hint := { range := Range.point p }

/-- The hint with its end put at a position, or at its start if that is later. -/
def closedAt (h : Hint) (p : Position) : Hint :=
  { h with range := ⟨h.range.start, max p h.range.start⟩ }

/-- The lines that the hint reaches into; none if it ends on a line before its first. -/
def lines (h : Hint) : List Nat :=
  List.range' h.range.start.line (h.range.stop.line + 1 - h.range.start.line)

/-- Whether `a` counts before `b`: it starts later, or with it and ends no later. -/
def isInner (a b : Hint) : Bool :=
  decide (b.range.start < a.range.start) ||
    (decide (a.range.start = b.range.start) && decide (a.range.stop ≤ b.range.stop))

/-- The innermost of some hints, the last one of equals. -/
def innermost? (hints : List Hint) : Option Hint :=
  hints.foldl (fun best h =>
    match best with
    | some b => if h.isInner b then some h else some b
    | none => some h) none

end Hint

/-- The hints of a source text in the order in which they were recorded. -/
structure Hints where
  entries : List Hint
deriving DecidableEq, Inhabited

namespace Hints

/-- The numbers of the hints under each line that they reach into. A hint of several
lines stands under each of them. -/
def byLine (hints : Hints) : List (Nat × Nat) :=
  hints.entries.zipIdx.flatMap fun (h, number) => h.lines.map fun line => (line, number)

/-- The hints that are found under a line. -/
def onLine (hints : Hints) (line : Nat) : List Hint :=
  let numbers := (hints.byLine.filter fun entry => entry.1 == line).map Prod.snd
  numbers.filterMap fun number => hints.entries[number]?

/-- The innermost hint around a position. A range also counts for the position
right after its last character, so a clause's hint still applies while its last
word is typed. Only hints of the position's line need to be looked at. -/
def at? (hints : Hints) (p : Position) : Option Hint :=
  Hint.innermost? ((hints.onLine p.line).filter fun h => h.range.touches p)

end Hints
end SqlAnalysis
