import SqlAnalysis.Text.Case

/-!
# Suggestions for misspelled names

A name that means nothing is answered with the nearest name that does, if one
lies within two edits. Distance is the number of insertions, deletions and
substitutions, computed row by row.
-/
namespace SqlAnalysis.Suggestion

/-- The distances from the first row on: as many insertions as characters. -/
def firstRow (b : List Char) : List Nat :=
  List.range (b.length + 1)

/-- The rest of a row after the entry `left`, from the row before it: an entry
takes the diagonal where the characters agree, and otherwise one more than the
least of its three neighbours. -/
def rowRest (c : Char) (left : Nat) : List Char → List Nat → List Nat
  | d :: ds, diagonal :: above :: row =>
    let entry := if c = d then diagonal else 1 + min (min diagonal above) left
    entry :: rowRest c entry ds (above :: row)
  | _, _ => []

/-- The row for one more character of the first text. -/
def nextRow (b : List Char) (row : List Nat) (c : Char) : List Nat :=
  let first := row.headD 0 + 1
  first :: rowRest c first b row

/-- The least number of edits that turn one text into the other. -/
def distance (a b : String) : Nat :=
  (a.toList.foldl (nextRow b.toList) (firstRow b.toList)).getLastD 0

/-- The number of edits up to which a name is suggested. -/
def maxDistance : Nat := 2

/-- Whether one candidate, given with its distance, comes before another: it is
nearer, or as near and earlier in alphabetical order. -/
def isBetter (a b : Nat × String) : Bool :=
  decide (a.1 < b.1) || (a.1 == b.1 && decide (a.2 < b.2))

/-- The best of some candidates, the first one of equals. -/
def best? (candidates : List (Nat × String)) : Option (Nat × String) :=
  candidates.foldl (fun best c =>
    match best with
    | some b => if isBetter c b then some c else some b
    | none => some c) none

/-- The candidate nearest to a name, other spellings of the name left out. -/
def nearest? (name : String) (candidates : List String) : Option String :=
  let others := candidates.filter fun c => !Text.sameName c name
  let measured := others.map fun c => (distance (Text.foldCase name) (Text.foldCase c), c)
  (best? (measured.filter fun m => m.1 ≤ maxDistance)).map Prod.snd

/-- The suggestion as a fix to offer. -/
def fix? (name : String) (candidates : List String) : Option String :=
  (nearest? name candidates).map fun c => "did you mean `" ++ c ++ "`?"

end SqlAnalysis.Suggestion
