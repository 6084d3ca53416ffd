import SqlAnalysis.Text.Case

/-!
# Reading and padding decimal numbers
-/
namespace SqlAnalysis.Text

/-- The value of a decimal digit. -/
def digitValue (c : Char) : Nat :=
  c.toNat - '0'.toNat

/-- The number written by decimal digits, most significant first. -/
def digitsValue (ds : List Char) : Nat :=
  ds.foldl (fun n c => 10 * n + digitValue c) 0

/-- A nonempty run of decimal digits read as a number. -/
def natural? (cs : List Char) : Option Nat :=
  if cs ≠ [] ∧ cs.all isDigit then some (digitsValue cs) else none

/-- The largest value of a 32-bit word. -/
def maxWord : Nat := 4294967295

/-- A number that fits a 32-bit word; a plus sign may stand before it. -/
def word? (cs : List Char) : Option Nat :=
  let digits := match cs with
    | '+' :: rest => rest
    | _ => cs
  (natural? digits).filter (· ≤ maxWord)

theorem word?_le {cs : List Char} {n : Nat} (h : word? cs = some n) : n ≤ maxWord := by
  simp only [word?, Option.filter_eq_some_iff, decide_eq_true_eq] at h
  exact h.2

/-- The number in decimal with zeros in front up to the given width. -/
def padded (width n : Nat) : String :=
  let digits := (toString n).toList
  String.ofList (List.replicate (width - digits.length) '0' ++ digits)

end SqlAnalysis.Text
