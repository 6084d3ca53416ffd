/-!
# Blank characters

The characters with the Unicode property `White_Space`, and the two operations
that depend on it: stripping both ends of a text and cutting it into words.
-/
namespace SqlAnalysis.Text

/-- The ranges of `White_Space`, first and last code point of each. -/
def blankRanges : List (Nat × Nat) :=
  [(0x09, 0x0D), (0x20, 0x20), (0x85, 0x85), (0xA0, 0xA0), (0x1680, 0x1680),
    (0x2000, 0x200A), (0x2028, 0x2029), (0x202F, 0x202F), (0x205F, 0x205F),
    (0x3000, 0x3000)]

/-- Whether a character is white space. -/
def isBlank (c : Char) : Bool :=
  blankRanges.any fun r => r.1 ≤ c.toNat && c.toNat ≤ r.2

/-- The characters without blanks at either end. -/
def trimChars (cs : List Char) : List Char :=
  ((cs.dropWhile isBlank).reverse.dropWhile isBlank).reverse

/-- The text without blanks at either end. -/
def trim (s : String) : String :=
  String.ofList (trimChars s.toList)

/-- The maximal runs of characters that are not blank. -/
def wordsOf : List Char → List (List Char)
  | [] => []
  | c :: cs =>
    if isBlank c then
      wordsOf cs
    else
      match cs with
      | [] => [[c]]
      | d :: _ =>
        if isBlank d then
          [c] :: wordsOf cs
        else
          match wordsOf cs with
          | [] => [[c]]
          | w :: ws => (c :: w) :: ws

/-- The text as a list of its words. -/
def words (s : String) : List String :=
  (wordsOf s.toList).map String.ofList

end SqlAnalysis.Text
