/-!
# ASCII case folding

Names are compared without regard to the case of ASCII letters; every other
character stands for itself.
-/
namespace SqlAnalysis.Text

/-- The text with its ASCII capitals made small. -/
def foldCase (s : String) : String :=
  String.ofList (s.toList.map Char.toLower)

/-- Whether two texts are spellings of one name. -/
def sameName (a b : String) : Bool :=
  foldCase a == foldCase b

@[simp] theorem toList_foldCase (s : String) :
    (foldCase s).toList = s.toList.map Char.toLower := by
  simp [foldCase]

@[simp] theorem sameName_iff (a b : String) :
    sameName a b = true ↔ foldCase a = foldCase b := by
  simp [sameName]

theorem sameName_comm (a b : String) : sameName a b = sameName b a := by
  simp only [sameName, Bool.beq_comm]

/-- ASCII letters, the first characters of a keyword or a plain name. -/
def isLetter (c : Char) : Bool :=
  ('a' ≤ c && c ≤ 'z') || ('A' ≤ c && c ≤ 'Z')

/-- ASCII decimal digits. -/
def isDigit (c : Char) : Bool :=
  '0' ≤ c && c ≤ '9'

end SqlAnalysis.Text
