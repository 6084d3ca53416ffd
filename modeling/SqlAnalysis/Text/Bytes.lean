/-!
# Texts measured in bytes

Offsets into a source text count the bytes of its UTF-8 encoding. A cut is
possible only between two characters.
-/
namespace SqlAnalysis.Text

/-- The number of bytes of the encoded characters. -/
def byteLength : List Char → Nat
  | [] => 0
  | c :: cs => c.utf8Size + byteLength cs

@[simp] theorem byteLength_nil : byteLength [] = 0 := rfl

@[simp] theorem byteLength_cons (c : Char) (cs : List Char) :
    byteLength (c :: cs) = c.utf8Size + byteLength cs := rfl

@[simp] theorem byteLength_append (cs ds : List Char) :
    byteLength (cs ++ ds) = byteLength cs + byteLength ds := by
  induction cs with
  | nil => simp
  | cons c cs ih => simp [ih, Nat.add_assoc]

/-- The number of bytes of an encoded text. -/
def byteSize (s : String) : Nat :=
  byteLength s.toList

/-- What follows the first `n` bytes, unless these end inside a character or
beyond the text. -/
def dropBytes? (n : Nat) : List Char → Option (List Char)
  | [] => if n = 0 then some [] else none
  | c :: cs =>
    if n = 0 then
      some (c :: cs)
    else if c.utf8Size ≤ n then
      dropBytes? (n - c.utf8Size) cs
    else
      none

/-- The first `n` bytes, unless these end inside a character or beyond the text. -/
def takeBytes? (n : Nat) : List Char → Option (List Char)
  | [] => if n = 0 then some [] else none
  | c :: cs =>
    if n = 0 then
      some []
    else if c.utf8Size ≤ n then
      (takeBytes? (n - c.utf8Size) cs).map (c :: ·)
    else
      none

/-- The bytes from `start` up to `stop`, if both are cuts of the text in order. -/
def sliceBytes? (start stop : Nat) (cs : List Char) : Option (List Char) :=
  if start ≤ stop then
    (dropBytes? start cs).bind (takeBytes? (stop - start))
  else
    none

theorem dropBytes?_append (cs ds : List Char) :
    dropBytes? (byteLength cs) (cs ++ ds) = some ds := by
  induction cs with
  | nil => cases ds <;> simp [dropBytes?]
  | cons c cs ih =>
    have hne : c.utf8Size ≠ 0 := Nat.ne_of_gt c.utf8Size_pos
    simp [dropBytes?, hne, ih]

theorem takeBytes?_append (cs ds : List Char) :
    takeBytes? (byteLength cs) (cs ++ ds) = some cs := by
  induction cs with
  | nil => cases ds <;> simp [takeBytes?]
  | cons c cs ih =>
    have hne : c.utf8Size ≠ 0 := Nat.ne_of_gt c.utf8Size_pos
    simp [takeBytes?, hne, ih]

end SqlAnalysis.Text
