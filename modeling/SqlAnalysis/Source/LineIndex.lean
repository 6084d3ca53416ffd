import SqlAnalysis.Source.Position
import SqlAnalysis.Source.Span

/-!
# Line index

The byte offsets at which the lines of a text begin, with the two maps between
offsets and positions that they give. A line ends with its newline.
-/
namespace SqlAnalysis

/-- Where the lines of a text begin, and how long the text is. The first line
begins at offset zero and is kept apart, so an index is never empty. -/
structure LineIndex where
  /-- Offsets at which the lines after the first begin, in order. -/
  laterStarts : List Nat
  /-- Length of the text in bytes. -/
  length : Nat
deriving DecidableEq, Inhabited

namespace LineIndex

/-- Offsets right after each newline of `cs`, which itself begins at `offset`. -/
def startsFrom (offset : Nat) : List Char → List Nat
  | [] => []
  | c :: cs =>
    let next := offset + c.utf8Size
    if c = '\n' then next :: startsFrom next cs else startsFrom next cs

/-- The index of a source text. -/
def ofText (source : String) : LineIndex :=
  ⟨startsFrom 0 source.toList, Text.byteSize source⟩

/-- Offsets at which lines begin. -/
def starts (index : LineIndex) : List Nat :=
  0 :: index.laterStarts

/-- The number of lines; text after the last newline counts, even if empty. -/
def lineCount (index : LineIndex) : Nat :=
  index.starts.length

/-- Walks the lines that begin at or before `offset`, from one known to. -/
def locate (offset line start : Nat) : List Nat → Position
  | [] => ⟨line, offset - start⟩
  | next :: later =>
    if next ≤ offset then locate offset (line + 1) next later else ⟨line, offset - start⟩

/-- The position of a byte offset. Offsets past the end stand for the end. -/
def position (index : LineIndex) (offset : Nat) : Position :=
  locate (min offset index.length) 0 0 index.laterStarts

/-- The range of a span. -/
def range (index : LineIndex) (span : Span) : Range :=
  ⟨index.position span.start, index.position span.stop⟩

/-- The byte offset of a position on an existing line. Columns past the end of
the text stand for its end. -/
def offset? (index : LineIndex) (p : Position) : Option Nat :=
  index.starts[p.line]?.map fun start => min (start + p.column) index.length

end LineIndex
end SqlAnalysis
