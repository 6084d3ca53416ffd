import SqlAnalysis.Text.Bytes

/-!
# Spans

A span is a half-open interval of byte offsets into a source text. Offsets have no bound
here; those of a text of less than 2 ^ 32 bytes all fit into 32 bits, and so do its lines
and columns.
-/
namespace SqlAnalysis

/-- The bytes from `start` up to, and without, `stop`. -/
structure Span where
  start : Nat
  stop : Nat
deriving DecidableEq, Inhabited

namespace Span

/-- The empty span at the beginning of a text. -/
def zero : Span := ⟨0, 0⟩

/-- The least span that covers both. -/
def merge (a b : Span) : Span :=
  ⟨min a.start b.start, max a.stop b.stop⟩

/-- The number of bytes. -/
def length (s : Span) : Nat :=
  s.stop - s.start

def isEmpty (s : Span) : Bool :=
  s.start == s.stop

/-- The text under the span; a span that does not fall between characters of
the source has none. -/
def slice (s : Span) (source : String) : String :=
  match Text.sliceBytes? s.start s.stop source.toList with
  | some cs => String.ofList cs
  | none => ""

/-- The span written as its two offsets. -/
def render (s : Span) : String :=
  s!"{s.start}..{s.stop}"

end Span
end SqlAnalysis
