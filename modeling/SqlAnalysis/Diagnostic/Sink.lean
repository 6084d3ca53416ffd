import SqlAnalysis.Diagnostic.Basic

/-!
# A sink that drops near-duplicates

Two diagnostics that start on one line, less than a window of columns apart,
count as one problem. The more serious one is kept, the earlier one on a tie.
A window of zero keeps everything.
-/
namespace SqlAnalysis

/-- The diagnostics kept so far, in order, with a count of each outcome. -/
structure Sink where
  window : Nat
  items : List Diagnostic
  /-- How many diagnostics were appended. -/
  recorded : Nat
  /-- How many met an earlier one within the window. -/
  suppressed : Nat
deriving Inhabited

namespace Sink

/-- The window used where nothing else is asked for. -/
def defaultWindow : Nat := 10

def empty (window : Nat) : Sink := ⟨window, [], 0, 0⟩

/-- Whether two diagnostics are taken for one problem. -/
def clashes (window : Nat) (a b : Diagnostic) : Bool :=
  a.range.start.line == b.range.start.line &&
    decide (a.range.start.column - b.range.start.column < window ∧
      b.range.start.column - a.range.start.column < window)

/-- Puts `d` in the place of the first item it clashes with, if it is more
serious than that item; `none` if it clashes with no item. The flag tells
whether `d` is in the result. -/
def settle (window : Nat) (d : Diagnostic) : List Diagnostic → Option (Bool × List Diagnostic)
  | [] => none
  | item :: items =>
    if clashes window item d then
      if d.severity.outranks item.severity then
        some (true, d :: items)
      else
        some (false, item :: items)
    else
      (settle window d items).map fun (kept, rest) => (kept, item :: rest)

/-- Offers a diagnostic, and tells whether it was kept. -/
def offer (sink : Sink) (d : Diagnostic) : Bool × Sink :=
  match settle sink.window d sink.items with
  | some (kept, items) =>
    (kept, { sink with items := items, suppressed := sink.suppressed + 1 })
  | none => (true, { sink with items := sink.items ++ [d], recorded := sink.recorded + 1 })

def push (sink : Sink) (d : Diagnostic) : Sink :=
  (sink.offer d).2

def extend (sink : Sink) (ds : List Diagnostic) : Sink :=
  ds.foldl push sink

/-- The sink after a whole run of diagnostics. -/
def ofList (window : Nat) (ds : List Diagnostic) : Sink :=
  (empty window).extend ds

def hasErrors (sink : Sink) : Bool :=
  sink.items.any Diagnostic.isError

theorem settle_window_zero (d : Diagnostic) (items : List Diagnostic) :
    settle 0 d items = none := by
  induction items with
  | nil => rfl
  | cons item items ih => simp [settle, clashes, ih]

end Sink
end SqlAnalysis
