import SqlAnalysis.Diagnostic.Sink
import SqlAnalysis.Failure

/-!
# Options of a compilation
-/
namespace SqlAnalysis

structure CompileOptions where
  /-- Columns within which two diagnostics of one line count as one. -/
  dedupWindow : Nat := Sink.defaultWindow
  /-- Whether completion hints are kept. -/
  emitHints : Bool := true
  /-- Whether names are bound, if there is a schema to bind them to. -/
  resolve : Bool := true
deriving DecidableEq, Inhabited

namespace CompileOptions

def fields : List Field :=
  [{ name := "dedup_window" }, { name := "emit_hints" }, { name := "resolve" }]

def decode (json : Json) : Except DecodeError CompileOptions := do
  let standard : CompileOptions := {}
  match ← json.fields fields with
  | [window, hints, resolve] =>
    return {
      dedupWindow := ← Json.optional standard.dedupWindow (Json.asNat Text.maxWord) window
      emitHints := ← Json.optional standard.emitHints Json.asBool hints
      resolve := ← Json.optional standard.resolve Json.asBool resolve }
  | _ => throw (.expected "options")

/-- Reads options from a JSON text. What is left out keeps its default. -/
def ofJson (source : String) : Except Failure CompileOptions :=
  (Json.decode source >>= decode).mapError .schemaFormat

end CompileOptions
end SqlAnalysis
