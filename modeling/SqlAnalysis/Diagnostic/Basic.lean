import SqlAnalysis.Source.Position

/-!
# Diagnostics

A diagnostic is a positioned complaint about a source text. The stages of the
analysis collect them beside their results and go on.
-/
namespace SqlAnalysis

/-- How serious a diagnostic is. -/
inductive Severity where
  /-- Worth telling, and never a reason to refuse the text. -/
  | warning
  /-- The statement is invalid. -/
  | error
deriving DecidableEq, Inhabited

namespace Severity

def name : Severity → String
  | .warning => "warning"
  | .error => "error"

/-- Whether `a` is strictly more serious than `b`. -/
def outranks (a b : Severity) : Bool :=
  a = .error && b = .warning

end Severity

/-- The stage that finds a problem. -/
inductive DiagnosticKind where
  /-- Characters that form no token, unfinished tokens, unbalanced brackets. -/
  | lexical
  /-- A token where the grammar has no place for it. -/
  | grammatical
  /-- Names, types, numbers of values and foreign keys. -/
  | semantic
deriving DecidableEq, Inhabited

def DiagnosticKind.name : DiagnosticKind → String
  | .lexical => "lex"
  | .grammatical => "syntax"
  | .semantic => "semantic"

/-- A positioned error or warning, with a fix to offer where one is known. -/
structure Diagnostic where
  kind : DiagnosticKind
  severity : Severity
  message : String
  range : Range
  quickFix : Option String := none
deriving DecidableEq, Inhabited

namespace Diagnostic

def lexical (message : String) (range : Range) : Diagnostic :=
  ⟨.lexical, .error, message, range, none⟩

def grammatical (message : String) (range : Range) : Diagnostic :=
  ⟨.grammatical, .error, message, range, none⟩

def semantic (message : String) (range : Range) : Diagnostic :=
  ⟨.semantic, .error, message, range, none⟩

def warning (message : String) (range : Range) : Diagnostic :=
  ⟨.semantic, .warning, message, range, none⟩

def isError (d : Diagnostic) : Bool :=
  d.severity = .error

/-- The diagnostic as one line of text. -/
def render (d : Diagnostic) : String :=
  let text := s!"{d.range.start.render}: {d.severity.name}: {d.message}"
  match d.quickFix with
  | some fix => s!"{text} ({fix})"
  | none => text

end Diagnostic
end SqlAnalysis
