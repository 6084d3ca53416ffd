import SqlAnalysis.Json.Decode
import SqlAnalysis.SqlType.Basic

/-!
# Failures

What can go wrong around the analysis. Faults of an analysed text are never
failures: they are diagnostics.
-/
namespace SqlAnalysis

/-- A reason why a request has no result. -/
inductive Failure where
  /-- A file could not be read or written. -/
  | io (detail : String)
  /-- A JSON description could not be decoded. -/
  | schemaFormat (cause : DecodeError)
  | columnType (cause : TypeError)
  /-- A batch for import has errors; the first is shown. -/
  | importRejected (errors : Nat) (first : String)
  /-- The command line has no meaning. -/
  | usage (detail : String)
  | internal (detail : String)
deriving DecidableEq, Inhabited

namespace Failure

def message : Failure → String
  | .io detail => s!"I/O error: {detail}"
  | .schemaFormat cause => s!"invalid schema description: {cause.message}"
  | .columnType cause => cause.message
  | .importRejected errors first => s!"import rejected: {errors} error(s), first at {first}"
  | .usage detail => s!"usage: {detail}"
  | .internal detail => s!"internal error: {detail}"

/-- Whether another input can mend the failure. -/
def isUserRecoverable : Failure → Bool
  | .schemaFormat _ | .columnType _ | .importRejected _ _ | .usage _ => true
  | .io _ | .internal _ => false

/-- Advice on how to mend the failure. -/
def suggestion? : Failure → Option String
  | .schemaFormat _ =>
    some "Expected a JSON array of \x7bname, columns, foreign_keys\x7d table objects"
  | .columnType (.malformed _) => some "Write types as name or name(n) or name(p, s)"
  | .importRejected _ _ => some "Run `sqlfront check` to list every diagnostic"
  | .usage _ => some "Run `sqlfront --help` for usage"
  | _ => none

/-- The exit code of a command that fails so. -/
def exitCode : Failure → Nat
  | .usage _ => 2
  | .importRejected _ _ => 3
  | _ => 1

end Failure
end SqlAnalysis
