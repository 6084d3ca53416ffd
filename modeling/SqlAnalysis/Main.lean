import SqlAnalysis.CommandLine

/-!
# The program

Reads the files that the command line names, runs the command, prints.
-/
open SqlAnalysis

/-- The content of a file, or the reason why it cannot be read. -/
def readOrReason (path : String) : IO (Except String String) := do
  try
    return .ok (← IO.FS.readFile path)
  catch
    | .noFileOrDirectory _ code details => return .error s!"{details} (os error {code})"
    | other => return .error (toString other)

def main (args : List String) : IO UInt32 := do
  let contents ← (CommandLine.filesOf args).mapM fun path => return (path, ← readOrReason path)
  let readFile := fun path => (contents.lookup path).getD (.error "not read")
  let outcome := CommandLine.run readFile args
  IO.print outcome.out
  IO.eprint outcome.err
  return outcome.code.toUInt32
