import Excerpt.CommandLine.Arguments

/-!
# The program

The program looks at the paths that an invocation needs, first for its settings and then for
its slugs, and prints the report. It ends with one if a slug failed and with two if there is
no report.
-/

namespace Excerpt.CommandLine

/-- The system gives some of its codes as negative numbers, and one reason in short. -/
def refused (reason : String) (code : UInt32) : Found :=
  let number := code.toInt32.toInt.natAbs
  if number = 36 then .nameTooLong
  else .unreadable (reason.capitalize ++ " (os error " ++ toString number ++ ")")

/-- Looks at one path. -/
def observe (path : String) : IO Found := do
  try
    return .file (← IO.FS.readBinFile path)
  catch
    | .noFileOrDirectory .. => return .missing
    | .inappropriateType _ code reason => return refused reason code
    | .invalidArgument _ code reason => return refused reason code
    | .permissionDenied _ code reason => return refused reason code
    | e => return .unreadable (toString e)

/-- Nothing but the given paths is looked at. -/
def observeAll (paths : List String) : IO Directory := do
  let seen : Keyed Found ← paths.mapM fun path => return (path, ← observe path)
  return fun path => (seen.get? path).getD .missing

def printReport (r : Report) : IO UInt32 := do
  IO.print r.output
  IO.eprint r.errors
  return if r.failed then 1 else 0

def runInvocation (read : TableReader) (invocation : Invocation) : IO UInt32 := do
  let settings ← observeAll (invocation.sources.flatMap SettingSource.paths)
  match Configuration.load read settings invocation.sources with
  | .error failure =>
    IO.eprintln ("Configuration error: " ++ failure.message)
    return 2
  | .ok c =>
    let files ← observeAll (invocation.requests.map fun request => request.identifier c.defaults)
    printReport (invocation.report files c)

end Excerpt.CommandLine

open Excerpt.CommandLine in
def main (arguments : List String) : IO UInt32 := do
  let readers := Readers.program
  match readers.arguments arguments with
  | .ok invocation => runInvocation readers.tables invocation
  | .error (.printed text) => printReport ⟨text, "", false⟩
  | .error .usage =>
    IO.eprintln usage
    return 2
