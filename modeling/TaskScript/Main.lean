import TaskScript.CommandLine

/-!
# The program

Reads the file that the command line names, prints what the command comes to, and exits.
-/

namespace TaskScript.CommandLine

/-- Why a file could not be read. -/
def readFailure : IO.Error → String
  | .noFileOrDirectory _ _ _ => "No such file or directory (os error 2)"
  | e => toString e

/-- What reading a file comes to. -/
def readContents : Option String → IO (Except String String)
  | none => return .ok ""
  | some path => do
    try return .ok (← IO.FS.readFile path)
    catch e => return .error (readFailure e)

end TaskScript.CommandLine

open TaskScript CommandLine in
/-- Runs the command line. -/
def main (args : List String) : IO UInt32 := do
  let invocation := Invocation.ofArgs args
  let report := invocation.report (← readContents invocation.file?)
  for line in report.stdout do
    IO.println line
  for line in report.stderr do
    IO.eprintln line
  return report.exitCode.toUInt32
