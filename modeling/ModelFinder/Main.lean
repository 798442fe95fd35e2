import ModelFinder.CommandLine.Execution

/-!
# The program

Reads the files that the command line names, executes it, writes the refutation and prints.  No
file is packed or unpacked here: compressed traces are passed through as they are.
-/

namespace ModelFinder.CommandLine

/-- The content of a file, if it can be read. -/
def readFile? (path : String) : IO (Option (List UInt8)) :=
  try
    return some (← IO.FS.readBinFile path).toList
  catch _ => return none

/-- Writes a file, and tells whether that was possible. -/
def writeFile? (output : Output) : IO Bool :=
  try
    IO.FS.writeBinFile output.path ⟨output.bytes.toArray⟩
    return true
  catch _ => return false

/-- Prints a report. -/
def printReport (r : Report) : IO UInt32 := do
  r.complaints.forM fun line => IO.eprintln line
  r.lines.forM fun line => IO.println line
  return r.exitCode.toUInt32

/-- Executes arguments on the files there are. -/
def perform (a : Arguments) : IO UInt32 := do
  let instanceBytes ← readFile? a.instancePath
  let externalTrace ←
    match a.externalTrace with
    | some path => readFile? path
    | none => pure none
  let report := execute a ⟨instanceBytes, externalTrace, true⟩
  let written ←
    match report.output with
    | some output => writeFile? output
    | none => pure true
  printReport (if written then report else execute a ⟨instanceBytes, externalTrace, false⟩)

end ModelFinder.CommandLine

open ModelFinder.CommandLine in
/-- The program. -/
def main (words : List String) : IO UInt32 :=
  match Arguments.ofWords words with
  | .ok a => perform a
  | .error stop => printReport stop.report
