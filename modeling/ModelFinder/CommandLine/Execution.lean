import ModelFinder.CommandLine.Arguments
import ModelFinder.Dimacs.Encoding
import ModelFinder.Dimacs.Reader
import ModelFinder.Solver
import ModelFinder.StopCondition
import ModelFinder.Trace.Exchange
import ModelFinder.TraceCheck.Reader

/-!
# Executing a command line

`execute` solves the instance that a command line names and says what is printed, in which order,
and which file is written.  It is a function of the command line and of `Files`, what the files it
names hold; reading and writing is left to the caller.  A caller who finds that a file cannot be
written asks again, with `Files.writable` turned off.

Files whose name has the extension `gz` are compressed; it is up to the caller to unpack external
traces and to compress a refutation that is written.
-/

namespace ModelFinder.CommandLine

/-- What the files named on a command line hold, and whether the refutation can be written. -/
structure Files where
  instanceBytes : Option (List UInt8)
  externalTrace : Option (List UInt8)
  writable : Bool

/-- Something to be printed. -/
inductive Line where
  | result (text : String)
  | log (record : LogRecord)
  | statistic (s : Statistic)
deriving DecidableEq

/-- The text of a line, if it is shown: log records are comments, from warnings up or, if the
output is verbose, from debugging messages up; statistics are comments of their own. -/
def Line.text? (verbose statistics : Bool) : Line → Option String
  | result text => some text
  | log r => if r.shownAt (if verbose then .debug else .warn) then some s!"c {r.text}" else none
  | statistic s => if statistics then some (s.line "c STAT") else none

/-- Why an execution fails. -/
inductive ExecutionError where
  | missingFile
  | invalidInstance (cause : Dimacs.ReadError)
  | invalidTrace (cause : TraceCheck.ReadError)
  | traceMismatch (cause : Violation)
  | solving (cause : Failure)
  | writing (cause : Trace.ExportError)
deriving DecidableEq

namespace ExecutionError

def message : ExecutionError → String
  | missingFile => "IO error, more details: No such file or directory (os error 2)"
  | invalidInstance e => s!"The dimacs file was invalid, more details: {e.message}"
  | invalidTrace e => s!"The trace file was invalid, more details: {e.message}"
  | traceMismatch e => s!"The trace does not refute the instance, more details: {e.message}"
  | solving e => s!"Solving failed, more details: {e.message}"
  | writing e => s!"IO error, more details: {e.message}"

end ExecutionError

/-- A file to be written. -/
structure Output where
  path : String
  bytes : List UInt8
deriving DecidableEq

/-- An execution: it leaves lines, and may leave a file. -/
abbrev Execution (α : Type) := Session Line ExecutionError (Option Output) α

namespace Execution

/-- Prints a line of results. -/
def print (text : String) : Execution Unit := Session.note (.result text)

/-- Logs a message. -/
def logInfo (text : String) : Execution Unit := Session.note (.log ⟨.info, text⟩)

/-- Something that may fail in a way of its own. -/
def expecting {ε α : Type} (cause : ε → ExecutionError) (x : Except ε α) : Execution α :=
  Session.mapFailure cause (Session.ofExcept x)

/-- The content of a file. -/
def content (file : Option (List UInt8)) : Execution (List UInt8) :=
  match file with
  | some bytes => pure bytes
  | none => Session.fail .missingFile

/-- The distance that was asked for. -/
def distance (a : Arguments) : Execution ResolutionDistance :=
  match a.distance with
  | none => pure .unbounded
  | some d => expecting (fun e => .solving (.configuration e)) (ResolutionDistance.ofInt d)

/-- Reads the instance. -/
def readInstance (files : Files) : Execution Dimacs.AnnotatedCnf := do
  let content ← expecting .invalidInstance (Dimacs.read (← content files.instanceBytes))
  logInfo (s!"read {content.numVariables} variables, {content.clauses.length} clauses, " ++
    s!"and {content.roots.length} root annotations")
  return content

/-- Reads the external trace, if there is to be one. -/
def readTrace (a : Arguments) (files : Files) : Execution (Option Trace) := do
  if a.externalTrace.isNone then return none
  let steps ← expecting .invalidTrace (TraceCheck.readAll (← content files.externalTrace))
  return some (← expecting .traceMismatch (Trace.ofSteps steps))

/-- The stop condition for a time limit in milliseconds, which starts now. -/
def limit (timeLimit : Option Nat) : Composite Deadline :=
  match timeLimit with
  | some millis => .present (.single { deadline := millis })
  | none => .absent

/-- The state in which solving starts. -/
def start (a : Arguments) (refutation : Option Trace) :
    SolverState Unit Unit Replay (Composite Deadline) :=
  ⟨(), (), .ofRefutation refutation, limit a.timeLimit⟩

/-- The lines for a note of the solver. -/
def noteLine : Note (Milestone Dimacs.logic) → Line
  | .milestone m => .log (m.record Dimacs.writing)
  | .remark r => .log r.record
  | .statistic s => .statistic s

/-- Solves the instance; the prover's counters are answered along. -/
def solve (options : SolverOptions) (a : Arguments) (refutation : Option Trace)
    (content : Dimacs.AnnotatedCnf) :
    Execution (Solution Dimacs.logic × Prover.Counters) := fun output =>
  let solver := Solver.firstOrder Dimacs.translator Replay.backend options
  let r := solver.solveFirstOrder ⟨.whole content, ()⟩ (start a refutation)
  ⟨(r.answer.map fun solution => (solution, r.state.backend.prover)).mapError .solving, output,
    r.notes.map noteLine⟩

/-- Writes the refutation. -/
def writeTrace (files : Files) (path : String) (t : Trace) : Execution Unit := do
  if !files.writable then Session.fail .missingFile
  let bytes ← expecting .writing t.write
  Session.update fun _ => some ⟨path, bytes⟩
  logInfo s!"wrote the refutation to {path}"

/-- Prints a solution. -/
def report (a : Arguments) (files : Files) : Solution Dimacs.logic → Execution Unit
  | .satisfiable literals => do
    print "s SATISFIABLE"
    print s!"v {Literal.joined literals} 0"
  | .unsatisfiable core => do
    print "s UNSATISFIABLE"
    core.roots.forM fun root => print s!"c root {Dimacs.Constraint.text root}"
    match a.tracePath with
    | some path => writeTrace files path core.trace
    | none => return
  | .unknown => print "s UNKNOWN"

/-- The whole execution. -/
def run (a : Arguments) (files : Files) : Execution Unit := do
  logInfo "Logging successfully configured"
  let options : SolverOptions := ⟨a.minimisation, ← distance a⟩
  let content ← readInstance files
  let refutation ← readTrace a files
  let (solution, counters) ← solve options a refutation content
  report a files solution
  counters.statistics.forM fun s => Session.note (.statistic s)

end Execution

/-- What comes of a command line: an exit code, the lines for the standard output and for the
standard error stream, and possibly a file. -/
structure Report where
  exitCode : Nat
  lines : List String
  complaints : List String
  output : Option Output
deriving DecidableEq

/-- How the command line is used. -/
def usage : List String :=
  ["Usage: modelfinder [OPTIONS] <INSTANCE>",
    "",
    "Options:",
    "      --core-strategy <rce|nce|none>   how the unsatisfiable core is minimised",
    "      --resolution-distance <NUMBER>   how far recycled resolvents may be from the axioms",
    "  -t, --time-limit <MILLISECONDS>      when to give up",
    "      --trace-path <PATH>              where the refutation is written",
    "      --external-trace <PATH>          a refutation to start from",
    "  -v, --verbose                        print log messages",
    "  -s, --log-statistics                 print statistics",
    "  -h, --help                           print this text",
    "  -V, --version                        print the version"]

/-- Executes arguments. -/
def execute (a : Arguments) (files : Files) : Report :=
  let r := Execution.run a files none
  let (exitCode, last) : Nat × List Line :=
    match r.answer with
    | .ok () => (0, [])
    | .error e => (1, [.log ⟨.error, s!"Execution failed, error: {e.message}"⟩])
  ⟨exitCode, (r.notes ++ last).filterMap (·.text? a.verbose a.statistics), [], r.state⟩

/-- What comes of a command line that holds no arguments. -/
def Stop.report : Stop → Report
  | help => ⟨0, usage, [], none⟩
  | version => ⟨0, ["modelfinder 0.1.0"], [], none⟩
  | misuse cause => ⟨2, [], s!"error: {cause.message}" :: "" :: usage, none⟩

end ModelFinder.CommandLine
