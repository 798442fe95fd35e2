import ModelFinder.Decimal
import ModelFinder.Pipeline

/-!
# The arguments of the command line

The words of a command line are read from left to right.  A long option is `--name value` or
`--name=value`; a short one is `-n value`, `-n=value` or `-nvalue`, and switches may be joined in
one word.  After the word `--` every word is a path.  There has to be exactly one path, and no
option may be given twice.

A value that is a word of its own must not look like an option, unless the option takes negative
numbers.  The single dash is not an option.

These are the rules of a library for command lines, put down so that the program can be run.
Nothing is proved about them, and no result depends on them.
-/

namespace ModelFinder.CommandLine

/-- What a command line asks for. -/
structure Arguments where
  instancePath : String
  minimisation : CoreMinimisation := .recycling
  distance : Option Int := none
  timeLimit : Option Nat := none
  tracePath : Option String := none
  externalTrace : Option String := none
  verbose : Bool := false
  statistics : Bool := false
deriving DecidableEq

/-- What is wrong with a command line. -/
inductive UsageError where
  | noArguments
  | unknownOption (word : String)
  | missingValue (option : String)
  | unexpectedValue (option : String)
  | invalidValue (option value : String)
  | repeated (option : String)
  | surplusPath (word : String)
  | missingPath
deriving DecidableEq

namespace UsageError

def message : UsageError → String
  | noArguments => "an instance is required"
  | unknownOption w => s!"unexpected argument '{w}'"
  | missingValue o => s!"a value is required for '{o}'"
  | unexpectedValue o => s!"'{o}' takes no value"
  | invalidValue o v => s!"invalid value '{v}' for '{o}'"
  | repeated o => s!"'{o}' cannot be used more than once"
  | surplusPath w => s!"unexpected argument '{w}'"
  | missingPath => "an instance is required"

end UsageError

/-- Why the reading of a command line ends without arguments. -/
inductive Stop where
  | help
  | version
  | misuse (cause : UsageError)
deriving DecidableEq

/-- The options which take a value. -/
inductive Setting where
  | coreStrategy
  | resolutionDistance
  | timeLimit
  | tracePath
  | externalTrace
deriving DecidableEq

namespace Setting

/-- The name of an option on the command line. -/
def name : Setting → String
  | coreStrategy => "--core-strategy"
  | resolutionDistance => "--resolution-distance"
  | timeLimit => "--time-limit"
  | tracePath => "--trace-path"
  | externalTrace => "--external-trace"

/-- Whether values of the option may start with a dash. -/
def takesNegative : Setting → Bool
  | resolutionDistance => true
  | _ => false

end Setting

/-- The options without a value. -/
inductive Switch where
  | verbose
  | statistics
  | help
  | version
deriving DecidableEq

/-- An option of either kind. -/
inductive Choice where
  | setting (s : Setting)
  | switch (s : Switch)
deriving DecidableEq

namespace Choice

/-- The option with a long name. -/
def ofLong? : String → Option Choice
  | "core-strategy" => some (.setting .coreStrategy)
  | "resolution-distance" => some (.setting .resolutionDistance)
  | "time-limit" => some (.setting .timeLimit)
  | "trace-path" => some (.setting .tracePath)
  | "external-trace" => some (.setting .externalTrace)
  | "verbose" => some (.switch .verbose)
  | "log-statistics" => some (.switch .statistics)
  | "help" => some (.switch .help)
  | "version" => some (.switch .version)
  | _ => none

/-- The option with a short name. -/
def ofShort? : Char → Option Choice
  | 't' => some (.setting .timeLimit)
  | 'v' => some (.switch .verbose)
  | 's' => some (.switch .statistics)
  | 'h' => some (.switch .help)
  | 'V' => some (.switch .version)
  | _ => none

end Choice

/-! ### Values -/

/-- The bytes of a word. -/
def bytes (word : String) : List UInt8 := word.toUTF8.toList

/-- The core strategy with a name. -/
def strategy? : String → Option CoreMinimisation
  | "rce" => some .recycling
  | "nce" => some .naive
  | "none" => some .asFound
  | _ => none

/-- A path, which is not empty. -/
def path? (word : String) : Option String := if word.isEmpty then none else some word

/-- Sets a field which has no value yet. -/
def once {α : Type} (option : String) (old : Option α) (new : α) : Except Stop (Option α) :=
  if old.isSome then .error (.misuse (.repeated option)) else .ok (some new)

/-- What has been read of a command line. -/
structure Draft where
  path : Option String := none
  minimisation : Option CoreMinimisation := none
  distance : Option Int := none
  timeLimit : Option Nat := none
  tracePath : Option String := none
  externalTrace : Option String := none
  verbose : Bool := false
  statistics : Bool := false
  pending : Option Setting := none
  onlyPaths : Bool := false

namespace Draft

/-- Sets an option to a value. -/
def set (d : Draft) (s : Setting) (word : String) : Except Stop Draft := do
  let valid {α : Type} (value : Option α) : Except Stop α :=
    match value with
    | some a => .ok a
    | none => .error (.misuse (.invalidValue s.name word))
  match s with
  | .coreStrategy =>
    return { d with minimisation := ← once s.name d.minimisation (← valid (strategy? word)) }
  | .resolutionDistance =>
    let n ← valid (Decimal.signed? Decimal.half64 (bytes word))
    return { d with distance := ← once s.name d.distance n }
  | .timeLimit =>
    let n ← valid (Decimal.unsigned? Decimal.word64 (bytes word))
    return { d with timeLimit := ← once s.name d.timeLimit n }
  | .tracePath => return { d with tracePath := ← once s.name d.tracePath (← valid (path? word)) }
  | .externalTrace =>
    return { d with externalTrace := ← once s.name d.externalTrace (← valid (path? word)) }

/-- Turns on a switch. -/
def turnOn (d : Draft) : Switch → Except Stop Draft
  | .verbose =>
    if d.verbose then .error (.misuse (.repeated "--verbose")) else .ok { d with verbose := true }
  | .statistics =>
    if d.statistics then .error (.misuse (.repeated "--log-statistics"))
    else .ok { d with statistics := true }
  | .help => .error .help
  | .version => .error .version

/-- Takes a path. -/
def takePath (d : Draft) (word : String) : Except Stop Draft :=
  if d.path.isSome then .error (.misuse (.surplusPath word))
  else
    match path? word with
    | some p => .ok { d with path := some p }
    | none => .error (.misuse (.invalidValue "instance" word))

/-- Takes a long option, given without its two dashes. -/
def takeLong (d : Draft) (word : List Char) : Except Stop Draft :=
  let name := String.ofList (word.takeWhile (· ≠ '='))
  match Choice.ofLong? name, word.dropWhile (· ≠ '=') with
  | some (.setting s), _ :: value => d.set s (String.ofList value)
  | some (.setting s), [] => .ok { d with pending := some s }
  | some (.switch _), _ :: _ => .error (.misuse (.unexpectedValue name))
  | some (.switch s), [] => d.turnOn s
  | none, _ => .error (.misuse (.unknownOption name))

/-- Takes joined short options, given without their dash.  What follows one with a value is the
value, after an optional equals sign. -/
def takeShorts (d : Draft) : List Char → Except Stop Draft
  | [] => .ok d
  | c :: cs =>
    match Choice.ofShort? c with
    | some (.switch s) => do (← d.turnOn s).takeShorts cs
    | some (.setting s) =>
      match cs with
      | [] => .ok { d with pending := some s }
      | '=' :: value => d.set s (String.ofList value)
      | value => d.set s (String.ofList value)
    | none => .error (.misuse (.unknownOption (String.ofList [c])))

/-- Whether a word stands for options. -/
def isOption (word : String) : Bool := word.startsWith "-" && word != "-"

/-- Takes the next word. -/
def take (d : Draft) (word : String) : Except Stop Draft :=
  match d.pending with
  | some s =>
    if isOption word && !s.takesNegative then .error (.misuse (.missingValue s.name))
    else { d with pending := none }.set s word
  | none =>
    if d.onlyPaths then d.takePath word
    else
      match word.toList with
      | ['-', '-'] => .ok { d with onlyPaths := true }
      | '-' :: '-' :: long => d.takeLong long
      | '-' :: c :: shorts => d.takeShorts (c :: shorts)
      | _ => d.takePath word

/-- The arguments, if nothing is missing. -/
def arguments (d : Draft) : Except Stop Arguments :=
  match d.pending, d.path with
  | some s, _ => .error (.misuse (.missingValue s.name))
  | none, none => .error (.misuse .missingPath)
  | none, some path => .ok
      { instancePath := path, minimisation := d.minimisation.getD .recycling,
        distance := d.distance, timeLimit := d.timeLimit, tracePath := d.tracePath,
        externalTrace := d.externalTrace, verbose := d.verbose, statistics := d.statistics }

end Draft

/-- Reads the words of a command line. -/
def Arguments.ofWords (words : List String) : Except Stop Arguments :=
  if words.isEmpty then .error (.misuse .noArguments)
  else do (← words.foldlM Draft.take {}).arguments

end ModelFinder.CommandLine
