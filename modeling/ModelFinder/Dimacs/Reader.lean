import ModelFinder.Decimal
import ModelFinder.Dimacs.AnnotatedCnf
import ModelFinder.Latin1

/-!
# Reading the DIMACS format

A file has one header line `p cnf n m`, comment lines that start with `c`, and clauses: numbers,
each clause ended by a 0, with any white space and line breaks in between.  A comment line
`c root v name` annotates the variable `v` as the root of a top-level constraint.

The reader is a machine that takes one byte at a time (`State.feed`).  How a file is cut into pieces
therefore makes no difference: `readPieces` feeds piece after piece.
-/

namespace ModelFinder.Dimacs

/-- Why a file is refused. -/
inductive ReadError where
  | missingHeader
  | invalidHeader (line : List UInt8)
  | duplicateHeader
  | unexpectedByte (byte : UInt8)
  | invalidLiteral (digits : List UInt8)
  | invalidRoot (line : List UInt8)
  | variableOutOfRange (var numVariables : Nat)
  | unterminatedClause
  | clauseCount (expected found : Nat)
deriving DecidableEq

namespace ReadError

def message : ReadError → String
  | missingHeader => "missing dimacs header"
  | invalidHeader line => s!"'{Latin1.text line}' is an invalid header"
  | duplicateHeader => "multiple dimacs headers found"
  | unexpectedByte b => s!"unexpected character '{Latin1.text [b]}'"
  | invalidLiteral digits => s!"'{Latin1.text digits}' is an invalid DIMACS literal"
  | invalidRoot line => s!"'{Latin1.text line}' is an invalid root annotation"
  | variableOutOfRange v n => s!"variable {v} exceeds the {n} variables declared in the header"
  | unterminatedClause => "the last clause in the source is not terminated with a '0'"
  | clauseCount expected found => s!"expected to parse {expected} clauses, but parsed {found}"

end ReadError

/-! ### Lines -/

/-- The numbers of variables and clauses that a header declares. -/
structure Header where
  numVariables : Nat
  numClauses : Nat
deriving DecidableEq

/-- How a header line starts: `p cnf` and a blank. -/
def headerStart : List UInt8 := [112, 32, 99, 110, 102, 32]

/-- Reads a header line, which has been trimmed. -/
def Header.ofLine (line : List UInt8) : Except ReadError Header :=
  if !headerStart.isPrefixOf line then .error (.invalidHeader line)
  else
    match (Latin1.words line).drop 2 with
    | [first, second] =>
      match Decimal.unsigned? Decimal.word32 first, Decimal.unsigned? Decimal.word64 second with
      | some n, some m => .ok ⟨n, m⟩
      | _, _ => .error (.invalidHeader line)
    | _ => .error (.invalidHeader line)

/-- The first word of an annotation: `root`. -/
def rootWord : List UInt8 := [114, 111, 111, 116]

/-- The name that some words make up, separated by single blanks; no words make up no name. -/
def nameOfWords (words : List (List UInt8)) : Option String :=
  if words.isEmpty then none else some (" ".intercalate (words.map Latin1.text))

/-- Reads what follows the `c` of a comment line: an annotation if the first word is `root`, and
nothing otherwise. -/
def RootAnnotation.ofComment (comment : List UInt8) : Except ReadError (Option RootAnnotation) :=
  match Latin1.words comment with
  | [] => .ok none
  | first :: words =>
    if first ≠ rootWord then .ok none
    else
      match words with
      | [] => .error (.invalidRoot (Latin1.trim comment))
      | var :: name =>
        match Decimal.unsigned? Decimal.word32 var with
        | some (v + 1) => .ok (some ⟨v + 1, nameOfWords name⟩)
        | _ => .error (.invalidRoot (Latin1.trim comment))

/-! ### The machine -/

/-- Where the reader is; the bytes taken so far come with the last one first. -/
inductive Mode where
  | lineStart
  | header (taken : List UInt8)
  | comment (taken : List UInt8)
  | minus
  | number (taken : List UInt8)
  | between
deriving DecidableEq

/-- What has been read so far; `clause` holds the codes of a clause that is not over yet. -/
structure State where
  mode : Mode
  header : Option Header
  clause : Array Int
  clauses : Array (List Int)
  roots : Array RootAnnotation
deriving DecidableEq

namespace State

/-- Nothing has been read. -/
def start : State := ⟨.lineStart, none, #[], #[], #[]⟩

/-- Whether the byte is white space between numbers: a blank, tab, line feed, form feed or carriage
return. -/
def isSpace (b : UInt8) : Bool := b == 32 || b == 9 || b == 10 || b == 12 || b == 13

/-- Ends a header line. -/
def endHeader (s : State) (taken : List UInt8) : Except ReadError State := do
  if s.header.isSome then throw .duplicateHeader
  let header ← Header.ofLine (Latin1.trim taken.reverse)
  return { s with mode := .lineStart, header := some header }

/-- Ends a comment line. -/
def endComment (s : State) (taken : List UInt8) : Except ReadError State := do
  match ← RootAnnotation.ofComment taken.reverse with
  | some root => return { s with mode := .lineStart, roots := s.roots.push root }
  | none => return { s with mode := .lineStart }

/-- Ends a number other than 0, which is the code of a literal. -/
def endNumber (s : State) (taken : List UInt8) : Except ReadError State :=
  match Decimal.signed? Decimal.half32 taken.reverse, s.header with
  | none, _ => .error (.invalidLiteral taken.reverse)
  | some _, none => .error .missingHeader
  | some code, some header =>
    if header.numVariables < code.natAbs then
      .error (.variableOutOfRange code.natAbs header.numVariables)
    else .ok { s with mode := .between, clause := s.clause.push code }

/-- Ends a clause. -/
def endClause (s : State) : Except ReadError State :=
  if s.header.isNone then .error .missingHeader
  else .ok { s with mode := .between, clause := #[], clauses := s.clauses.push s.clause.toList }

/-- Takes the first byte of a number. -/
def startNumber (s : State) (b : UInt8) : Except ReadError State :=
  if b = 48 then s.endClause
  else if Decimal.isDigit b then .ok { s with mode := .number [b] }
  else if b = 45 then .ok { s with mode := .minus }
  else .error (.unexpectedByte b)

/-- Takes the next byte. -/
def feed (s : State) (b : UInt8) : Except ReadError State :=
  match s.mode with
  | .lineStart =>
    if isSpace b then .ok s
    else if b = 112 then .ok { s with mode := .header [b] }
    else if b = 99 then .ok { s with mode := .comment [] }
    else s.startNumber b
  | .header taken =>
    if b = 10 then s.endHeader taken else .ok { s with mode := .header (b :: taken) }
  | .comment taken =>
    if b = 10 then s.endComment taken else .ok { s with mode := .comment (b :: taken) }
  | .minus =>
    if Decimal.isDigit b && b != 48 then .ok { s with mode := .number [b, 45] }
    else .error (.unexpectedByte b)
  | .number taken =>
    if isSpace b then do
      let s ← s.endNumber taken
      return if b = 10 then { s with mode := .lineStart } else s
    else if Decimal.isDigit b then .ok { s with mode := .number (b :: taken) }
    else .error (.unexpectedByte b)
  | .between =>
    if b = 10 then .ok { s with mode := .lineStart }
    else if isSpace b then .ok s
    else s.startNumber b

/-- Takes some bytes in turn. -/
def feedAll (s : State) (bytes : List UInt8) : Except ReadError State := bytes.foldlM feed s

/-- Ends the last line, which needs no line break.  A minus sign without digits is dropped. -/
def endLine (s : State) : Except ReadError State :=
  match s.mode with
  | .header taken => s.endHeader taken
  | .comment taken => s.endComment taken
  | .number taken => s.endNumber taken
  | _ => .ok s

/-- Ends the file. -/
def finish (s : State) : Except ReadError AnnotatedCnf := do
  let s ← s.endLine
  let some header := s.header | throw .missingHeader
  unless s.clause.isEmpty do throw .unterminatedClause
  unless header.numClauses = s.clauses.size do
    throw (.clauseCount header.numClauses s.clauses.size)
  match s.roots.find? fun root => decide (header.numVariables < root.var) with
  | some root => throw (.variableOutOfRange root.var header.numVariables)
  | none => return ⟨header.numVariables, s.clauses.toList, s.roots.toList⟩

end State

/-! ### Files -/

/-- Reads a file that comes in pieces. -/
def readPieces (pieces : List (List UInt8)) : Except ReadError AnnotatedCnf := do
  (← pieces.foldlM State.feedAll State.start).finish

/-- Reads a file. -/
def read (bytes : List UInt8) : Except ReadError AnnotatedCnf := readPieces [bytes]

end ModelFinder.Dimacs
