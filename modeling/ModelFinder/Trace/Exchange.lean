import ModelFinder.SlotTable
import ModelFinder.Trace
import ModelFinder.TraceCheck.Writer
import Std.Data.HashMap

/-!
# Refutations in the TraceCheck format

`Trace.ofSteps` makes a trace of the steps of a TraceCheck text: the input clauses in the order in
which they appear, then the resolvents up to the first empty one.  Resolvents may stand before the
input clauses they use, but not before other resolvents they use.

`Trace.write` goes back: every clause is a step, which refers to its antecedents by the numbers that
the writer gave them.  `Trace.toSteps` are these steps, with the number `i + 1` for the clause at
position `i`.
-/

namespace ModelFinder

open TraceCheck

namespace Trace

/-- A trace under construction with the position of every step so far. -/
structure Import where
  builder : Builder
  positions : Std.HashMap Nat Nat

namespace Import

/-- Nothing has been imported yet. -/
def start : Import := ⟨.empty, ∅⟩

/-- The literals of a step. -/
def literals (s : Step) : Except Violation (List Literal) :=
  s.literals.mapM fun code =>
    match Literal.ofDimacs? code with
    | some l => .ok l
    | none => .error (.malformed (.literalRange code))

/-- The positions of the antecedents of a step. -/
def antecedents (m : Import) (s : Step) : Except Violation (List Nat) :=
  s.antecedents.mapM fun a =>
    match m.positions[a]? with
    | some i => .ok i
    | none => .error (.malformed (.undefinedStep s.id a))

/-- Notes the position of a step, whose number has to be new. -/
def define (m : Import) (s : Step) (c : TraceClause) (b : Builder) : Except Violation Import :=
  if m.positions.contains s.id then .error (.malformed (.repeatedStep s.id))
  else .ok ⟨b, m.positions.insert s.id c.index⟩

/-- Imports input clauses.  An empty one refutes everything alone: the import is over then, with
the position of that clause. -/
def inputs (m : Import) : List Step → Except Violation (Import × Option Nat)
  | [] => .ok (m, none)
  | s :: steps => do
    let (c, b) ← m.builder.addAxiom (← literals s)
    let m ← m.define s c b
    if s.isEmptyClause then return (m, some c.index) else m.inputs steps

/-- Imports resolvents, up to the first empty one. -/
def resolvents (m : Import) : List Step → Except Violation Import
  | [] => .ok m
  | s :: steps => do
    let as ← m.antecedents s
    let (c, b) ← m.builder.addResolvent (← literals s) as
    let m ← m.define s c b
    if s.isEmptyClause then return m else m.resolvents steps

end Import

/-- The trace of a list of steps. -/
def ofSteps (steps : List Step) : Except Violation Trace := do
  let (m, emptyInput) ← Import.start.inputs (steps.filter (·.isAxiom))
  match emptyInput with
  | some i => (← m.builder.addResolvent [] [i]).2.build
  | none => (← m.resolvents (steps.filter (!·.isAxiom))).builder.build

/-- The steps of a trace, numbered in order. -/
def toSteps (t : Trace) : List Step :=
  Step.numbered <| t.clauses.toList.map fun c =>
    (c.clause.literals.map (·.toDimacs), c.antecedents.map (· + 1))

/-- Why a trace is not written. -/
inductive ExportError where
  | refused (cause : WriteError)
  | noSuchClause (index : Nat)
deriving DecidableEq

namespace ExportError

def message : ExportError → String
  | refused cause => cause.message
  | noSuchClause i => s!"there is no clause {clauseName i}"

end ExportError

/-- A writer, and the number that every clause so far has got. -/
structure Export where
  writer : Writer
  ids : SlotTable Nat

namespace Export

/-- Nothing has been written yet. -/
def start : Export := ⟨.start, .ofList []⟩

/-- The number of an antecedent. -/
def id (m : Export) (a : Nat) : Except ExportError Nat :=
  match m.ids.get? a with
  | some id => .ok id
  | none => .error (.noSuchClause a)

/-- Writes a clause, and notes the number it gets. -/
def log (m : Export) (c : TraceClause) : Except ExportError Export := do
  let antecedents ← c.antecedents.mapM m.id
  match m.writer.log (c.clause.literals.map (·.toDimacs)) antecedents with
  | .ok (id, writer) => return ⟨writer, (m.ids.push id).2⟩
  | .error cause => throw (.refused cause)

end Export

/-- The text of a trace. -/
def write (t : Trace) : Except ExportError (List UInt8) :=
  return (← t.clauses.toList.foldlM Export.log .start).writer.bytes

end Trace

end ModelFinder
