import ModelFinder.TraceCheck.Step

/-!
# Writing the TraceCheck format

A writer is asked for one step after the other and numbers them itself.  A step gets a number of
64 bits only if the number after it is one too; when there are none left a request is refused and
writes nothing.
-/

namespace ModelFinder.TraceCheck

/-- Why a step was not written. -/
inductive WriteError where
  | numbersExhausted
deriving DecidableEq

def WriteError.message : WriteError → String
  | numbersExhausted => "step ids exhausted"

/-- The number of the next step, and what has been written so far. -/
structure Writer where
  nextId : Nat
  bytes : List UInt8
deriving DecidableEq

namespace Writer

/-- Nothing has been written yet. -/
def start : Writer := ⟨1, []⟩

/-- Writes a step with the next number; without antecedents it is an input clause. -/
def log (w : Writer) (literals : List Int) (antecedents : List Nat) :
    Except WriteError (Nat × Writer) :=
  if w.nextId + 1 < Decimal.word64 then
    .ok (w.nextId, ⟨w.nextId + 1, w.bytes ++ Step.line ⟨w.nextId, literals, antecedents⟩⟩)
  else .error .numbersExhausted

/-- Answers every request, going on after refusals. -/
def logAll (w : Writer) : List (List Int × List Nat) → List (Except WriteError Nat) × Writer
  | [] => ([], w)
  | (literals, antecedents) :: requests =>
    match w.log literals antecedents with
    | .ok (id, w) =>
      let (answers, w) := w.logAll requests
      (.ok id :: answers, w)
    | .error e =>
      let (answers, w) := w.logAll requests
      (.error e :: answers, w)

/-- How many steps a writer can number. -/
def capacity : Nat := Decimal.word64 - 2

end Writer

end ModelFinder.TraceCheck
