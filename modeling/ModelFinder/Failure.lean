import ModelFinder.Literal

/-!
# Failures

Every way in which a computation of the library can fail, as a cause.  `Violation` gathers the
broken promises between the parts of a session: a refutation of the wrong shape, a candidate that
may not be proposed, a log that does not fit its refutation.  `Failure` is what ends a session; the
wording of a cause is in its `message` and nowhere else.
-/

namespace ModelFinder

/-- Options that are refused. -/
inductive ConfigurationError where
  | negativeDistance (distance : Int)
  | emptyBudget
deriving DecidableEq

namespace ConfigurationError

def message : ConfigurationError → String
  | negativeDistance d => s!"the resolution distance must be non-negative, got {d}"
  | emptyBudget => "an iteration budget must allow at least one iteration"

end ConfigurationError

/-- How the position of a clause in a refutation is written. -/
def clauseName (index : Nat) : String := s!"c{index}"

/-- What is asserted about an answer before it is given.  If it does not hold, the answer is refused
as one that does not belong to its problem. -/
inductive Assertion where
  | modelSatisfies
  | refutationEmpty
  | axiomsKept
deriving DecidableEq

namespace Assertion

def message : Assertion → String
  | modelSatisfies => "the model satisfies every clause"
  | refutationEmpty => "the refutation is the empty clause"
  | axiomsKept => "no axiom is added by splicing"

end Assertion

/-- Why an answer does not belong to the problem it is given for. -/
inductive Mismatch where
  | axiomCount (expected found : Nat)
  | axiomLiterals (reduced clause : Nat)
  | literalRange (code : Int)
  | repeatedStep (id : Nat)
  | undefinedStep (id antecedent : Nat)
  | instanceSize (axioms clauses : Nat)
  | instanceClause (index : Nat) (found expected : List Literal)
  | failed (assertion : Assertion)
deriving DecidableEq

namespace Mismatch

def message : Mismatch → String
  | axiomCount expected found => s!"expected {expected} axioms but the trace has {found}"
  | axiomLiterals reduced clause =>
    s!"axiom {clauseName reduced} does not match clause {clauseName clause}"
  | literalRange code => s!"literal {code} is out of range"
  | repeatedStep id => s!"step {id} is defined twice"
  | undefinedStep id antecedent =>
    s!"step {id} refers to step {antecedent} which is not defined before it"
  | instanceSize axioms clauses =>
    s!"the trace has {axioms} axioms, but the instance has {clauses} clauses"
  | instanceClause index found expected =>
    s!"axiom {clauseName index} is {Literal.joined found}, " ++
      s!"but clause {index + 1} of the instance is {Literal.joined expected}"
  | failed assertion => s!"assertion failed: {assertion.message}"

end Mismatch

/-- A promise between two parts of a session that was not kept. -/
inductive Violation where
  | emptyTrace
  | axiomAfterResolvent (index : Nat)
  | noAntecedents (index : Nat)
  | antecedentNotBefore (index antecedent : Nat)
  | missingTerminal (index : Nat)
  | terminalInCandidate (terminal : Nat)
  | emptyCandidate
  | antecedentOutside (index antecedent : Nat)
  | malformed (reason : Mismatch)
  | unknownVariable (v : Variable)
  | conflictingOrigin (v : Variable)
  | emptySplit
  | noSuchClause (index : Nat)
deriving DecidableEq

namespace Violation

def message : Violation → String
  | emptyTrace => "the trace contains no clauses"
  | axiomAfterResolvent i => s!"axiom {clauseName i} is added after the first resolvent"
  | noAntecedents i => s!"resolvent {clauseName i} has no antecedents"
  | antecedentNotBefore i a =>
    s!"resolvent {clauseName i} refers to antecedent {clauseName a} which does not precede it"
  | missingTerminal i => s!"the final clause {clauseName i} of the trace is not the empty clause"
  | terminalInCandidate t => s!"the candidate contains the terminal clause {clauseName t}"
  | emptyCandidate => "a reduction strategy proposed an empty candidate"
  | antecedentOutside i a =>
    s!"resolvent {clauseName i} of the candidate depends on {clauseName a} outside the candidate"
  | malformed reason => s!"the SAT back end returned a malformed trace: {reason.message}"
  | unknownVariable v => s!"variable {v.index} has no record in the translation log"
  | conflictingOrigin v => s!"root variable {v.index} was first recorded as a declaration"
  | emptySplit => "a case split without choices was requested"
  | noSuchClause i => s!"there is no clause {clauseName i}"

/-- Refuses to go on unless an assertion holds. -/
def assert (assertion : Assertion) (holds : Bool) : Except Violation Unit :=
  if holds then .ok () else .error (.malformed (.failed assertion))

theorem assert_eq_ok {assertion : Assertion} {holds : Bool} {u : Unit} :
    assert assertion holds = .ok u ↔ holds = true := by
  cases holds <;> simp [assert]

end Violation

/-- A formula that could not be translated. -/
structure TranslationFailure where
  reason : String
deriving DecidableEq

namespace TranslationFailure

def message (f : TranslationFailure) : String := s!"translation failed: {f.reason}"

end TranslationFailure

/-- The part of a session in which its resources ran out. -/
inductive Phase where
  | solving
  | reduction
  | refinement
deriving DecidableEq

namespace Phase

def text : Phase → String
  | solving => "solving"
  | reduction => "core reduction"
  | refinement => "higher-order refinement"

end Phase

/-- Why a session ended without an answer.  A session whose number of rounds is bounded from
outside is `unfinished` when the bound is used up. -/
inductive Failure where
  | configuration (cause : ConfigurationError)
  | violation (cause : Violation)
  | translation (cause : TranslationFailure)
  | exhausted (phase : Phase)
  | unfinished
deriving DecidableEq

namespace Failure

def message : Failure → String
  | configuration cause => cause.message
  | violation cause => s!"internal contract violation: {cause.message}"
  | translation cause => cause.message
  | exhausted phase => s!"resources were exhausted during {phase.text}"
  | unfinished => "the bound on the number of rounds was used up"

end Failure

end ModelFinder
