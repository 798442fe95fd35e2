import ModelFinder.Prover.Search

/-!
# Back ends

A `Backend` decides problems in conjunctive normal form.  A refutation that it answers has the
clauses of the problem as input clauses, in order; the reduction of cores depends on it.

`Prover.backend` is the built-in prover.  `Replay.backend` answers the first call with a refutation
that was found elsewhere, provided it fits the problem, and leaves all other calls to the prover.
-/

namespace ModelFinder

/-- A decision procedure with state `β`, which polls a stop condition `σ`. -/
structure Backend (β σ : Type) where
  solve : Cnf → Session Remark Failure (β × σ) SatOutcome

/-- The built-in prover. -/
def Prover.backend {σ : Type} [StopCondition σ] : Backend Prover.Counters σ := ⟨Prover.solve⟩

/-- A refutation to replay, if it has not been used yet, and the prover for all other calls. -/
structure Replay where
  refutation : Option Trace
  prover : Prover.Counters

namespace Replay

/-- Starts with a refutation to replay, or with none. -/
def ofRefutation (refutation : Option Trace) : Replay := ⟨refutation, {}⟩

/-- Checks that a clause of a refutation has the literals of a clause of the problem. -/
def checkAxiom (c : TraceClause) (literals : List Literal) : Except Violation Unit :=
  if c.clause.hasLiterals literals then .ok ()
  else .error (.malformed (.instanceClause c.index c.clause.literals literals))

/-- Checks that the input clauses of a refutation are the clauses of a problem, in order. -/
def checkAxioms (t : Trace) (cnf : Cnf) : Except Violation Unit := do
  unless t.numAxioms = cnf.numClauses do
    throw (.malformed (.instanceSize t.numAxioms cnf.numClauses))
  (t.clauses.toList.zip cnf.clauses).forM fun (c, literals) => checkAxiom c literals

/-- Takes the refutation out, so that later calls do not find it. -/
def take {σ : Type} : Session Remark Failure (Replay × σ) (Option Trace) := fun (r, stop) =>
  ⟨.ok r.refutation, ({ r with refutation := none }, stop), []⟩

/-- Decides a problem. -/
def solve {σ : Type} [StopCondition σ] (cnf : Cnf) :
    Session Remark Failure (Replay × σ) SatOutcome := do
  match ← take with
  | some t =>
    Session.mapFailure .violation (Session.ofExcept (checkAxioms t cnf))
    Session.note (.replaying t.size)
    return .unsatisfiable t
  | none =>
    Session.within (fun (r, stop) => (r.prover, stop))
      (fun (prover, stop) (r, _) => ({ r with prover }, stop)) (Prover.solve cnf)

/-- The back end which replays a refutation. -/
def backend {σ : Type} [StopCondition σ] : Backend Replay σ := ⟨solve⟩

end Replay

end ModelFinder
