import ModelFinder.Refinement

/-!
# Solvers

A `Solver` puts a translator, a back end and an oracle together.  Each call of `Solver.solve` is a
session of its own; what is kept between sessions is the state of the parts.  A session whose stop
condition triggers answers `Solution.unknown`; every other failure stays a failure.
-/

namespace ModelFinder

/-- The parts of a solver. -/
structure Solver (L : Logic) (ω τ β σ : Type) where
  translator : Translator L τ
  backend : Backend β σ
  oracle : Oracle L ω
  options : SolverOptions := {}

/-- The state of the parts of a solver, and the stop condition. -/
structure SolverState (ω τ β σ : Type) where
  oracle : ω
  translator : τ
  backend : β
  stop : σ

/-- What a session answers. -/
inductive Solution (L : Logic) where
  | satisfiable (model : L.Model)
  | unsatisfiable (core : UnsatCore L)
  | unknown

namespace Solution

variable {L : Logic}

/-- Whether a model was found. -/
def isSatisfiable : Solution L → Bool
  | satisfiable _ => true
  | _ => false

/-- Whether the formula was refuted. -/
def isUnsatisfiable : Solution L → Bool
  | unsatisfiable _ => true
  | _ => false

end Solution

namespace Solver

variable {L : Logic} {ω τ β σ : Type}

/-- A session of a solver. -/
abbrev Run (L : Logic) (ω τ β σ α : Type) :=
  Session (Note (Milestone L)) Failure (SolverState ω τ β σ) α

/-- A solver for a logic without higher-order quantification. -/
def firstOrder (translator : Translator L τ) (backend : Backend β σ) (options : SolverOptions) :
    Solver L Unit τ β σ :=
  { translator, backend, oracle := .firstOrder L, options }

/-- The solution that the end of a run amounts to; giving up is a solution with a remark. -/
def conclude (answer : Except Failure (Verdict L)) : Run L ω τ β σ (Solution L) :=
  match answer with
  | .ok (.satisfiable m) => return .satisfiable m
  | .ok (.unsatisfiable core) => return .unsatisfiable core
  | .error (.exhausted phase) => do
    Session.note (.remark (.exhausted phase))
    return .unknown
  | .error e => Session.fail e

/-- Solves a problem.  The statistics of the refinement loop are noted at its end, whatever the end
is, if the formula is a higher-order one. -/
def solve [StopCondition σ] (solver : Solver L ω τ β σ) (rounds : Nat) (p : Problem L) :
    Run L ω τ β σ (Solution L) := fun s =>
  let pipeline := Pipeline.translateAndSolve solver.translator solver.backend solver.options
  let start : Refinement.State ω (τ × β) σ := ⟨s.oracle, (s.translator, s.backend), s.stop, {}⟩
  let r := Refinement.solve solver.oracle pipeline rounds p start
  let statistics :=
    if solver.oracle.isHigherOrder p.formula then r.state.counters.statistics else []
  let done := conclude r.answer
    ⟨r.state.oracle, r.state.pipeline.1, r.state.pipeline.2, r.state.stop⟩
  { done with notes := r.notes ++ statistics.map Note.statistic ++ done.notes }

/-- Solves a problem of a logic without higher-order quantification, for which no rounds are
needed. -/
def solveFirstOrder [StopCondition σ] (solver : Solver L Unit τ β σ) (p : Problem L) :
    Run L Unit τ β σ (Solution L) := solver.solve 0 p

end Solver

end ModelFinder
