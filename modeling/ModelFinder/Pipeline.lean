import ModelFinder.Reduction.Minimise
import ModelFinder.UnsatCore

/-!
# Solving first-order problems

A `Pipeline` decides first-order problems.  `translateAndSolve` is the one that translates the
problem, asks a back end, and either interprets the values found or names the constraints that the
refutation depends on, after minimising them if that is asked for.
-/

namespace ModelFinder

/-- How unsatisfiable cores are minimised; `asFound` leaves them alone. -/
inductive CoreMinimisation where
  | recycling
  | naive
  | asFound
deriving DecidableEq

/-- The options of a solver. -/
structure SolverOptions where
  minimisation : CoreMinimisation := .recycling
  distance : ResolutionDistance := .unbounded
deriving DecidableEq

/-- The answer to a problem: a model, or the constraints that have none. -/
inductive Verdict (L : Logic) where
  | satisfiable (model : L.Model)
  | unsatisfiable (core : UnsatCore L)

/-- A decision procedure for first-order problems with state `π` and stop condition `σ`.  The core
of an unsatisfiable problem is only minimised when that is asked for. -/
structure Pipeline (L : Logic) (π σ : Type) where
  solve : Problem L → Bool → Session (Note (Stage L)) Failure (π × σ) (Verdict L)

namespace Pipeline

variable {L : Logic} {τ β σ : Type}

/-- The state of a translator and a back end with a stop condition. -/
abbrev Run (L : Logic) (τ β σ α : Type) := Session (Note (Stage L)) Failure ((τ × β) × σ) α

/-- Asks the translator. -/
def translate (translator : Translator L τ) (p : Problem L) : Run L τ β σ (Translation L) :=
  Session.within (·.1.1) (fun t s => ((t, s.1.2), s.2))
    ((translator.translate p).mapFailure .translation)

/-- Asks the back end. -/
def decide (backend : Backend β σ) (cnf : Cnf) : Run L τ β σ SatOutcome :=
  Session.within (fun s => (s.1.2, s.2)) (fun r s => ((s.1.1, r.1), r.2))
    ((backend.solve cnf).mapNotes Note.remark)

/-- Minimises the core of a refutation with a strategy that tries every root once. -/
def minimiseWith [StopCondition σ] (strategy : Strategy RootPool) (backend : Backend β σ)
    (log : TranslationLog L) (t : Trace) : Run L τ β σ Trace :=
  Session.within (fun s => (⟨.ofLog log, s.1.2, s.2⟩ : Reduction.State RootPool β σ))
    (fun r s => ((s.1.1, r.backend), r.stop))
    ((minimiseCore strategy backend t).mapNotes (Note.map Empty.elim))

/-- Minimises the core of a refutation as the options say. -/
def minimise [StopCondition σ] (options : SolverOptions) (backend : Backend β σ)
    (log : TranslationLog L) (t : Trace) : Run L τ β σ Trace :=
  match options.minimisation with
  | .recycling => minimiseWith (.recycling options.distance) backend log t
  | .naive => minimiseWith .naive backend log t
  | .asFound => pure t

/-- Translates a problem and solves it. -/
def translateAndSolve [StopCondition σ] (translator : Translator L τ) (backend : Backend β σ)
    (options : SolverOptions) : Pipeline L (τ × β) σ where
  solve p minimised := do
    Session.within Prod.snd (fun stop s => (s.1, stop)) (Session.poll .solving)
    let translation ← translate translator p
    let cnf := translation.cnf
    Session.note
      (.milestone (.solvingCnf translation.log.primary cnf.numVariables cnf.numClauses))
    match ← decide backend cnf with
    | .satisfiable assignment => return .satisfiable (translator.interpret translation assignment)
    | .unsatisfiable t =>
      Session.note (.remark (.refuted cnf.numClauses t.core.size))
      let t ← if minimised then minimise options backend translation.log t else pure t
      let core ← Session.mapFailure .violation
        (Session.ofExcept (UnsatCore.ofTrace t translation.log))
      return .unsatisfiable core

end Pipeline

end ModelFinder
