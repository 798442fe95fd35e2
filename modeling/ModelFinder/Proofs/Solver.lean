import ModelFinder.Solver

/-!
# How a solver ends

A session of a solver is a run of the refinement loop followed by `Solver.finish`, which turns the
end of the run into a solution and adds notes, but no milestones.  It answers `Solution.unknown`
exactly if the run was ended by its stop condition, and keeps every core and every other failure.
-/

namespace ModelFinder

variable {L : Logic} {ω τ β σ : Type}

/-- Statistics are no milestones. -/
@[simp] theorem Note.milestones_map_statistic {μ : Type} (ss : List Statistic) :
    milestones (ss.map statistic : List (Note μ)) = [] := by
  induction ss with
  | nil => rfl
  | cons s ss ih => exact ih

namespace Solver

/-- A solver with the built-in prover as its back end. -/
def withProver [StopCondition σ] (translator : Translator L τ) (oracle : Oracle L ω)
    (options : SolverOptions) : Solver L ω τ Prover.Counters σ :=
  { translator, backend := Prover.backend, oracle, options }

/-- The state of the loop at the start of a session. -/
def start (s : SolverState ω τ β σ) : Refinement.State ω (τ × β) σ :=
  ⟨s.oracle, (s.translator, s.backend), s.stop, {}⟩

/-- What a session makes of the run of its loop. -/
def finish (isHigherOrder : Bool)
    (r : Outcome (Note (Milestone L)) Failure (Refinement.State ω (τ × β) σ) (Verdict L)) :
    Outcome (Note (Milestone L)) Failure (SolverState ω τ β σ) (Solution L) :=
  let statistics := if isHigherOrder then r.state.counters.statistics else []
  let done := conclude r.answer
    ⟨r.state.oracle, r.state.pipeline.1, r.state.pipeline.2, r.state.stop⟩
  { done with notes := r.notes ++ statistics.map Note.statistic ++ done.notes }

theorem solve_eq_finish [StopCondition σ] (solver : Solver L ω τ β σ) (rounds : Nat)
    (p : Problem L) (s : SolverState ω τ β σ) :
    solver.solve rounds p s = finish (solver.oracle.isHigherOrder p.formula)
      (Refinement.solve solver.oracle
        (Pipeline.translateAndSolve solver.translator solver.backend solver.options)
        rounds p (start s)) := rfl

section

variable (h : Bool)
  (r : Outcome (Note (Milestone L)) Failure (Refinement.State ω (τ × β) σ) (Verdict L))

@[simp] theorem finish_state : (finish h r).state =
    ⟨r.state.oracle, r.state.pipeline.1, r.state.pipeline.2, r.state.stop⟩ := by
  obtain ⟨answer, s, notes⟩ := r
  rcases answer with (_ | _ | _ | _ | _) | (_ | _) <;> rfl

@[simp] theorem milestones_finish :
    Note.milestones (finish h r).notes = Note.milestones r.notes := by
  have hnone : ∀ t : SolverState ω τ β σ,
      Note.milestones (conclude r.answer t).notes = [] := fun t => by
    rcases r.answer with (_ | _ | _ | _ | _) | (_ | _) <;> rfl
  unfold finish
  simp [hnone]

theorem finish_answer_eq_unknown_iff :
    (finish h r).answer = .ok .unknown ↔ ∃ phase, r.answer = .error (.exhausted phase) := by
  obtain ⟨answer, s, notes⟩ := r
  constructor
  · intro hunknown
    rcases answer with (_ | _ | _ | phase | _) | (_ | _) <;> first | exact ⟨_, rfl⟩ | cases hunknown
  · rintro ⟨phase, rfl⟩
    rfl

/-- A core is that of the verdict. -/
theorem finish_answer_eq_unsatisfiable_iff {core : UnsatCore L} :
    (finish h r).answer = .ok (.unsatisfiable core) ↔ r.answer = .ok (.unsatisfiable core) := by
  obtain ⟨answer, s, notes⟩ := r
  constructor
  · intro hcore
    rcases answer with (_ | _ | _ | _ | _) | (_ | _) <;> cases hcore
    rfl
  · rintro rfl
    rfl

theorem finish_answer_eq_unfinished_iff :
    (finish h r).answer = .error .unfinished ↔ r.answer = .error .unfinished := by
  obtain ⟨answer, s, notes⟩ := r
  constructor
  · intro hunfinished
    rcases answer with (_ | _ | _ | _ | _) | (_ | _) <;> first | rfl | cases hunfinished
  · rintro rfl
    rfl

end

end Solver

end ModelFinder
