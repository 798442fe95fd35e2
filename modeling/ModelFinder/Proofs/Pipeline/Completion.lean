import ModelFinder.Proofs.Lockstep.Pipeline
import ModelFinder.Proofs.Prover.Answer
import ModelFinder.Proofs.Reduction.Rounds

/-!
# Calls of the pipeline come to an end

Loops have a bound on their rounds, and a session whose rounds are used up fails with
`Failure.unfinished`.  The pipeline never does (`Pipeline.finishes_translateAndSolve`), whatever
problem it is asked about: the search of the prover decides one variable after the other, and every
candidate of a reduction is one of those that were still to come (`Strategy.Shrinks`).

A call makes polls and ticks, but has no other way to its stop condition; so a condition that
triggers after so many polls still does after a call.
-/

namespace ModelFinder

open Lockstep Session StopCondition

/-- A failure, but not one by rounds that are used up. -/
def WithinRounds {σ : Type} (e : Failure) (_ : σ) : Prop := e ≠ .unfinished

theorem withinRounds_violation {σ : Type} {cause : Violation} {s : σ} :
    WithinRounds (.violation cause) s := nofun

theorem withinRounds_translation {σ : Type} {cause : TranslationFailure} {s : σ} :
    WithinRounds (.translation cause) s := nofun

theorem withinRounds_exhausted {σ : Type} {phase : Phase} {s : σ} :
    WithinRounds (.exhausted phase) s := nofun

theorem finishes_poll {ν σ : Type} [StopCondition σ] {phase : Phase} {s : σ} :
    (Session.poll phase : Session ν Failure σ Unit).Ends s (fun _ _ => True) WithinRounds :=
  ends_poll_iff.mpr ⟨fun _ => trivial, fun _ => withinRounds_exhausted⟩

/-- Calls of the back end come to an end. -/
def Backend.Finishes {β σ : Type} (backend : Backend β σ) : Prop :=
  ∀ cnf s, (backend.solve cnf).Ends s (fun _ _ => True) WithinRounds

theorem Prover.finishes_backend {σ : Type} [StopCondition σ] :
    (Prover.backend : Backend Counters σ).Finishes := by
  rintro cnf ⟨k, stop⟩
  refine (Prover.ends_solve cnf k stop).mono (fun _ _ _ => trivial) fun e _ he => ?_
  rw [he.1]
  exact withinRounds_exhausted

/-- Rounds are not used up where back ends come to an end. -/
theorem Backend.Finishes.conserves {β σ : Type} [StopCondition σ] {backend : Backend β σ}
    (hb : backend.Finishes) : Reduction.Conserves backend (fun _ _ => True) WithinRounds where
  weaken _ _ := trivial
  poll _ := finishes_poll
  solve cnf b _ := (hb cnf (b, _)).mono (fun _ _ _ => trivial) fun _ _ he => he
  violation _ _ := withinRounds_violation

/-- **Reductions come to an end**: there is a round for every candidate. -/
theorem Reduction.finishes_minimiseCore {κ β σ : Type} [StopCondition σ] {strategy : Strategy κ}
    {backend : Backend β σ} {s : State κ β σ} (hk : strategy.Shrinks) (hb : backend.Finishes)
    (t : Trace) : (minimiseCore strategy backend t).Ends s (fun _ _ => True) WithinRounds :=
  hb.conserves.ends_minimiseCore hk t trivial

/-! ### The pipeline -/

namespace Pipeline

variable {L : Logic} {π τ β σ : Type}

/-- Calls of the pipeline come to an end, and a stop condition that triggers after so many polls
still does after a call. -/
def Finishes [StopCondition σ] (pipeline : Pipeline L π σ) : Prop :=
  ∀ p minimised s n, TriggersAfter n s.2 →
    (pipeline.solve p minimised).Ends s (fun _ s' => TriggersAfter n s'.2) WithinRounds

variable {backend : Backend β σ} {s : (τ × β) × σ}

theorem finishes_violation {α : Type} (x : Except Violation α) :
    (Session.mapFailure .violation (Session.ofExcept x) : Run L τ β σ α).Ends s
      (fun _ _ => True) WithinRounds := by
  rw [ends_mapFailure]
  cases x with
  | ok a => exact trivial
  | error e => exact ends_ofExcept_error.mpr withinRounds_violation

variable [StopCondition σ]

theorem finishes_minimise (hb : backend.Finishes) (options : SolverOptions)
    (log : TranslationLog L) (t : Trace) :
    (minimise options backend log t : Run L τ β σ Trace).Ends s (fun _ _ => True)
      WithinRounds := by
  unfold minimise
  cases options.minimisation with
  | recycling => exact Reduction.finishes_minimiseCore (Strategy.scans_recycling _).shrinks hb t
  | naive => exact Reduction.finishes_minimiseCore Strategy.scans_naive.shrinks hb t
  | asFound => exact trivial

/-- No rounds are used up in a call. -/
theorem ends_translateAndSolve_withinRounds (hb : backend.Finishes) (translator : Translator L τ)
    (options : SolverOptions) (p : Problem L) (minimised : Bool) :
    ((translateAndSolve translator backend options).solve p minimised).Ends s
      (fun _ _ => True) WithinRounds := by
  unfold translateAndSolve
  rw [ends_bind, ends_within]
  refine finishes_poll.mono (fun _ stop _ => ?_) fun _ _ he => he
  rw [ends_bind]
  unfold translate
  rw [ends_within, ends_mapFailure]
  refine Ends.mono (ends_of_forall_answers fun _ _ _ => trivial) (fun tr t' _ => ?_)
    fun _ _ _ => withinRounds_translation
  rw [ends_bind, ends_note, ends_bind]
  unfold decide
  rw [ends_within, ends_mapNotes]
  refine (hb tr.cnf _).mono (fun o r _ => ?_) fun _ _ he => he
  cases o with
  | satisfiable a => exact trivial
  | unsatisfiable t =>
      have hcore (t' : Trace) {s : (τ × β) × σ} : (do
          let core ← Session.mapFailure .violation
            (Session.ofExcept (UnsatCore.ofTrace t' tr.log))
          return .unsatisfiable core : Run L τ β σ (Verdict L)).Ends s (fun _ _ => True)
            WithinRounds := by
        rw [ends_bind]
        exact (finishes_violation _).mono (fun _ _ _ => trivial) fun _ _ he => he
      rw [ends_bind, ends_note]
      dsimp only
      split
      · rw [ends_bind]
        exact (finishes_minimise hb options tr.log t).mono (fun t' _ _ => hcore t')
          fun _ _ he => he
      · rw [ends_bind, ends_pure]
        exact hcore t

/-- **Calls come to an end.** -/
theorem finishes_translateAndSolve (translator : Translator L τ) (options : SolverOptions) :
    (translateAndSolve translator (Prover.backend : Backend _ σ) options).Finishes := by
  intro p minimised s n hn
  have hk : (keeping (TriggersAfter (σ := σ) n) fun _ => False).Steady :=
    steady_keeping (fun _ h => h.step .poll) fun _ h => h.step .tick
  have hkeeps := ends_of_inStep (inStep_translateAndSolve hk (Prover.inStep_backend hk.toAlike)
    translator options p minimised) (fun _ => id) (s := s) ⟨rfl, rfl, hn⟩
  have hends := ends_translateAndSolve_withinRounds Prover.finishes_backend translator options p
    minimised (s := s)
  exact (hends.and hkeeps).mono (fun _ _ h => h.2.2.2) fun _ _ h => h.1

end Pipeline

end ModelFinder
