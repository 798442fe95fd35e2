import Mathlib
import ModelFinder.Dimacs.Encoding
import ModelFinder.Proofs.Prover.Polling
import ModelFinder.Proofs.Refinement.Iterations
import ModelFinder.Proofs.Solver.Limits

/-!
# Iteration budgets of a solver

All that a session of a solver does is the run of its refinement loop, so that it makes no more
iterations than its budget has, and ticks exactly once for each of them
(`Solver.solve_iterationBudget`).  Nothing is asked of the back end but that what it does with the
stop condition is known: ticks of its own are counted by the budget as well, and only by it.

Nothing is asked of the translator either.  The candidates and the calls of the back end are told by
the notes of a session, up to what the translator adds to them; `Dimacs.translator` adds nothing
(`Dimacs.silent_translator`).
-/

namespace ModelFinder

open StopCondition

namespace Solver

variable {L : Logic} {ω τ β σ : Type}

/-- The end of a session adds nothing that is counted. -/
@[simp] theorem candidates_finish (h : Bool)
    (r : Outcome (Note (Milestone L)) Failure (Refinement.State ω (τ × β) σ) (Verdict L)) :
    Note.candidates (finish h r).notes = Note.candidates r.notes := by
  have hstatistics : ∀ ss : List Statistic,
      Note.candidates (ss.map Note.statistic : List (Note (Milestone L))) = 0 := fun ss => by
    induction ss with
    | nil => rfl
    | cons s ss ih => exact ih
  have hnone : ∀ t : SolverState ω τ β σ,
      Note.candidates (conclude r.answer t).notes = 0 := fun t => by
    rcases r.answer with (_ | _ | _ | _ | _) | (_ | _) <;> rfl
  unfold finish
  simp [hnone, hstatistics]

/-- **An iteration budget is never overspent.**  In a session with a budget of `n` iterations, alone
or among other conditions, the increments of all sessions of the loop and the candidates of all
reductions together are at most `n`, those included which were started and not settled.  The stop
condition is told about an iteration once for each increment and for each candidate that was
settled, and about no others but those that the back end makes on its own.  All calls of the back end
are for candidates or announced, and all settled candidates are remarked on.  If the translator does
not make such announcements and remarks, there are no others. -/
theorem solve_iterationBudget [StopCondition σ] {n : Nat} {b : IterationBudget}
    (hb : IterationBudget.ofNat n = .ok b) (solver : Solver L ω τ β σ)
    {script : Cnf → β × σ → List Call} (hbackend : solver.backend.Follows script)
    (rounds : Nat) (p : Problem L) {s : SolverState ω τ β σ} (hs : Holds b s.stop) :
    let r := (solver.solve rounds p).run s
    let increments := (Milestone.tally L).increments r.notes
    let announced := (Milestone.tally L).announcements r.notes
    let candidates := Note.candidates r.notes
    ∃ called started settled own : Nat, ∃ calls : List Call,
      increments + started ≤ n ∧ settled ≤ started ∧ started ≤ settled + 1 ∧
        r.state.stop = calls.foldl step s.stop ∧
        calls.count .tick = increments + settled + own ∧
        solver.backend.Serves script s.backend (called + started) own r.state.backend ∧
        ((∀ cnf t, Call.tick ∉ script cnf t) → own = 0) ∧
        called ≤ announced ∧ settled ≤ candidates ∧
        (solver.translator.Silent → called = announced ∧ settled = candidates) := by
  intro r increments announced candidates
  have hpipeline (p : Problem L) (minimised : Bool) :
      (Pipeline.books L τ solver.backend script solver.translator.Silent).Covers 0 _ :=
    Pipeline.covers_translateAndSolve hbackend id solver.options p minimised
  have hloop : (Refinement.books L ω τ solver.backend script solver.translator.Silent).Covers 0
      (Refinement.solve solver.oracle (Pipeline.translateAndSolve solver.translator solver.backend
        solver.options) rounds p) := Refinement.covers_solve hpipeline rounds p
  obtain ⟨called, started, settled, own, h⟩ :=
    hloop (start s) n (hs.spentAfter hb) (Nat.zero_le n)
  have hr : r = finish (solver.oracle.isHigherOrder p.formula) (Refinement.solve solver.oracle
      (Pipeline.translateAndSolve solver.translator solver.backend solver.options) rounds p
      (start s)) := solve_eq_finish solver rounds p s
  generalize Refinement.solve solver.oracle
    (Pipeline.translateAndSolve solver.translator solver.backend solver.options) rounds p
    (start s) = o at h hr
  have hmilestones : Note.milestones r.notes = Note.milestones o.notes := by
    rw [hr, milestones_finish]
  have hincrements : increments = (Milestone.tally L).increments o.notes :=
    congrArg (List.countP (Milestone.tally L).increment) hmilestones
  have hannounced : announced = (Milestone.tally L).announcements o.notes :=
    congrArg (List.countP (Milestone.tally L).announcement) hmilestones
  have hcandidates : candidates = Note.candidates o.notes := by
    show Note.candidates r.notes = _
    rw [hr, candidates_finish]
  have hstate : r.state = ⟨o.state.oracle, o.state.pipeline.1, o.state.pipeline.2, o.state.stop⟩ := by
    rw [hr, finish_state]
  rw [hincrements, hannounced, hcandidates, hstate]
  obtain ⟨calls, hcalls, hticks⟩ := h.ticks
  exact ⟨called, started, settled, own, calls, h.affordable, h.completed, h.pending, hcalls, hticks,
    h.serves, h.serves.own_eq_zero, h.counts.called_le, h.counts.settled_le, h.counts.eq_of_precise⟩

end Solver

/-! ### The translator of instances -/

namespace Dimacs

open Session

/-- Reports of the translation that are not counted. -/
def uncounted : Conduct (Note (Stage logic)) Unit where
  moves _ _ := True
  notes n := (Stage.tally logic).Ignores True [n]
  refl _ := trivial
  trans _ _ := trivial

theorem keepsTo_annotated (clauses : List (List Int)) (root : RootAnnotation) :
    (Encoding.annotated clauses root).KeepsTo uncounted := by
  unfold Encoding.annotated
  split
  next => exact keepsTo_fail _
  next =>
    dsimp only
    split
    next => exact (keepsTo_note (Tally.ignores_remark rfl)).bind fun _ => keepsTo_pure _
    next => exact keepsTo_pure _

theorem keepsTo_translate (content : AnnotatedCnf) :
    (Encoding.translate content).KeepsTo uncounted := by
  unfold Encoding.translate
  refine (keepsTo_note (Tally.counts_milestone _)).bind fun _ => ?_
  dsimp only
  split
  next => exact (keepsTo_ofExcept _).bind fun _ => keepsTo_pure _
  next =>
    refine (keepsTo_ofExcept _).bind fun _ => ?_
    exact (KeepsTo.mapM (keepsTo_annotated _) _).bind fun _ => keepsTo_pure _

/-- **The translator of instances adds nothing to the iterations** that the notes of a session tell
of. -/
theorem silent_translator : translator.Silent := by
  rintro ⟨content | _, _⟩ t
  · exact (keepsTo_translate content t).2
  · exact fun _ hn => absurd hn List.not_mem_nil

end Dimacs

/-! ### A search that is paid for -/

namespace Refinement.Wanted

/-- Two constraints, whose variables are roots, are asserted of a list.  Over the variable of the list
they contradict each other if the list is empty, and otherwise say nothing. -/
def twice : Translator logic Unit where
  translate p := pure
    { cnf := ⟨3, [[⟨root, true⟩], [⟨root', true⟩]] ++
        if (numbers p.formula).isEmpty then
          [[⟨root, false⟩, ⟨listed, true⟩], [⟨root', false⟩, ⟨listed, false⟩]]
        else []⟩
      log := .filled 1 [⟨root, .root p.formula⟩, ⟨root', .root p.formula⟩] }
  interpret tr _ := (tr.log.roots.flatMap numbers).headD 0
where
  root : Variable := ⟨2, by decide, by decide⟩
  root' : Variable := ⟨3, by decide, by decide⟩

theorem silent_twice : twice.Silent := fun _ _ _ hn => absurd hn List.not_mem_nil

/-- The search for the only number of 1 and 2, under a stop condition. -/
def paidSession {σ : Type} [StopCondition σ] (stop : σ) :
    Outcome (Note (Milestone logic)) Failure (SolverState Unit Unit Prover.Counters σ)
      (Solution logic) :=
  ((Solver.withProver twice exclusion {}).solve 40 ⟨only [1, 2], ()⟩).run ⟨(), (), {}, stop⟩

/-- The session has given up after two increments and a candidate, and the stop condition was told of
three iterations. -/
def GaveUpAfterThree {σ : Type} [StopCondition σ] (stop : σ) : Prop :=
  (paidSession stop).answer = .ok .unknown ∧
    (Milestone.tally logic).increments (paidSession stop).notes = 2 ∧
    Note.candidates (paidSession stop).notes = 1 ∧
    ∃ calls : List Call,
      (paidSession stop).state.stop = calls.foldl step stop ∧ calls.count .tick = 3

/-- Whether a session gives up after two increments and a candidate. -/
def givesUpAfterThree {σ : Type} [StopCondition σ] (stop : σ) : Bool :=
  match (paidSession stop).answer with
  | .ok .unknown =>
    (Milestone.tally logic).increments (paidSession stop).notes == 2 &&
      Note.candidates (paidSession stop).notes == 1
  | _ => false

end Refinement.Wanted

open Refinement.Wanted in
/-- Neither 1 nor 2 is their only number, which takes an increment each to find out; the reduction of
the core has two candidates.  A budget of three is used up by the first one, alone and beside a
condition that never triggers. -/
theorem Solver.solve_iterationBudget_only_number :
    IterationBudget.ofNat 3 = .ok ⟨3, 0⟩ ∧ twice.Silent ∧
      GaveUpAfterThree (⟨3, 0⟩ : IterationBudget) ∧
      GaveUpAfterThree (.either (.single (.indefinite .indefinite)) (.single (.budget ⟨3, 0⟩)) :
        Composite Condition) := by
  have hgave {σ : Type} [StopCondition σ] {stop : σ} (hs : Holds ⟨3, 0⟩ stop)
      (hrun : givesUpAfterThree stop = true) : GaveUpAfterThree stop := by
    obtain ⟨script, hscript, hpolls⟩ := Prover.onlyPolls_backend (σ := σ)
    obtain ⟨called, -, settled, own, calls, -, -, -, hstop, hticks, -, hown, -, -, hsilent⟩ :=
      solve_iterationBudget (n := 3) rfl (withProver twice exclusion {}) hscript 40
        ⟨only [1, 2], ()⟩ (s := ⟨(), (), {}, stop⟩) hs
    unfold givesUpAfterThree at hrun
    split at hrun
    next hanswer =>
      obtain ⟨hincrements, hcandidates⟩ := Bool.and_eq_true_iff.mp hrun
      have hincrements := eq_of_beq hincrements
      have hcandidates := eq_of_beq hcandidates
      refine ⟨hanswer, hincrements, hcandidates, calls, hstop, hticks.trans ?_⟩
      have hsettled : settled = Note.candidates (paidSession stop).notes :=
        (hsilent silent_twice).2
      show (Milestone.tally logic).increments (paidSession stop).notes + settled + own = 3
      rw [hincrements, hsettled, hcandidates, hown hpolls]
    next => cases hrun
  refine ⟨rfl, silent_twice, hgave (.budget embeds_id) (by cbv), hgave ?_ (by cbv)⟩
  exact .second (.single (.budget embeds_budget))

end ModelFinder
