import ModelFinder.Backend
import ModelFinder.Proofs.Backend
import ModelFinder.Proofs.Prover.Exchange

/-!
# Replaying a refutation of the prover

A refutation can be exchanged, so reading the text of one makes the same trace.  Whether its replay
is accepted for the problem it was found for depends on the input clauses: a replay has to have all
clauses of the problem (`checkAxioms_eq_ok`, `checkAxioms_of_ne`), and the prover leaves out those
after the first empty one.  So it is accepted exactly if no clause but the last is empty
(`replay_of_refutation`); `exists_replay_error` is a refutation which is not.
-/

namespace ModelFinder

namespace Replay

open Session

variable {σ : Type} [StopCondition σ] {t : Trace} {cnf : Cnf}

/-- A refutation fits a problem if its input clauses are all clauses of the problem, in order. -/
theorem checkAxioms_eq_ok (hnum : t.numAxioms = cnf.numClauses)
    (hinputs : t.inputs.map (·.clause) = cnf.clauses.map .ofList) : checkAxioms t cnf = .ok () := by
  refine checkAxioms_eq_ok_iff.mpr ⟨hnum, fun i c ls hc hls => ?_⟩
  have hlt : i < t.numAxioms := hnum ▸ (List.getElem?_eq_some_iff.mp hls).1
  have hinput : t.inputs[i]? = some c :=
    (List.getElem?_take_of_lt hlt).trans (Array.getElem?_toList.trans hc)
  have hat := congrArg (·[i]?) hinputs
  simp only [List.getElem?_map, hinput, hls, Option.map_some, Option.some_inj] at hat
  exact hat

theorem checkAxioms_of_ne (h : t.numAxioms ≠ cnf.numClauses) : checkAxioms t cnf =
    .error (.malformed (.instanceSize t.numAxioms cnf.numClauses)) := by
  rw [checkAxioms, if_neg h]
  rfl

/-- The first call answers the refutation, if that fits the problem. -/
theorem answer_solve_ofRefutation (t : Trace) (cnf : Cnf) (stop : σ) :
    ((Replay.solve cnf).run (ofRefutation (some t), stop)).answer =
      ((checkAxioms t cnf).mapError .violation).map fun _ => .unsatisfiable t := by
  have htake : (take : Session Remark Failure (Replay × σ) (Option Trace)).run
      (ofRefutation (some t), stop) = ⟨.ok (some t), (ofRefutation none, stop), []⟩ := rfl
  unfold Replay.solve
  rw [bind_run, htake, Outcome.ok_andThen]
  show ((mapFailure Failure.violation (ofExcept (checkAxioms t cnf)) >>= fun _ => _).run _).answer = _
  rw [bind_run]
  cases checkAxioms t cnf with
  | error e => rfl
  | ok => rfl

end Replay

namespace Prover

open Trace (ofSteps)

variable {σ τ : Type} [StopCondition σ] [StopCondition τ] {cnf : Cnf} {k : Counters} {stop : σ}
  {t : Trace}

/-- Which refutations fit the problem they were found for. -/
theorem Refutes.checkAxioms_eq (h : Refutes cnf.clauses t) : Replay.checkAxioms t cnf =
    if [] ∈ cnf.clauses.dropLast then
      .error (.malformed (.instanceSize t.numAxioms cnf.numClauses))
    else .ok () := by
  split
  next hmem =>
    refine Replay.checkAxioms_of_ne fun hnum => ?_
    exact length_throughEmpty_eq_iff.mp (h.numAxioms_eq.symm.trans hnum) hmem
  next hno =>
    have hlength := length_throughEmpty_eq_iff.mpr hno
    refine Replay.checkAxioms_eq_ok (h.numAxioms_eq.trans hlength) ?_
    rw [h.inputs_eq, (throughEmpty_initial cnf.clauses).eq_of_length hlength]

/-- **Replaying an exported refutation.**  The text of a refutation is read as this refutation.  Its
replay is accepted for the same problem if no clause but the last is empty, and is otherwise refused
because clauses of the problem are missing. -/
theorem replay_of_refutation (h : ((solve cnf).run (k, stop)).answer = .ok (.unsatisfiable t))
    (hsize : t.size < Decimal.word64) (stop' : τ) :
    ∃ steps, TraceCheck.readAll (TraceCheck.text t.toSteps) = .ok steps ∧ ofSteps steps = .ok t ∧
      ((Replay.solve cnf).run (Replay.ofRefutation (some t), stop')).answer =
        if [] ∈ cnf.clauses.dropLast then
          .error (.violation (.malformed (.instanceSize t.numAxioms cnf.numClauses)))
        else .ok (.unsatisfiable t) := by
  obtain ⟨steps, hread, hsteps⟩ := (exchangeable_of_solve h).readAll_ofSteps hsize
  have href : Refutes cnf.clauses t := ((ends_solve cnf k stop).of_answer h).1
  refine ⟨steps, hread, hsteps, ?_⟩
  rw [Replay.answer_solve_ofRefutation, href.checkAxioms_eq]
  split <;> rfl

/-- The first refutation of two contradicting clauses and an empty one, replayed. -/
theorem replay_of_refutation_empty_last :
    ∃ t, ((solve ⟨1, [[1], [-1], []].map (·.filterMap Literal.ofDimacs?)⟩).run
        (({} : Counters), Indefinite.indefinite)).answer = .ok (.unsatisfiable t) ∧
      t.size < Decimal.word64 ∧
      ∃ steps, TraceCheck.readAll (TraceCheck.text t.toSteps) = .ok steps ∧ ofSteps steps = .ok t ∧
        ((Replay.solve ⟨1, [[1], [-1], []].map (·.filterMap Literal.ofDimacs?)⟩).run
          (Replay.ofRefutation (some t), Indefinite.indefinite)).answer = .ok (.unsatisfiable t) := by
  have h : ((solve ⟨1, [[1], [-1], []].map (·.filterMap Literal.ofDimacs?)⟩).run
      (({} : Counters), Indefinite.indefinite)).answer = .ok (.unsatisfiable _) := rfl
  have hno : [] ∉ ([[1], [-1], []].map (·.filterMap Literal.ofDimacs?)).dropLast := by decide
  have hreplay := replay_of_refutation h (by decide) Indefinite.indefinite
  simp only [if_neg hno] at hreplay
  exact ⟨_, h, by decide, hreplay⟩

/-- A refutation that is refused for the problem it was found for. -/
theorem exists_replay_error :
    ∃ t, ((solve ⟨1, [[], [1]].map (·.filterMap Literal.ofDimacs?)⟩).run
        (({} : Counters), Indefinite.indefinite)).answer = .ok (.unsatisfiable t) ∧
      ∃ steps, TraceCheck.readAll (TraceCheck.text t.toSteps) = .ok steps ∧ ofSteps steps = .ok t ∧
        ((Replay.solve ⟨1, [[], [1]].map (·.filterMap Literal.ofDimacs?)⟩).run
          (Replay.ofRefutation (some t), Indefinite.indefinite)).answer =
            .error (.violation (.malformed (.instanceSize 1 2))) := by
  have h : ((solve ⟨1, [[], [1]].map (·.filterMap Literal.ofDimacs?)⟩).run
      (({} : Counters), Indefinite.indefinite)).answer = .ok (.unsatisfiable _) := rfl
  obtain ⟨steps, hread, hsteps⟩ := (exchangeable_of_solve h).readAll_ofSteps (by decide)
  exact ⟨_, h, steps, hread, hsteps, rfl⟩

end Prover

end ModelFinder
