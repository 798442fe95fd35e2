import ModelFinder.Proofs.Prover.Answer

/-!
# The prover is sound and complete

* `solve_correct`: with a stop condition that never triggers, the prover always answers.  It finds
  a model if there is one, and otherwise a proof by resolution of the empty clause.
* `inputs_of_refutation`: which input clauses a refutation has.  They are all clauses of the problem
  exactly if none of these but the last one is empty: the prover stops at the first empty clause,
  and does not add the clauses after it (`numAxioms_lt_numClauses`).
-/

namespace ModelFinder.Prover

open StopCondition

variable {σ : Type} [StopCondition σ]

/-- **Soundness and completeness.**  A satisfiable problem is answered by values for all of its
variables, which make a literal of each clause true.  Any other problem is answered by a trace whose
last clause is empty, and in which each derived clause is what is left when its antecedents are
resolved in the order of their list, every time on the only pivot there is. -/
theorem solve_correct (cnf : Cnf) (k : Counters) {stop : σ} (hstop : NeverTriggers stop) :
    (cnf.Satisfiable ∧ ∃ a, ((solve cnf).run (k, stop)).answer = .ok (.satisfiable a) ∧
      a.numVariables = cnf.numVariables ∧
      (∀ v : Variable, v.index ≤ cnf.numVariables → (a.value? v).isSome = true) ∧
      ∀ ls ∈ cnf.clauses, ∃ l ∈ ls, a.satisfies l = true) ∨
    (¬ cnf.Satisfiable ∧ ∃ t, ((solve cnf).run (k, stop)).answer = .ok (.unsatisfiable t) ∧
      (∀ c ∈ t.derived, ∃ ds, t.clausesAt c.antecedents = some ds ∧
        Clause.chain? ds = some c.clause) ∧
      ∃ c, t.get? t.terminal = some c ∧ c.clause = .empty) := by
  have hends := (ends_solve cnf k stop).mono (fun _ _ h => h.1) fun _ _ h => h.2 hstop
  obtain ⟨o, ho, hdecides⟩ := hends.exists_answer
  cases o with
  | satisfiable a =>
      refine .inl ⟨Solves.satisfiable hdecides, a, ho, hdecides.numVariables_eq, ?_,
        hdecides.satisfies⟩
      intro v hv
      have hslot : v.slot < a.values.size := by
        have hsize : a.values.size = cnf.numVariables := hdecides.numVariables_eq
        have hpos := v.one_le
        show v.index - 1 < a.values.size
        omega
      rw [Assignment.value?, Array.getElem?_eq_getElem hslot]
      rfl
  | unsatisfiable t =>
      have hunsat : ¬ cnf.Satisfiable := by
        rintro ⟨f, hf⟩
        exact Refutes.not_models hdecides f hf
      refine .inr ⟨hunsat, t, ho, ?_, hdecides.endsEmpty⟩
      intro c hc
      obtain ⟨i, hle, hi⟩ := Trace.mem_derived_iff.mp hc
      exact hdecides.isProof hi hle

/-- A variable which has to be true and false. -/
theorem solve_correct_contradiction :
    NeverTriggers Indefinite.indefinite ∧
      ∃ t, ((solve ⟨1, [[⟨⟨1, by decide, by decide⟩, true⟩],
        [⟨⟨1, by decide, by decide⟩, false⟩]]⟩).run
          (({} : Counters), Indefinite.indefinite)).answer = .ok (.unsatisfiable t) := by
  refine ⟨neverTriggers_indefinite _, ?_⟩
  rcases solve_correct ⟨1, [[⟨⟨1, by decide, by decide⟩, true⟩],
      [⟨⟨1, by decide, by decide⟩, false⟩]]⟩ {} (neverTriggers_indefinite .indefinite)
    with ⟨⟨f, hf⟩, -⟩ | ⟨-, t, ht, -⟩
  · obtain ⟨l, hl, htrue⟩ := hf _ (.head _)
    obtain ⟨k, hk, hfalse⟩ := hf _ (.tail _ (.head _))
    obtain rfl := List.mem_singleton.mp hl
    obtain rfl := List.mem_singleton.mp hk
    exact absurd (Eq.trans (Eq.symm htrue) hfalse) (by decide)
  · exact ⟨t, ht⟩

/-- **The input clauses of a refutation** are those of the problem up to the first empty one.  They
are all of them exactly if no clause but the last is empty. -/
theorem inputs_of_refutation {cnf : Cnf} {k : Counters} {stop : σ} {t : Trace}
    (h : ((solve cnf).run (k, stop)).answer = .ok (.unsatisfiable t)) :
    t.inputs.map (·.clause) = (throughEmpty cnf.clauses).map .ofList ∧
      (t.numAxioms = cnf.numClauses ∧ t.inputs.map (·.clause) = cnf.clauses.map .ofList ↔
        [] ∉ cnf.clauses.dropLast) := by
  have href : Refutes cnf.clauses t := ((ends_solve cnf k stop).of_answer h).1
  refine ⟨href.inputs_eq, fun hall => ?_, fun hno => ?_⟩
  · exact length_throughEmpty_eq_iff.mp (href.numAxioms_eq.symm.trans hall.1)
  · have hlength := length_throughEmpty_eq_iff.mpr hno
    refine ⟨href.numAxioms_eq.trans hlength, ?_⟩
    rw [href.inputs_eq, (throughEmpty_initial cnf.clauses).eq_of_length hlength]

/-- A clause that is missing from the refutation: it comes after an empty one. -/
theorem numAxioms_lt_numClauses :
    ∃ t, ((solve ⟨1, [[], [⟨⟨1, by decide, by decide⟩, true⟩]]⟩).run
        (({} : Counters), Indefinite.indefinite)).answer = .ok (.unsatisfiable t) ∧
      t.numAxioms < Cnf.numClauses ⟨1, [[], [⟨⟨1, by decide, by decide⟩, true⟩]]⟩ :=
  ⟨_, rfl, by decide⟩

/-- A problem whose only empty clause is the last one. -/
theorem inputs_of_refutation_empty_last :
    ∃ t, ((solve ⟨1, [[⟨⟨1, by decide, by decide⟩, true⟩], []]⟩).run
      (({} : Counters), Indefinite.indefinite)).answer = .ok (.unsatisfiable t) ∧ t.numAxioms = 2 :=
  have h : ((solve ⟨1, [[⟨⟨1, by decide, by decide⟩, true⟩], []]⟩).run
      (({} : Counters), Indefinite.indefinite)).answer = .ok (.unsatisfiable _) := rfl
  ⟨_, h, ((inputs_of_refutation h).2.mpr (by decide)).1⟩

end ModelFinder.Prover
