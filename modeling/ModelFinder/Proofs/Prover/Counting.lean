import ModelFinder.Proofs.Prover.Following
import ModelFinder.Proofs.Prover.Refuting

/-!
# The count of resolvents

What has been counted and what is in the trace differ by the same number before and after each move
of a search (`Search.Tallies`).  Input clauses are not counted, so that the number of resolvents
counted for a refutation found by a search is that of its derived clauses.

The resolvent by which the prover ends a refutation at an empty input clause is added without being
counted (`counted_lt_numResolvents`).

* `solve_counts_resolvents`: **a refutation is counted**, but for this resolvent, in each call and
  whatever was counted in earlier ones.
-/

namespace ModelFinder.Prover

open Session StopCondition Search
open Trace (Builder)

variable {σ : Type} [StopCondition σ] {cnf : Cnf} {s s' : State σ} {t : Trace}

/-- A search counts the derived clauses of its refutation. -/
theorem counted_of_search {clauses : List TraceClause} {s₁ : State σ} {c : TraceClause}
    (hsearched : Searched cnf clauses s₁.builder)
    (refuted : (search clauses cnf.numVariables (.initial cnf.numVariables)).Answers s₁
      (.refuted c) s') :
    s'.counters.resolvents = s₁.counters.resolvents + s'.builder.trace.numResolvents := by
  obtain ⟨trail, hreach, -⟩ := refuted.ends_iff.mp (follows hsearched.inRange _ _ [] s₁
    (Trail.valid_initial clauses _) (undecided_initial _))
  have htallies : s'.counters.resolvents + s₁.builder.size =
      s₁.counters.resolvents + s'.builder.size := hreach.tallies
  obtain ⟨hsupports, hgrows, -⟩ := found_of_search hsearched refuted
  have hsize := hsearched.size_eq
  have hnum : s'.builder.numAxioms = s₁.builder.numAxioms := hgrows.numAxioms_eq
  have hle : s'.builder.numAxioms ≤ s'.builder.size := hsupports.wellFormed.numAxioms_le
  show _ = _ + (s'.builder.size - s'.builder.numAxioms)
  omega

omit [StopCondition σ] in
/-- The resolvent that closes a trace of input clauses is its only one, and is not counted. -/
theorem counted_of_closed {as : List Nat} {r : TraceClause}
    (hsize : s.builder.size = s.builder.numAxioms)
    (closed : (addResolvent [] as).Answers s r s') :
    s'.counters = s.counters ∧ s'.builder.trace.numResolvents = 1 := by
  obtain ⟨added, hcounters⟩ := closed.ends_iff.mp ends_addResolvent_answered
  obtain ⟨-, -, -, hb⟩ := Builder.addResolvent_eq_ok.mp added
  refine ⟨hcounters, ?_⟩
  have hnum : s.builder.clauses.size = s.builder.numAxioms := hsize
  rw [hb]
  show (s.builder.clauses.push r).size - s.builder.numAxioms = 1
  rw [Array.size_push, hnum, Nat.add_sub_cancel_left]

/-- What is counted for a refutation: all of its resolvents, or all but one. -/
theorem Concludes.counted (h : Concludes cnf s t s') (hs : s.builder = .empty) :
    s'.counters.resolvents + (if [] ∈ cnf.clauses then 1 else 0) =
      s.counters.resolvents + t.numResolvents := by
  cases h with
  | @given c r clauses s₁ _ added closed =>
      obtain ⟨hmem, -, hsize, -, hcounters⟩ := given_of_addAxioms hs added
      obtain ⟨hkept, hone⟩ := counted_of_closed hsize closed
      rw [hkept, hcounters, hone, if_pos hmem]
  | @searched c clauses s₁ _ added refuted _ _ =>
      obtain ⟨hsearched, hcounters⟩ := searched_of_addAxioms hs added
      rw [if_neg (not_mem_of_addAxioms hs added), Nat.add_zero, ← hcounters]
      exact counted_of_search hsearched refuted

/-- **A refutation is counted.**  Of the resolvents of a refutation, a call counts each one, except
that an empty clause of the problem is resolved to the terminal clause without a count. -/
theorem solve_counts_resolvents {k k' : Counters} {stop stop' : σ}
    (h : (solve cnf).Answers (k, stop) (.unsatisfiable t) (k', stop')) :
    k'.resolvents + (if [] ∈ cnf.clauses then 1 else 0) = k.resolvents + t.numResolvents := by
  obtain ⟨s', hconcludes, rfl⟩ := concludes_of_solve h
  exact hconcludes.counted rfl

/-- A call that counts less than there is in its refutation. -/
theorem counted_lt_numResolvents :
    ∃ t after, (solve ⟨0, [[]]⟩).Answers (({} : Counters), Indefinite.indefinite)
      (.unsatisfiable t) after ∧ after.1.resolvents < ({} : Counters).resolvents + t.numResolvents :=
  ⟨⟨#[⟨0, .empty, []⟩, ⟨1, .empty, [0]⟩], 1⟩, ({}, .indefinite), ⟨rfl, rfl⟩, by decide⟩

/-- After five resolvents of an earlier call, the refutation of four clauses makes it eight. -/
theorem solve_counts_resolvents_fourClauses :
    ∃ t after, (solve fourClauses).Answers ((⟨0, 0, 5⟩ : Counters), Indefinite.indefinite)
      (.unsatisfiable t) after ∧ t.numResolvents = 3 ∧ after.1.resolvents = 8 := by
  have hcheck : (match (solve fourClauses
      ((⟨0, 0, 5⟩ : Counters), Indefinite.indefinite)).answer with
      | .ok (.unsatisfiable t) => decide (t.numResolvents = 3)
      | _ => false) = true := by decide +kernel
  split at hcheck
  next t ht =>
    have h : (solve fourClauses).Answers ((⟨0, 0, 5⟩ : Counters), Indefinite.indefinite)
        (.unsatisfiable t) (_, _) := ⟨ht, rfl⟩
    have hthree : t.numResolvents = 3 := of_decide_eq_true hcheck
    have hcount := solve_counts_resolvents h
    rw [hthree, if_neg (by decide)] at hcount
    exact ⟨t, _, h, hthree, hcount⟩
  · cases hcheck

end ModelFinder.Prover
