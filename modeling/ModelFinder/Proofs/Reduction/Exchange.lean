import ModelFinder.Proofs.Prover.Exchange
import ModelFinder.Proofs.Reduction.Candidate
import ModelFinder.Proofs.Reduction.Soundness

/-!
# What a reduction leaves can be exchanged

A candidate ends before the terminal clause, and as long as that is the only empty clause, no clause
of the candidate is empty.  So its refutation has no other empty clause either, and what is spliced
has the clauses of this refutation (`exchangeable_of_splice`).  A trace whose last input clause is
empty depends on no other clause, and therefore asserts no root that could be dropped
(`not_mem_coreUnits_of_input`).

With that, every trace that was imported, found by the prover or left by a reduction
(`Trace.Obtained`) is imported as it was exported: `Obtained.readAll_ofSteps`.
-/

namespace ModelFinder

namespace Trace

variable {t t' reduced : Trace} {subset : ClauseSet} {cs : List TraceClause}

/-! ### Splicing -/

/-- Traces with the same clauses have their empty clauses at the same places. -/
theorem eq_terminal_of_clauseList_eq (hclauses : t'.clauseList = t.clauseList)
    (honly : ∀ ⦃i c⦄, t.get? i = some c → c.clause = .empty → i = t.terminal) :
    ∀ ⦃i c⦄, t'.get? i = some c → c.clause = .empty → i = t'.terminal := by
  intro i c hc hempty
  have hget : t.clauseList[i]? = some .empty := by
    rw [← hclauses, getElem?_clauseList, hc, ← hempty]
    rfl
  rw [getElem?_clauseList] at hget
  obtain ⟨d, hd, hde⟩ := Option.map_eq_some_iff.mp hget
  have hsize : t'.size = t.size := by rw [← length_clauseList, hclauses, length_clauseList]
  rw [honly hd hde, terminal, terminal, hsize]

/-- A refutation without an empty clause but its last one is spliced into another. -/
theorem exchangeable_of_splice (ht : t.WellFormed) (hinputs : ∀ c ∈ t.inputs, c.clause ≠ .empty)
    (h : t.Members subset cs) (hr : reduced.WellFormed)
    (honly : ∀ ⦃i c⦄, reduced.get? i = some c → c.clause = .empty → i = reduced.terminal)
    (hsplice : t.splice subset reduced = .ok t') : t'.Exchangeable := by
  obtain ⟨hwf, -, hends, hclauses, hins⟩ :=
    of_splice_eq_ok ht ht.justifiedBy h hr hr.justifiedBy hsplice
  refine exchangeable_of_eq_terminal hwf hends (fun c hc => ?_)
    (eq_terminal_of_clauseList_eq hclauses honly)
  have hmem := List.mem_map_of_mem (f := (·.clause)) hc
  rw [hins] at hmem
  obtain ⟨d, hd, he⟩ := List.mem_map.mp hmem
  exact he ▸ hinputs d (List.mem_filter.mp hd).1

/-- A trace that depends on an empty input clause alone asserts no variable. -/
theorem not_mem_coreUnits_of_input (ht : t.WellFormed) (hinputs : OnlyLastEmpty t.inputs)
    (hderived : t.derived = [⟨t.numAxioms, .empty, [t.numAxioms - 1]⟩]) (n : Nat) :
    n ∉ t.coreUnits := by
  obtain ⟨ds, c, hds, hc, -⟩ := hinputs
  have hlength := length_inputs ht
  rw [hds, List.length_append, List.length_singleton] at hlength
  have hget : t.get? ds.length = some c := by
    have hlisted : t.Listed 0 (ds ++ [c]) := hds ▸ listed_inputs t
    rw [← Nat.zero_add ds.length]
    exact hlisted.get?_last
  have hindex : c.index = t.numAxioms - 1 := by
    rw [ht.index_eq hget]
    omega
  have hterminal : t.get? t.terminal = some ⟨t.numAxioms, .empty, [t.numAxioms - 1]⟩ := by
    have hderived' : t.derived = [] ++ [_] := hderived
    have hlisted := hderived' ▸ listed_derived t
    rw [terminal_eq_of_derived ht hderived']
    exact hlisted.get?_last
  have hcore := Prover.eq_of_mem_core ht (ht.get?_index hget) (by omega) hterminal (by rw [hindex])
  intro hn
  obtain ⟨i, hi, d, v, hd, hsize, -, -⟩ := mem_coreUnits.mp hn
  rw [hcore i hi, ht.get?_index hget] at hd
  obtain rfl := Option.some.inj hd
  rw [hc] at hsize
  exact absurd hsize (by decide)

end Trace

/-! ### Candidates -/

namespace Strategy

open Session

variable {κ : Type} {t : Trace} {candidate : ClauseSet}

theorem le_last {i j : Nat} (hi : i ∈ candidate) (hj : candidate.last? = some j) : i ≤ j := by
  obtain ⟨is, hlist⟩ := List.getLast?_eq_some_iff.mp hj
  have hincreasing := candidate.increasing
  rw [hlist, List.pairwise_append] at hincreasing
  rw [← IndexSet.mem_toList, hlist, List.mem_append, List.mem_singleton] at hi
  obtain hi | rfl := hi
  · exact Nat.le_of_lt (hincreasing.2.2 i hi j (List.mem_singleton_self j))
  · exact Nat.le_refl i

theorem lt_terminal_of_checkCandidate (h : checkCandidate t candidate = .ok ()) :
    ∀ i ∈ candidate, i < t.terminal := by
  intro i hi
  unfold checkCandidate at h
  split at h
  next => cases h
  next =>
    split at h
    next => cases h
    next hlast =>
      rw [Option.any_eq_true, not_exists] at hlast
      have hmem : candidate.toList ≠ [] := List.ne_nil_of_mem hi
      obtain ⟨j, hj⟩ := Option.isSome_iff_exists.mp (List.getLast?_isSome.mpr hmem)
      have hle := le_last hi hj
      have hlt : ¬ t.terminal ≤ j := fun hge => hlast j ⟨hj, decide_eq_true hge⟩
      omega

/-- The strategy proposes nothing if there is no root to drop, and nothing that reaches up to the
terminal clause. -/
def StaysBelow (strategy : Strategy κ) : Prop :=
  ∀ (t : Trace) (k : κ), (strategy.next t).Ends k
    (fun c _ => (∃ i, i ∈ c) → (∃ n, n ∈ t.coreUnits) ∧ ∀ i ∈ c, i < t.terminal) fun _ _ => True

theorem Scans.staysBelow {strategy : Strategy RootPool} {distance : ResolutionDistance}
    (h : strategy.Scans distance) : strategy.StaysBelow := by
  intro t pool
  refine h.ends_next (fun _ ⟨_, hi⟩ => absurd hi IndexSet.not_mem_empty) fun v rest hnext _ => ?_
  refine ⟨fun c hc _ => ⟨⟨_, hnext.present⟩, ?_⟩, fun _ _ => trivial⟩
  exact lt_terminal_of_checkCandidate (clausesFor_eq_ok.mp hc).1

/-- What is proposed ends before the terminal clause. -/
theorem StaysBelow.lt_terminal {strategy : Strategy κ} (h : strategy.StaysBelow) {k k' : κ}
    (hnext : (strategy.next t).Answers k candidate k') : ∀ i ∈ candidate, i < t.terminal :=
  fun i hi => (hnext.ends_iff.mp (h t k) ⟨i, hi⟩).2 i hi

end Strategy

/-! ### Reductions -/

namespace Reduction

open Session

variable {κ σ : Type} [StopCondition σ] {s : State κ Prover.Counters σ} {t : Trace}

/-- Re-solving a candidate that stays below the terminal clause. -/
theorem ends_attempt_exchangeable (ht : t.Exchangeable) {candidate : ClauseSet} (k : Counters)
    (hroot : ∃ n, n ∈ t.coreUnits) (hlt : ∀ i ∈ candidate, i < t.terminal) :
    (attempt Prover.backend t candidate k : Run κ Prover.Counters σ (Trace × Counters)).Ends s
      (fun r _ => r.1.Exchangeable) fun _ _ => True := by
  cases ht with
  | input hwf hinputs hderived =>
      obtain ⟨n, hn⟩ := hroot
      exact absurd hn (Trace.not_mem_coreUnits_of_input hwf hinputs hderived n)
  | derived hwf hinputs hderived =>
      unfold attempt
      rw [ends_bind]
      refine ends_expecting_of_forall fun cnf hcnf => ?_
      obtain ⟨cs, hcs, rfl⟩ := Trace.exists_members_of_toCnf hwf hcnf
      have hno := hcs.not_mem_literals fun i hi c hc hempty => by
        have hterminal := Trace.eq_terminal_of_onlyLastEmpty hwf hinputs hderived hc hempty
        exact Nat.ne_of_lt (hlt i hi) hterminal
      rw [ends_bind]
      unfold resolve
      rw [ends_within, ends_mapNotes]
      refine (Prover.ends_solve _ s.backend s.stop).mono (fun o _ ⟨ho, _⟩ => ?_) fun _ _ _ => trivial
      cases o with
      | satisfiable => exact .derived hwf hinputs hderived
      | unsatisfiable reduced =>
          have href : Prover.Refutes (cs.map (·.clause.literals)) reduced := ho
          simp only
          rw [ends_bind]
          refine ends_expecting_of_forall fun t' hsplice => ?_
          exact Trace.exchangeable_of_splice hwf hinputs hcs href.wellFormed (href.eq_terminal hno)
            hsplice

theorem ends_rounds_exchangeable {strategy : Strategy κ} (hstrategy : strategy.StaysBelow) (n : Nat)
    (k : Counters) (ht : t.Exchangeable) :
    (rounds strategy Prover.backend n t k).Ends s (fun r _ => r.1.Exchangeable)
      fun _ _ => True := by
  induction n generalizing t s k with
  | zero => exact trivial
  | succ n ih =>
      rw [ends_rounds_succ]
      unfold propose
      rw [ends_within, ends_mapFailure, ends_mapNotes]
      refine (hstrategy t s.strategy).mono (fun c _ hc => ?_) fun _ _ he => he
      split
      next => exact ht
      next hne =>
        obtain ⟨hroot, hlt⟩ := hc (IndexSet.not_isEmpty_iff.mp hne)
        refine (ends_stopping _).mono (fun _ s₂ _ => ?_) fun _ _ he => he
        exact (ends_attempt_exchangeable ht k hroot hlt).mono (fun r _ ht' => ih r.2 ht')
          fun _ _ he => he

/-- **Reductions leave traces that can be exchanged.** -/
theorem exchangeable_of_minimiseCore {strategy : Strategy κ} (hstrategy : strategy.StaysBelow)
    (ht : t.Exchangeable) {t' : Trace}
    (h : ((minimiseCore strategy Prover.backend t).run s).answer = .ok t') : t'.Exchangeable := by
  have hends : (minimiseCore strategy Prover.backend t).Ends s (fun t' _ => t'.Exchangeable)
      fun _ _ => True :=
    ends_minimiseCore_of_rounds (ends_rounds_exchangeable hstrategy _ {} ht)
  exact hends.of_answer h

end Reduction

/-! ### All traces -/

namespace Trace

open Reduction

/-- The traces that there are to export: those that were imported, the refutations of the prover,
and what a strategy that drops roots leaves of any of them. -/
inductive Obtained : Trace → Prop
  | imported {t : Trace} {steps : List TraceCheck.Step} (h : ofSteps steps = .ok t) : Obtained t
  | refuted {σ : Type} [StopCondition σ] {t : Trace} {cnf : Cnf} {k : Prover.Counters} {stop : σ}
      (h : ((Prover.solve cnf).run (k, stop)).answer = .ok (.unsatisfiable t)) : Obtained t
  | recycled {σ : Type} [StopCondition σ] {t t' : Trace} {distance : ResolutionDistance}
      {s : State RootPool Prover.Counters σ} (ht : Obtained t)
      (h : ((minimiseCore (.recycling distance) Prover.backend t).run s).answer = .ok t') :
      Obtained t'
  | reduced {σ : Type} [StopCondition σ] {t t' : Trace} {s : State RootPool Prover.Counters σ}
      (ht : Obtained t) (h : ((minimiseCore .naive Prover.backend t).run s).answer = .ok t') :
      Obtained t'

theorem Obtained.exchangeable {t : Trace} (h : t.Obtained) : t.Exchangeable := by
  induction h with
  | imported h => exact exchangeable_of_ofSteps h
  | refuted h => exact Prover.exchangeable_of_solve h
  | recycled _ h ih =>
      exact exchangeable_of_minimiseCore (Strategy.scans_recycling _).staysBelow ih h
  | reduced _ h ih => exact exchangeable_of_minimiseCore Strategy.scans_naive.staysBelow ih h

end Trace

end ModelFinder
