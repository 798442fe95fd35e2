import ModelFinder.Proofs.Reduction.Comparison
import ModelFinder.Proofs.Trace.Learning

/-!
# Refused candidates

A candidate may be refused for two reasons: it is empty, or it reaches up to the terminal clause.
The first never happens, as the variables that are left in the core have clauses of their own
(`Strategy.exists_mem_axiomsFor`).  The second happens exactly if the terminal clause is learned
from the others (`Strategy.Scans.answer_eq_error_iff`).  Input clauses alone never have it: where
it is an input clause itself it is empty, and no empty clause is selected.  Without a bound it is
learned exactly if the whole core is selected for the others, so if the root that is dropped is
wanted by one of them.

* `Strategy.checkCandidate_eq_error_iff`: when a candidate is refused.
* `RootPool.exists_consume_iff`: which variables are left when the next root is dropped.
* `Trace.Wants.exists_larger`: a variable is wanted by a larger one of a clause.
-/

namespace ModelFinder

/-! ### The next root -/

/-- The next root that is dropped: the first one of the pool that the refutation depends on. -/
def RootPool.next? (pool : RootPool) (t : Trace) : Option Variable :=
  pool.remaining.find? fun v => t.coreUnits.contains v.index

theorem RootPool.next?_eq_some {pool : RootPool} {t : Trace} {skipped rest : List Variable}
    {r : Variable} (hpool : pool.remaining = skipped ++ r :: rest) (hr : r.index ∈ t.coreUnits)
    (hskipped : ∀ w ∈ skipped, w.index ∉ t.coreUnits) : pool.next? t = some r := by
  refine List.find?_eq_some_iff_append.mpr
    ⟨IndexSet.contains_eq_true.mpr hr, skipped, rest, hpool, fun w hw => ?_⟩
  rw [Bool.not_eq_true', ← Bool.not_eq_true, IndexSet.contains_eq_true]
  exact hskipped w hw

/-- What is left for a candidate is what the core asserts beside the next root. -/
theorem RootPool.exists_consume_iff {pool : RootPool} {t : Trace} {others : VariableSet} :
    (∃ rest, pool.consume t.coreUnits = (some others, rest)) ↔ ∃ r ∈ pool.next? t,
      (∃ n, n ∈ t.coreUnits.remove r.index) ∧ others = t.coreUnits.remove r.index := by
  constructor
  · rintro ⟨rest, h⟩
    obtain ⟨skipped, r, hpool, hr, hskipped, rfl, hothers⟩ := eq_append_of_consume h
    exact ⟨r, next?_eq_some hpool hr hskipped, hothers, rfl⟩
  · rintro ⟨r, hr, ⟨n, hn⟩, rfl⟩
    rcases consume_eq pool t.coreUnits with
      ⟨-, hspent⟩ | ⟨skipped, v, rest, hsome, hpool, hv, hskipped, -⟩
    · have hmem := List.mem_of_find?_eq_some hr
      have hcontains : t.coreUnits.contains r.index = true :=
        (List.find?_eq_some_iff_append.mp hr).1
      have hunit := IndexSet.contains_eq_true.mp hcontains
      rcases hspent with hall | ⟨v, -, honly⟩
      · exact absurd hunit (hall r hmem)
      · -- the root would be the only unit
        obtain ⟨hn, hne⟩ := IndexSet.mem_remove.mp hn
        exact absurd ((honly n hn).trans (honly _ hunit).symm) hne
    · obtain rfl := Option.some.inj ((next?_eq_some hpool hv hskipped).symm.trans hr)
      exact ⟨rest, hsome⟩

/-! ### What brings a variable back -/

/-- A variable that is not wanted from the start is wanted by a larger one of a clause. -/
theorem Trace.Wants.exists_larger {t : Trace} {seed : VariableSet} {n : Nat} (h : t.Wants seed n)
    (hn : n ∉ seed) : ∃ c ∈ t.inputs, ∃ v, c.clause.maxVariable? = some v ∧
      t.Wants seed v.index ∧ n ∈ c.variableNumbers ∧ n < v.index := by
  induction h with
  | seed mem => exact absurd mem hn
  | @clause v c n wanted given largest mem ih =>
      by_cases hv : v.index = n
      · subst hv
        exact ih hn
      · obtain ⟨l, hl, rfl⟩ := List.mem_map.mp mem
        have hle := (Clause.maxVariable?_eq_some largest).2 l hl
        exact ⟨c, given, v, largest, wanted, mem, Nat.lt_of_le_of_ne hle fun e => hv e.symm⟩

namespace Strategy

variable {t : Trace} {candidate : ClauseSet} {others : VariableSet} {distance : ResolutionDistance}
  {e : Violation}

/-! ### Candidates -/

/-- **When a candidate is refused**: if it has no clause, or one that is not before the terminal
clause. -/
theorem checkCandidate_eq_error_iff : checkCandidate t candidate = .error e ↔
    (∀ i, i ∉ candidate) ∧ e = .emptyCandidate ∨
      (∃ i ∈ candidate, t.terminal ≤ i) ∧ e = .terminalInCandidate t.terminal := by
  unfold checkCandidate
  by_cases hempty : candidate.isEmpty = true
  · rw [if_pos hempty, Except.error.injEq]
    have hnone : ∀ i, i ∉ candidate := fun i hi => IndexSet.not_isEmpty_iff.mpr ⟨i, hi⟩ hempty
    constructor
    · rintro rfl
      exact .inl ⟨hnone, rfl⟩
    · rintro (⟨-, rfl⟩ | ⟨⟨i, hi, -⟩, -⟩)
      · rfl
      · exact absurd hi (hnone i)
  · rw [if_neg hempty]
    obtain ⟨k, hk⟩ := IndexSet.not_isEmpty_iff.mp hempty
    have hlast : (candidate.last?.any fun i => decide (t.terminal ≤ i)) = true ↔
        ∃ i ∈ candidate, t.terminal ≤ i := by
      rw [Option.any_eq_true]
      constructor
      · rintro ⟨i, hi, hle⟩
        exact ⟨i, List.mem_of_getLast? hi, of_decide_eq_true hle⟩
      · rintro ⟨i, hi, hle⟩
        have hmem : candidate.toList ≠ [] := List.ne_nil_of_mem hi
        obtain ⟨j, hj⟩ := Option.isSome_iff_exists.mp (List.getLast?_isSome.mpr hmem)
        exact ⟨j, hj, decide_eq_true (Nat.le_trans hle (le_last hi hj))⟩
    split
    next h =>
      rw [Except.error.injEq]
      constructor
      · rintro rfl
        exact .inr ⟨hlast.mp h, rfl⟩
      · rintro (⟨hnone, -⟩ | ⟨-, rfl⟩)
        · exact absurd hk (hnone k)
        · rfl
    next h =>
      constructor
      · intro he
        cases he
      · rintro (⟨hnone, -⟩ | ⟨hge, -⟩)
        · exact absurd hk (hnone k)
        · exact absurd (hlast.mpr hge) h

theorem clausesFor_eq_error_iff : clausesFor distance t others = .error e ↔
    checkCandidate t (learned distance t (t.axiomsFor others)) = .error e := by
  rw [clausesFor_eq]
  cases checkCandidate t (learned distance t (t.axiomsFor others)) with
  | ok _ => exact iff_of_false nofun nofun
  | error e' =>
      show (.error e' : Except Violation ClauseSet) = .error e ↔ _
      rw [Except.error.injEq, Except.error.injEq]

/-- The terminal clause is never selected: if it is an input clause, it is an empty one. -/
theorem terminal_not_mem_axiomsFor (ht : t.WellFormed) (hends : t.EndsEmpty) :
    t.terminal ∉ t.axiomsFor others := by
  intro hmem
  obtain ⟨c, v, hc, hindex, hmax, -⟩ := Trace.mem_axiomsFor.mp hmem
  obtain ⟨i, -, hget⟩ := Trace.mem_inputs_iff.mp hc
  obtain ⟨d, hd, hempty⟩ := hends
  rw [← hindex, ht.get?_index hget] at hd
  obtain rfl := Option.some.inj hd
  rw [hempty] at hmax
  cases hmax

/-- **When the candidate of other variables is refused**: the terminal clause is learned from them.
That they have no clauses is no reason, because the core asserts each of them by one. -/
theorem clausesFor_others_eq_error_iff (ht : t.WellFormed) (hothers : ∃ n, n ∈ others)
    (hsub : ∀ n ∈ others, n ∈ t.coreUnits) : clausesFor distance t others = .error e ↔
      t.terminal ∈ learned distance t (t.axiomsFor others) ∧
        e = .terminalInCandidate t.terminal := by
  have hlearns := learns_learned ht distance (t.axiomsFor others)
  obtain ⟨n, hn⟩ := hothers
  obtain ⟨k, hk⟩ := exists_mem_axiomsFor ht hn hsub
  rw [clausesFor_eq_error_iff, checkCandidate_eq_error_iff,
    or_iff_right fun h => h.1 k (hlearns.subset k hk)]
  refine and_congr_left fun _ => ⟨fun ⟨i, hi, hle⟩ => ?_, fun h => ⟨_, h, Nat.le_refl _⟩⟩
  -- no clause comes after the terminal one
  have hlt : i < t.size := by
    rcases hlearns.derived i hi with hi | ⟨-, hi⟩
    · exact Nat.lt_of_lt_of_le (Trace.lt_of_mem_axiomsFor ht hi) ht.numAxioms_le
    · exact hi
  have hterminal : t.terminal = t.size - 1 := rfl
  obtain rfl : i = t.terminal := by omega
  exact hi

/-! ### Calls -/

/-- **When a call fails.**  The next root is dropped and others are left, and the terminal clause is
learned from their clauses. -/
theorem Scans.answer_eq_error_iff {strategy : Strategy RootPool} (h : strategy.Scans distance)
    (ht : t.WellFormed) {pool : RootPool} : (strategy.next t pool).answer = .error e ↔
      (∃ r ∈ pool.next? t, (∃ n, n ∈ t.coreUnits.remove r.index) ∧
        t.terminal ∈ learned distance t (t.axiomsFor (t.coreUnits.remove r.index))) ∧
      e = .terminalInCandidate t.terminal := by
  have hrefused : ∀ r : Variable, (∃ n, n ∈ t.coreUnits.remove r.index) →
      (clausesFor distance t (t.coreUnits.remove r.index) = .error e ↔
        t.terminal ∈ learned distance t (t.axiomsFor (t.coreUnits.remove r.index)) ∧
          e = .terminalInCandidate t.terminal) := fun r hothers =>
    clausesFor_others_eq_error_iff ht hothers fun n hn => (IndexSet.mem_remove.mp hn).1
  constructor
  · intro he
    rcases hconsume : pool.consume t.coreUnits with ⟨_ | others, rest⟩
    · rw [h.none hconsume] at he
      cases he
    · obtain ⟨r, hr, hothers, rfl⟩ := RootPool.exists_consume_iff.mp ⟨rest, hconsume⟩
      rw [(h.some hconsume).1, hrefused r hothers] at he
      exact ⟨⟨r, hr, hothers, he.1⟩, he.2⟩
  · rintro ⟨⟨r, hr, hothers, hterm⟩, he⟩
    obtain ⟨rest, hconsume⟩ := RootPool.exists_consume_iff.mpr ⟨r, hr, hothers, rfl⟩
    rw [(h.some hconsume).1]
    exact (hrefused r hothers).mpr ⟨hterm, he⟩

/-- The clause that brings a root back: it is selected for the others, and the root occurs in it
beside a larger variable. -/
theorem exists_larger_of_core (ht : t.WellFormed) {r : Variable} (hr : t.Asserts r)
    (hcore : ∀ i ∈ t.core, i ∈ t.axiomsFor (t.coreUnits.remove r.index)) :
    ∃ i ∈ t.axiomsFor (t.coreUnits.remove r.index), ∃ c, t.get? i = some c ∧
      r.index ∈ c.variableNumbers ∧ ∃ n ∈ c.variableNumbers, r.index < n := by
  obtain ⟨i, hi, d, hd, v, rfl, hv, hvr⟩ := exists_unit ht (Trace.asserts_iff.mp hr)
  obtain rfl : v = r := Variable.ext_index hvr
  have hwants : t.Wants (t.coreUnits.remove v.index) v.index :=
    (Trace.index_mem_axiomsFor ht hd hv).mp (hcore _ hi)
  obtain ⟨c, hc, w, hw, hwanted, hmem, hlt⟩ := hwants.exists_larger (by simp)
  obtain ⟨j, -, hj⟩ := Trace.mem_inputs_iff.mp hc
  obtain ⟨l, hl, rfl⟩ := (Clause.maxVariable?_eq_some hw).1
  exact ⟨c.index, (Trace.index_mem_axiomsFor ht hc hw).mpr hwanted, c, ht.get?_index hj, hmem, _,
    List.mem_map_of_mem hl, hlt⟩

/-- **When a strategy fails.**  The naive strategy never does.  The recycling one may only find that
a candidate has the terminal clause.  Without a bound on the distance it does exactly if there is a
next root to drop, other variables are left, and their clauses include the whole core.  Then one of
these clauses mentions the root beside a larger variable. -/
theorem next_fails_iff (ht : t.WellFormed) (hends : t.EndsEmpty) (pool : RootPool) :
    (∃ c, (naive.next t pool).answer = .ok c) ∧
    (∀ distance e, ((recycling distance).next t pool).answer = .error e →
      e = .terminalInCandidate t.terminal) ∧
    (((recycling .unbounded).next t pool).answer = .error (.terminalInCandidate t.terminal) ↔
      ∃ r ∈ pool.next? t, (∃ n, n ∈ t.coreUnits.remove r.index) ∧
        ∀ i ∈ t.core, i ∈ t.axiomsFor (t.coreUnits.remove r.index)) ∧
    ∀ r, t.Asserts r → (∀ i ∈ t.core, i ∈ t.axiomsFor (t.coreUnits.remove r.index)) →
      ∃ i ∈ t.axiomsFor (t.coreUnits.remove r.index), ∃ c, t.get? i = some c ∧
        r.index ∈ c.variableNumbers ∧ ∃ n ∈ c.variableNumbers, r.index < n := by
  refine ⟨?_, fun distance e he => ?_, ?_, fun r => exists_larger_of_core ht⟩
  · cases hanswer : (naive.next t pool).answer with
    | ok c => exact ⟨c, rfl⟩
    | error e =>
        obtain ⟨⟨r, -, -, hterm⟩, -⟩ := (scans_naive.answer_eq_error_iff ht).mp hanswer
        rw [learned_zero] at hterm
        exact absurd hterm (terminal_not_mem_axiomsFor ht hends)
  · exact (((scans_recycling distance).answer_eq_error_iff ht).mp he).2
  · rw [(scans_recycling .unbounded).answer_eq_error_iff ht, and_iff_left rfl]
    refine exists_congr fun r => and_congr_right fun _ => and_congr_right fun _ => ?_
    exact Trace.mem_learnable_terminal_iff ht hends fun i => Trace.lt_of_mem_axiomsFor ht

/-- The root 1 is brought back by a clause of the root 2. -/
def pulledBack : Trace :=
  let clause (codes : List Int) : Clause := .ofList (codes.filterMap Literal.ofDimacs?)
  ⟨#[⟨0, clause [1], []⟩, ⟨1, clause [2], []⟩, ⟨2, clause [-1, -2], []⟩, ⟨3, clause [-1], [1, 2]⟩,
    ⟨4, .empty, [0, 3]⟩], 3⟩

theorem wellFormed_pulledBack : pulledBack.WellFormed := by
  have hall : ∀ i c, pulledBack.get? i = some c → c.index = i ∧
      (c.antecedents = [] ↔ i < pulledBack.numAxioms) ∧ ∀ a ∈ c.antecedents, a < i := by
    intro i c hc
    have hi : i < 5 := Trace.get?_lt hc
    interval_cases i
    all_goals
      obtain rfl := Option.some.inj hc
      decide
  exact ⟨by decide, fun h => (hall _ _ h).1, fun h => (hall _ _ h).2.1, fun h => (hall _ _ h).2.2⟩

/-- Unbounded recycling fails when it drops the root 1: a clause of the root 2 mentions it beside a
larger variable, and so the whole core is selected.  Naive extraction proposes it. -/
theorem next_fails_iff_pulled_back :
    let pool : RootPool := .ofLog (logOf [1, 2])
    pulledBack.WellFormed ∧ pulledBack.EndsEmpty ∧
      ((recycling .unbounded).next pulledBack pool).answer = .error (.terminalInCandidate 4) ∧
      (∃ c, (naive.next pulledBack pool).answer = .ok c) ∧
      ∃ i ∈ pulledBack.axiomsFor (.ofList [2]), ∃ c, pulledBack.get? i = some c ∧
        1 ∈ c.variableNumbers ∧ ∃ n ∈ c.variableNumbers, 1 < n := by
  intro pool
  have hends : pulledBack.EndsEmpty := ⟨_, rfl, rfl⟩
  obtain ⟨hnaive, -, hrecycling, hlarger⟩ := next_fails_iff wellFormed_pulledBack hends pool
  have hothers : pulledBack.coreUnits.remove 1 = .ofList [2] := by decide
  have hselected : pulledBack.axiomsFor (.ofList [2]) = .ofList [0, 1, 2] := by cbv
  have hcore : ∀ i ∈ pulledBack.core, i ∈ pulledBack.axiomsFor (pulledBack.coreUnits.remove 1) := by
    rw [hothers, hselected]
    decide
  refine ⟨wellFormed_pulledBack, hends, hrecycling.mpr ?_, hnaive, ?_⟩
  · exact ⟨⟨1, by decide, by decide⟩, by decide, ⟨2, by decide⟩, hcore⟩
  have hasserts : pulledBack.Asserts ⟨1, by decide, by decide⟩ :=
    Trace.asserts_iff.mpr (by decide)
  simpa only [hothers] using hlarger ⟨1, by decide, by decide⟩ hasserts hcore

end Strategy

end ModelFinder
