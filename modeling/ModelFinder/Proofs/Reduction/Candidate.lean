import ModelFinder.Proofs.Attempts
import ModelFinder.Proofs.Session
import ModelFinder.Proofs.Trace.Selection
import ModelFinder.Reduction.Strategy

/-!
# Candidates

Both strategies try one root after the other (`Strategy.Scans`): either there is no candidate left,
or one of the roots that the refutation depends on is dropped, and what can be learned from the
encoding of all other variables which the core asserts is proposed, or refused (`Scans.ends_next`).

In a well-formed refutation in which roots are the largest variables of their clauses, a candidate
is not empty and ends before the terminal clause, so that none is ever refused
(`Strategy.Proposal`).

* `RootPool.consume_eq`, `RootPool.eq_append_of_consume`: what is taken from the pool; its cursor
  only moves on.
* `Strategy.mem_candidate_lt_terminal`: the terminal clause can not be learned without the root that
  is dropped, because nothing else wants its variable.
* `Strategy.Scans.triesRoots`: both strategies propose so, and can not fail.
-/

namespace ModelFinder

open Trace (Learns LargestOnly)

/-! ### The pool -/

namespace RootPool

/-- No variable of the list is relevant, or only one of them is and nothing else. -/
def Spent (vs : List Variable) (relevant : VariableSet) : Prop :=
  (∀ v ∈ vs, v.index ∉ relevant) ∨ ∃ v ∈ vs, ∀ n ∈ relevant, n = v.index

/-- The variable `v` is the first relevant one of the list, and `rest` comes after it. -/
structure Next (vs : List Variable) (relevant : VariableSet) (v : Variable)
    (rest : List Variable) : Prop where
  mem : v ∈ vs
  present : v.index ∈ relevant
  rest_subset : ∀ w ∈ rest, w ∈ vs
  eq_or_mem : ∀ w ∈ vs, w.index ∈ relevant → w = v ∨ w ∈ rest
  length_lt : rest.length < vs.length

theorem Next.of_append {vs skipped rest : List Variable} {v : Variable} {relevant : VariableSet}
    (hvs : vs = skipped ++ v :: rest) (hv : v.index ∈ relevant)
    (hskipped : ∀ w ∈ skipped, w.index ∉ relevant) : Next vs relevant v rest := by
  subst hvs
  refine ⟨by simp, hv, fun w hw => by simp [hw], fun w hw hrelevant => ?_, ?_⟩
  · rcases List.mem_append.mp hw with hw | hw
    · exact absurd hrelevant (hskipped w hw)
    · exact List.mem_cons.mp hw
  · rw [List.length_append, List.length_cons]
    omega

theorem remove_eq_self {s : VariableSet} {n : Nat} (h : n ∉ s) : s.remove n = s :=
  IndexSet.ext_mem fun k => by
    rw [IndexSet.mem_remove]
    exact ⟨And.left, fun hk => ⟨hk, fun e => h (e ▸ hk)⟩⟩

section Consume

variable {pool : RootPool} {relevant : VariableSet}

theorem consume_of_le (h : ¬ pool.cursor < pool.roots.length) :
    pool.consume relevant = (none, pool.spent) := by
  rw [consume, dif_neg h]

/-- A relevant variable is taken, unless it is the only one. -/
theorem consume_of_mem (h : pool.cursor < pool.roots.length)
    (hv : pool.roots[pool.cursor].index ∈ relevant) : pool.consume relevant =
      if (relevant.remove pool.roots[pool.cursor].index).isEmpty then (none, pool.spent)
      else (some (relevant.remove pool.roots[pool.cursor].index), pool.skip h) := by
  rw [consume, dif_pos h, IndexSet.removePresent, IndexSet.contains_eq_true.mpr hv]

theorem consume_of_not_mem (h : pool.cursor < pool.roots.length)
    (hv : pool.roots[pool.cursor].index ∉ relevant) :
    pool.consume relevant = (pool.skip h).consume relevant := by
  have hcontains : relevant.contains pool.roots[pool.cursor].index = false := by
    rw [← Bool.not_eq_true, IndexSet.contains_eq_true]
    exact hv
  rw [consume, dif_pos h, IndexSet.removePresent, hcontains, remove_eq_self hv]

/-- **What is taken from the pool**: nothing if it is spent, and otherwise the first relevant
variable of those that remain. -/
theorem consume_eq (pool : RootPool) (relevant : VariableSet) :
    (pool.consume relevant = (none, pool.spent) ∧ Spent pool.remaining relevant) ∨
      ∃ skipped v rest, pool.consume relevant = (some (relevant.remove v.index), rest) ∧
        pool.remaining = skipped ++ v :: rest.remaining ∧ v.index ∈ relevant ∧
        (∀ w ∈ skipped, w.index ∉ relevant) ∧ ∃ n, n ∈ relevant.remove v.index := by
  induction hvs : pool.remaining generalizing pool with
  | nil =>
      refine .inl ⟨consume_of_le ?_, .inl fun v hv => absurd hv List.not_mem_nil⟩
      exact Nat.not_lt.mpr (List.drop_eq_nil_iff.mp hvs)
  | cons v vs ih =>
      have h : pool.cursor < pool.roots.length := by
        refine Nat.lt_of_not_le fun hle => List.cons_ne_nil v vs ?_
        rw [← hvs, remaining, List.drop_eq_nil_iff.mpr hle]
      obtain ⟨rfl, rfl⟩ := List.cons.inj (hvs.symm.trans (remaining_eq_cons h))
      by_cases hv : pool.roots[pool.cursor].index ∈ relevant
      · rw [consume_of_mem h hv]
        -- a root is not dropped if it is the only one that the refutation depends on
        by_cases hempty : (relevant.remove pool.roots[pool.cursor].index).isEmpty = true
        · refine .inl ⟨if_pos hempty, .inr ⟨_, List.mem_cons_self, fun n hn => ?_⟩⟩
          refine Decidable.byContradiction fun hne => ?_
          exact IndexSet.not_isEmpty_iff.mpr ⟨n, IndexSet.mem_remove.mpr ⟨hn, hne⟩⟩ hempty
        · exact .inr ⟨[], _, _, if_neg hempty, rfl, hv, fun w hw => absurd hw List.not_mem_nil,
            IndexSet.not_isEmpty_iff.mp hempty⟩
      · rw [consume_of_not_mem h hv]
        rcases ih (pool.skip h) rfl with
          ⟨hnone, hspent⟩ | ⟨skipped, w, rest, hsome, hrest, hw, hskipped, hothers⟩
        · refine .inl ⟨hnone, hspent.imp ?_ ?_⟩
          · exact fun hall => List.forall_mem_cons.mpr ⟨hv, hall⟩
          · rintro ⟨w, hw, hall⟩
            exact ⟨w, List.mem_cons_of_mem _ hw, hall⟩
        · exact .inr ⟨_ :: skipped, w, rest, hsome, congrArg (List.cons _) hrest, hw,
            List.forall_mem_cons.mpr ⟨hv, hskipped⟩, hothers⟩

theorem eq_spent_of_consume {rest : RootPool} (h : pool.consume relevant = (none, rest)) :
    rest = pool.spent := by
  rcases consume_eq pool relevant with ⟨hnone, -⟩ | ⟨skipped, v, rest, hsome, -⟩
  · rw [hnone] at h; cases h; rfl
  · rw [hsome] at h; cases h

/-- What is left after a variable was taken is what comes after it; those before it are not
relevant.  The others are relevant as it is. -/
theorem eq_append_of_consume {others : VariableSet} {rest : RootPool}
    (h : pool.consume relevant = (some others, rest)) :
    ∃ skipped v, pool.remaining = skipped ++ v :: rest.remaining ∧ v.index ∈ relevant ∧
      (∀ w ∈ skipped, w.index ∉ relevant) ∧ others = relevant.remove v.index ∧
      ∃ n, n ∈ others := by
  rcases consume_eq pool relevant with
    ⟨hnone, -⟩ | ⟨skipped, v, rest, hsome, hrest, hv, hskipped, hothers⟩
  · rw [hnone] at h; cases h
  · rw [hsome] at h
    cases h
    exact ⟨skipped, v, hrest, hv, hskipped, rfl, hothers⟩

end Consume

end RootPool

/-! ### Candidates -/

namespace Strategy

variable {t : Trace}

theorem checkCandidate_eq_ok {candidate : ClauseSet} (hne : ∃ i, i ∈ candidate)
    (hlt : ∀ i ∈ candidate, i < t.terminal) : checkCandidate t candidate = .ok () := by
  unfold checkCandidate
  rw [if_neg (IndexSet.not_isEmpty_iff.mpr hne), if_neg]
  intro h
  rw [Option.any_eq_true] at h
  obtain ⟨j, hj, hle⟩ := h
  exact absurd (hlt j (List.mem_of_getLast? hj)) (Nat.not_lt.mpr (of_decide_eq_true hle))

theorem learns_learnWithin (ht : t.WellFormed) (n : Nat) (s : ClauseSet) :
    t.Learns s (learnWithin t n s) := by
  induction n generalizing s with
  | zero => exact .refl s
  | succ n ih =>
      unfold learnWithin
      by_cases h : (t.directlyLearnable s).size = s.size
      · rw [if_pos h]
        exact .refl s
      · rw [if_neg h]
        exact (Trace.learns_directlyLearnable ht s).trans (ih _)

/-- What the recycling strategy learns from the input clauses of the relevant roots. -/
def learned (distance : ResolutionDistance) (t : Trace) (inputs : ClauseSet) : ClauseSet :=
  match distance with
  | .bounded d => if d < t.numResolvents then learnWithin t d inputs else t.learnable inputs
  | .unbounded => t.learnable inputs

theorem learns_learned (ht : t.WellFormed) (distance : ResolutionDistance) (s : ClauseSet) :
    t.Learns s (learned distance t s) := by
  unfold learned
  cases distance with
  | bounded d =>
      by_cases h : d < t.numResolvents
      · simp only [h, if_true]
        exact learns_learnWithin ht d s
      · simp only [h, if_false]
        exact Trace.learns_learnable ht s
  | unbounded => exact Trace.learns_learnable ht s

/-- The unit clause that a core asserts. -/
theorem exists_unit (ht : t.WellFormed) {n : Nat} (hn : n ∈ t.coreUnits) :
    ∃ i ∈ t.core, ∃ c ∈ t.inputs, ∃ v, c.index = i ∧ c.clause.maxVariable? = some v ∧
      v.index = n := by
  obtain ⟨i, hi, c, v, hget, -, hmax, hv⟩ := Trace.mem_coreUnits.mp hn
  have hmem := Trace.mem_inputs_iff.mpr ⟨i, (Trace.mem_core.mp hi).2, hget⟩
  exact ⟨i, hi, c, hmem, v, ht.index_eq hget, hmax, hv⟩

/-- The encoding of other variables that the core asserts has a clause. -/
theorem exists_mem_axiomsFor (ht : t.WellFormed) {others : VariableSet} {n : Nat} (hn : n ∈ others)
    (hsub : ∀ k ∈ others, k ∈ t.coreUnits) : ∃ i, i ∈ t.axiomsFor others := by
  obtain ⟨i, -, c, hc, v, hi, hmax, rfl⟩ := exists_unit ht (hsub n hn)
  exact ⟨i, Trace.mem_axiomsFor.mpr ⟨c, v, hc, hi, hmax, .seed hn⟩⟩

/-- The input clauses of a candidate mention no roots but those it is made from: no input clause is
learned, and nothing wants a root. -/
theorem mem_of_learns (ht : t.WellFormed) {seed : VariableSet} {candidate : ClauseSet}
    (h : t.Learns (t.axiomsFor seed) candidate) {c : TraceClause} (hc : c ∈ t.inputs)
    (hmem : c.index ∈ candidate) {n : Nat} (hlargest : t.LargestOnly n)
    (hn : n ∈ c.variableNumbers) : n ∈ seed := by
  obtain ⟨i, hi, hget⟩ := Trace.mem_inputs_iff.mp hc
  have haxioms : c.index ∈ t.axiomsFor seed :=
    (h.derived _ hmem).resolve_right fun hle => by
      rw [ht.index_eq hget] at hle
      exact absurd hi (Nat.not_lt.mpr hle.1)
  obtain ⟨v, hmax, rfl⟩ := hlargest c hc hn
  exact (Trace.wants_iff_of_largestOnly hlargest).mp
    ((Trace.index_mem_axiomsFor ht hc hmax).mp haxioms)

/-- **Nothing can be refuted without a root on which the refutation depends**: its unit clause is in
the core, and no other variable wants it. -/
theorem mem_candidate_lt_terminal (ht : t.WellFormed) {others : VariableSet} {n : Nat}
    {candidate : ClauseSet} (hn : n ∈ t.coreUnits) (hothers : n ∉ others)
    (hlargest : t.LargestOnly n) (h : t.Learns (t.axiomsFor others) candidate) :
    ∀ i ∈ candidate, i < t.terminal := by
  have hterminal : t.terminal ∉ candidate := fun hterm => by
    obtain ⟨i, hi, c, hc, v, rfl, hmax, rfl⟩ := exists_unit ht hn
    have haxioms : ∀ i ∈ t.axiomsFor others, i < t.numAxioms := fun i hi =>
      Trace.lt_of_mem_axiomsFor ht hi
    have hmem := h.mem_of_mem_core ht haxioms hterm _ hi
    have hwants := (Trace.index_mem_axiomsFor ht hc hmax).mp hmem
    exact hothers ((Trace.wants_iff_of_largestOnly hlargest).mp hwants)
  intro i hi
  have hlt : i < t.size := by
    rcases h.derived i hi with hi | ⟨-, hi⟩
    · exact Nat.lt_of_lt_of_le (Trace.lt_of_mem_axiomsFor ht hi) ht.numAxioms_le
    · exact hi
  have hne : i ≠ t.terminal := fun e => hterminal (e ▸ hi)
  have hterm : t.terminal = t.size - 1 := rfl
  omega

/-! ### One root after the other -/

section Calls

variable {candidate : Trace → VariableSet → Session Remark Violation RootPool ClauseSet}
  {pool rest : RootPool} {others : VariableSet}

theorem nextRoot_of_none (h : pool.consume t.coreUnits = (none, rest)) :
    nextRoot candidate t pool = ⟨.ok ∅, pool.spent, []⟩ := by
  show (if pool.isExhausted then pure ∅ else _ : Session Remark Violation RootPool ClauseSet)
    pool = _
  by_cases hexhausted : pool.isExhausted = true
  · rw [if_pos hexhausted, RootPool.spent_eq_self (RootPool.isExhausted_iff.mp hexhausted)]
    rfl
  · obtain rfl := RootPool.eq_spent_of_consume h
    rw [if_neg hexhausted]
    simp only [h]
    rfl

theorem nextRoot_of_some (h : pool.consume t.coreUnits = (some others, rest)) :
    nextRoot candidate t pool = candidate t others rest := by
  have hne : ¬ pool.isExhausted = true := fun hexhausted => by
    rw [RootPool.consume_of_le (Nat.not_lt.mpr (of_decide_eq_true hexhausted))] at h
    cases h
  show (if pool.isExhausted then pure ∅ else _ : Session Remark Violation RootPool ClauseSet)
    pool = _
  rw [if_neg hne]
  simp only [h]
  rfl

end Calls

theorem clausesFor_eq (distance : ResolutionDistance) (t : Trace) (relevant : VariableSet) :
    clausesFor distance t relevant =
      (checkCandidate t (learned distance t (t.axiomsFor relevant)) >>= fun _ =>
        .ok (learned distance t (t.axiomsFor relevant))) := rfl

theorem clausesFor_eq_ok {distance : ResolutionDistance} {relevant : VariableSet} {c : ClauseSet} :
    clausesFor distance t relevant = .ok c ↔
      checkCandidate t c = .ok () ∧ c = learned distance t (t.axiomsFor relevant) := by
  constructor
  · intro h
    obtain ⟨⟨⟩, hcheck, hc⟩ := bind_eq_ok.mp h
    cases hc
    exact ⟨hcheck, rfl⟩
  · rintro ⟨hcheck, rfl⟩
    exact bind_eq_ok.mpr ⟨(), hcheck, rfl⟩

/-- Nothing is learned without a step of resolution. -/
theorem learned_zero (t : Trace) (inputs : ClauseSet) : learned (.bounded 0) t inputs = inputs := by
  show (if 0 < t.numResolvents then learnWithin t 0 inputs else t.learnable inputs) = inputs
  split
  next => rfl
  next hnone =>
    have hderived : t.derived = [] := by
      refine List.drop_eq_nil_iff.mpr ?_
      rw [Array.length_toList]
      exact Nat.sub_eq_zero_iff_le.mp (Nat.eq_zero_of_not_pos hnone)
    rw [Trace.learnable, hderived]
    rfl

/-- The strategy takes the next root from its pool and proposes what can be learned from the others
within a distance; it has no candidate once the pool is spent. -/
structure Scans (strategy : Strategy RootPool) (distance : ResolutionDistance) : Prop where
  remaining : ∀ pool, strategy.remaining pool = pool.remaining.length
  none : ∀ {t pool rest}, pool.consume t.coreUnits = (none, rest) →
    strategy.next t pool = ⟨.ok ∅, pool.spent, []⟩
  some : ∀ {t pool others rest}, pool.consume t.coreUnits = (some others, rest) →
    (strategy.next t pool).answer = clausesFor distance t others ∧
      (strategy.next t pool).state = rest

theorem scans_recycling (distance : ResolutionDistance) : (recycling distance).Scans distance where
  remaining _ := rfl
  none h := by unfold recycling; dsimp only; exact nextRoot_of_none h
  some {t pool others rest} h := by
    unfold recycling
    simp only [nextRoot_of_some h]
    show (Outcome.andThen ⟨clausesFor distance t others, rest, []⟩ _).answer = _ ∧ _
    cases clausesFor distance t others with
    | ok c => exact ⟨rfl, rfl⟩
    | error e => exact ⟨rfl, rfl⟩

theorem scans_naive : naive.Scans (.bounded 0) where
  remaining _ := rfl
  none h := by unfold naive; dsimp only; exact nextRoot_of_none h
  some {t pool others rest} h := by
    unfold naive
    simp only [nextRoot_of_some h]
    rw [clausesFor_eq, learned_zero]
    show (Outcome.andThen ⟨checkCandidate t (t.axiomsFor others), rest, []⟩ _).answer = _ ∧ _
    cases checkCandidate t (t.axiomsFor others) with
    | ok c => exact ⟨rfl, rfl⟩
    | error e => exact ⟨rfl, rfl⟩

open Session in
/-- **One call**: either there is no root to drop, or the next one is dropped and what can be learned
from the others is proposed, or refused. -/
theorem Scans.ends_next {strategy : Strategy RootPool} {distance : ResolutionDistance}
    (h : strategy.Scans distance) {pool : RootPool} {Q : ClauseSet → RootPool → Prop}
    {E : Violation → RootPool → Prop}
    (hnone : RootPool.Spent pool.remaining t.coreUnits → Q ∅ pool.spent)
    (hsome : ∀ v rest, RootPool.Next pool.remaining t.coreUnits v rest.remaining →
      (∃ n, n ∈ t.coreUnits.remove v.index) →
        (∀ c, clausesFor distance t (t.coreUnits.remove v.index) = .ok c → Q c rest) ∧
          ∀ e, clausesFor distance t (t.coreUnits.remove v.index) = .error e → E e rest) :
    (strategy.next t).Ends pool Q E := by
  unfold Ends
  rcases RootPool.consume_eq pool t.coreUnits with
    ⟨hconsume, hspent⟩ | ⟨skipped, v, rest, hconsume, hrest, hv, hskipped, hothers⟩
  · rw [h.none hconsume]
    exact hnone hspent
  · obtain ⟨hanswer, hstate⟩ := h.some hconsume
    obtain ⟨hok, herror⟩ := hsome v rest (.of_append hrest hv hskipped) hothers
    rw [hanswer, hstate]
    split
    next c hc => exact hok c hc
    next e he => exact herror e he

/-! ### Proposals -/

/-- What a strategy proposes for a refutation, and what it leaves in the pool. -/
inductive Proposal (t : Trace) (vs : List Variable) : ClauseSet → List Variable → Prop
  | none {rest : List Variable} (spent : RootPool.Spent vs t.coreUnits) : Proposal t vs ∅ rest
  | dropping {v : Variable} {rest : List Variable} {candidate : ClauseSet}
      (next : RootPool.Next vs t.coreUnits v rest) (nonempty : ∃ i, i ∈ candidate)
      (learns : t.Learns (t.axiomsFor (t.coreUnits.remove v.index)) candidate)
      (lt_terminal : ∀ i ∈ candidate, i < t.terminal) : Proposal t vs candidate rest

/-- A strategy that drops one root after the other and can not fail. -/
def TriesRoots (strategy : Strategy RootPool) : Prop :=
  (∀ pool, strategy.remaining pool = pool.remaining.length) ∧
    ∀ (t : Trace) (pool : RootPool), t.WellFormed →
      (∀ v ∈ pool.remaining, t.LargestOnly v.index) →
      (strategy.next t).Ends pool
        (fun c pool' => Proposal t pool.remaining c pool'.remaining) fun _ _ => False

/-- No candidate is refused: without the root that is dropped the terminal clause is not learned. -/
theorem Scans.triesRoots {strategy : Strategy RootPool} {distance : ResolutionDistance}
    (h : strategy.Scans distance) : strategy.TriesRoots := by
  refine ⟨h.remaining, fun t pool ht hlargest => ?_⟩
  refine h.ends_next (fun hspent => .none hspent) fun v rest hnext hothers => ?_
  have hlearns := learns_learned ht distance (t.axiomsFor (t.coreUnits.remove v.index))
  have hlt := mem_candidate_lt_terminal ht hnext.present (by simp) (hlargest v hnext.mem) hlearns
  have hne : ∃ i, i ∈ learned distance t (t.axiomsFor (t.coreUnits.remove v.index)) := by
    obtain ⟨n, hn⟩ := hothers
    obtain ⟨i, hi⟩ := exists_mem_axiomsFor ht hn fun k hk => (IndexSet.mem_remove.mp hk).1
    exact ⟨i, hlearns.subset i hi⟩
  have hok := clausesFor_eq_ok.mpr ⟨checkCandidate_eq_ok hne hlt, rfl⟩
  constructor
  · intro c hc
    obtain rfl := Except.ok.inj (hok.symm.trans hc)
    exact .dropping hnext hne hlearns hlt
  · intro e he
    cases hok.symm.trans he

end Strategy

end ModelFinder
