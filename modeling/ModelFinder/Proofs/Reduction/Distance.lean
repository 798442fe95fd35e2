import Mathlib.Data.List.MinMax
import ModelFinder.Proofs.Reduction.Comparison
import ModelFinder.Proofs.Trace.Learning

/-!
# The resolution distance

The depth of a clause over given input clauses is 0 for these and, for a resolvent of clauses with a
depth, one more than the largest depth among them (`Trace.HasDepth`).  It counts the steps in which
the clause is learned (`Trace.mem_iterate_iff`), so a candidate at a distance consists of the
clauses whose depth the distance allows (`Strategy.mem_learned_iff`).  This holds of both ways to
make one: step by step, stopping early when nothing was learned, and in one pass.

* `Strategy.learnWithin_eq_iterate`: stopping early makes no difference.
* `Trace.HasDepth.unique`: a clause has one depth at most.
* `Strategy.exists_clausesFor`: what is not refused at a distance is not refused at a smaller one.
-/

namespace ModelFinder

/-- A set that is no larger than a part of it is that part. -/
theorem IndexSet.eq_of_subset_of_size_le {s s' : IndexSet} (hsub : ∀ k ∈ s, k ∈ s')
    (hsize : s'.size ≤ s.size) : s = s' := by
  have hnodup : s.toList.Nodup := s.increasing.imp Nat.ne_of_lt
  have hperm : s.toList.Perm s'.toList := (hnodup.subperm hsub).perm_of_length_le hsize
  exact ext_mem fun k => hperm.mem_iff

namespace Trace

variable {t : Trace} {s : ClauseSet} {i m n : Nat}

/-! ### Depths -/

/-- The clause at position `i` has a depth over the clauses of `s`: 0 if it is one of them, and for
a derived clause one more than the largest depth of its antecedents, all of which have one. -/
inductive HasDepth (t : Trace) (s : ClauseSet) : Nat → Nat → Prop
  | given {i : Nat} (mem : i ∈ s) : HasDepth t s i 0
  | resolvent {i : Nat} {c : TraceClause} {depth : Nat → Nat} (here : t.get? i = some c)
      (derived : t.numAxioms ≤ i) (depths : ∀ a ∈ c.antecedents, HasDepth t s a (depth a)) :
      HasDepth t s i ((c.antecedents.map depth).foldr max 0 + 1)

/-- A clause has one depth at most. -/
theorem HasDepth.unique (hs : ∀ i ∈ s, i < t.numAxioms) (hm : t.HasDepth s i m)
    (hn : t.HasDepth s i n) : m = n := by
  induction hm generalizing n with
  | given mem =>
      cases hn with
      | given => rfl
      | resolvent _ derived => exact absurd (hs _ mem) (Nat.not_lt.mpr derived)
  | @resolvent i c depth here derived _ ih =>
      cases hn with
      | given mem => exact absurd (hs _ mem) (Nat.not_lt.mpr derived)
      | @resolvent _ d depth' here' _ depths =>
          obtain rfl : c = d := Option.some.inj (here.symm.trans here')
          have hmap : c.antecedents.map depth = c.antecedents.map depth' :=
            List.map_congr_left fun a ha => ih a ha (depths a ha)
          rw [hmap]

/-- A derived clause whose antecedents have a depth up to `n` has a depth up to `n + 1`. -/
theorem HasDepth.exists_of_antecedents {c : TraceClause} (here : t.get? i = some c)
    (derived : t.numAxioms ≤ i) (h : ∀ a ∈ c.antecedents, ∃ m ≤ n, t.HasDepth s a m) :
    ∃ m ≤ n + 1, t.HasDepth s i m := by
  choose! depth hle hdepth using h
  refine ⟨_, Nat.succ_le_succ ?_, .resolvent here derived hdepth⟩
  refine List.max_le_of_forall_le _ n fun m hm => ?_
  obtain ⟨a, ha, rfl⟩ := List.mem_map.mp hm
  exact hle a ha

/-- **The depth counts the steps of learning.** -/
theorem mem_iterate_iff (ht : t.WellFormed) :
    i ∈ t.directlyLearnable^[n] s ↔ ∃ m ≤ n, t.HasDepth s i m := by
  induction n generalizing i with
  | zero =>
      constructor
      · exact fun hi => ⟨0, Nat.le_refl 0, .given hi⟩
      · rintro ⟨m, hm, h⟩
        obtain rfl := Nat.le_zero.mp hm
        cases h with
        | given mem => exact mem
  | succ n ih =>
      rw [Function.iterate_succ_apply', mem_directlyLearnable_iff ht]
      constructor
      · rintro (hi | ⟨c, hc, hle, has⟩)
        · obtain ⟨m, hm, h⟩ := ih.mp hi
          exact ⟨m, Nat.le_succ_of_le hm, h⟩
        · exact HasDepth.exists_of_antecedents hc hle fun a ha => ih.mp (has a ha)
      · rintro ⟨m, hm, h⟩
        cases h with
        | given mem => exact .inl (mem_iterate_of_le ht (Nat.zero_le n) mem)
        | @resolvent _ c depth here derived depths =>
            refine .inr ⟨c, here, derived, fun a ha => ih.mpr ⟨depth a, ?_, depths a ha⟩⟩
            have hlargest := List.le_max_of_le (List.mem_map_of_mem ha) (Nat.le_refl (depth a))
            exact Nat.le_trans hlargest (Nat.le_of_succ_le_succ hm)

/-- What is learned in any number of steps is what has a depth. -/
theorem mem_learnable_iff_hasDepth (ht : t.WellFormed) :
    i ∈ t.learnable s ↔ ∃ m, t.HasDepth s i m := by
  constructor
  · intro hi
    rw [← iterate_directlyLearnable ht] at hi
    obtain ⟨m, -, h⟩ := (mem_iterate_iff ht).mp hi
    exact ⟨m, h⟩
  · rintro ⟨m, h⟩
    exact mem_learnable_of_mem_iterate ht ((mem_iterate_iff ht).mpr ⟨m, Nat.le_refl m, h⟩)

end Trace

/-- The clauses of this depth are within the distance. -/
def ResolutionDistance.Allows : ResolutionDistance → Nat → Prop
  | .bounded d, n => n ≤ d
  | .unbounded, _ => True

namespace Strategy

open Trace (HasDepth)

variable {t : Trace} {distance : ResolutionDistance} {relevant : VariableSet} {c c' : ClauseSet}
  {s : ClauseSet} {d i : Nat}

/-! ### Candidates at a distance -/

/-- If one step learns nothing, no number of steps does. -/
theorem learnWithin_eq_iterate (ht : t.WellFormed) (n : Nat) (s : ClauseSet) :
    learnWithin t n s = t.directlyLearnable^[n] s := by
  induction n generalizing s with
  | zero => rfl
  | succ n ih =>
      unfold learnWithin
      by_cases h : (t.directlyLearnable s).size = s.size
      · rw [if_pos h]
        have hfixed : s = t.directlyLearnable s :=
          IndexSet.eq_of_subset_of_size_le (Trace.learns_directlyLearnable ht s).subset
            (Nat.le_of_eq h)
        exact (Function.iterate_fixed hfixed.symm _).symm
      · rw [if_neg h, ih, Function.iterate_succ_apply]

/-- From as many steps as there are derived clauses on, a bound makes no difference. -/
theorem learned_bounded_eq (hd : t.numResolvents ≤ d) (s : ClauseSet) :
    learned (.bounded d) t s = learned .unbounded t s := if_neg (Nat.not_lt.mpr hd)

/-- Both ways to learn within a bound take that many steps. -/
theorem learned_bounded_eq_iterate (ht : t.WellFormed) (d : Nat) (s : ClauseSet) :
    learned (.bounded d) t s = t.directlyLearnable^[d] s := by
  by_cases hd : d < t.numResolvents
  · rw [learned, if_pos hd, learnWithin_eq_iterate ht]
  · rw [Nat.not_lt] at hd
    rw [learned_bounded_eq hd, learned]
    refine IndexSet.ext_mem fun i => ⟨fun hi => ?_, Trace.mem_learnable_of_mem_iterate ht⟩
    rw [← Trace.iterate_directlyLearnable ht] at hi
    exact Trace.mem_iterate_of_le ht hd hi

/-- **What is learned within a distance** are the clauses whose depth the distance allows. -/
theorem mem_learned_iff (ht : t.WellFormed) :
    i ∈ learned distance t s ↔ ∃ n, distance.Allows n ∧ t.HasDepth s i n := by
  cases distance with
  | bounded d =>
      rw [learned_bounded_eq_iterate ht]
      exact Trace.mem_iterate_iff ht
  | unbounded =>
      simp only [ResolutionDistance.Allows, true_and]
      exact Trace.mem_learnable_iff_hasDepth ht

/-- What is learned within a distance is learned within a larger one. -/
theorem learned_subset (ht : t.WellFormed) (hd : distance.Allows d) :
    ∀ i ∈ learned (.bounded d) t s, i ∈ learned distance t s := by
  intro i hi
  obtain ⟨n, hn, h⟩ := (mem_learned_iff ht).mp hi
  refine (mem_learned_iff ht).mpr ⟨n, ?_, h⟩
  cases distance with
  | bounded d' => exact Nat.le_trans hn hd
  | unbounded => trivial

/-- Nothing is learned from nothing. -/
theorem exists_mem_of_learned (ht : t.WellFormed) (h : ∃ i, i ∈ learned distance t s) :
    ∃ i, i ∈ s := by
  obtain ⟨i, hi⟩ := h
  obtain ⟨n, -, hdepth⟩ := (mem_learned_iff ht).mp hi
  clear hi
  induction hdepth with
  | given mem => exact ⟨_, mem⟩
  | @resolvent i c _ here derived _ ih =>
      have hne : c.antecedents ≠ [] := fun h =>
        absurd ((ht.isAxiom_iff here).mp h) (Nat.not_lt.mpr derived)
      obtain ⟨a, ha⟩ := List.exists_mem_of_ne_nil c.antecedents hne
      exact ih a ha

/-- A candidate at a distance that is not refused is not refused at a smaller one. -/
theorem exists_clausesFor (ht : t.WellFormed) (hd : distance.Allows d)
    (h : clausesFor distance t relevant = .ok c') :
    ∃ c, clausesFor (.bounded d) t relevant = .ok c ∧ ∀ i ∈ c, i ∈ c' := by
  obtain ⟨hcheck, rfl⟩ := clausesFor_eq_ok.mp h
  have hsub := learned_subset (s := t.axiomsFor relevant) ht hd
  obtain ⟨i, hi⟩ := exists_mem_of_learned ht (exists_mem_of_checkCandidate hcheck)
  have hmem := (learns_learned ht (.bounded d) (t.axiomsFor relevant)).subset i hi
  refine ⟨_, clausesFor_eq_ok.mpr ⟨checkCandidate_eq_ok ⟨i, hmem⟩ fun j hj => ?_, rfl⟩, hsub⟩
  exact lt_terminal_of_checkCandidate hcheck j (hsub j hj)

/-- **What the distance means.**  A candidate within `d` steps consists of the clauses with a depth up
to `d` over the input clauses of the relevant variables, and an unbounded one of all clauses with a
depth.  If there is a candidate at some distance, there is one within fewer steps, and it is part of
the other.  From as many steps as there are derived clauses on, the distance makes no difference.  A
candidate has the antecedents of each of its clauses, and never the terminal clause. -/
theorem clausesFor_depth (ht : t.WellFormed) (relevant : VariableSet) :
    (∀ i m n, t.HasDepth (t.axiomsFor relevant) i m → t.HasDepth (t.axiomsFor relevant) i n →
      m = n) ∧
    (∀ d c, clausesFor (.bounded d) t relevant = .ok c →
      ∀ i, i ∈ c ↔ ∃ n ≤ d, t.HasDepth (t.axiomsFor relevant) i n) ∧
    (∀ c, clausesFor .unbounded t relevant = .ok c →
      ∀ i, i ∈ c ↔ ∃ n, t.HasDepth (t.axiomsFor relevant) i n) ∧
    (∀ d distance c', distance.Allows d → clausesFor distance t relevant = .ok c' →
      ∃ c, clausesFor (.bounded d) t relevant = .ok c ∧ ∀ i ∈ c, i ∈ c') ∧
    (∀ d, t.numResolvents ≤ d →
      clausesFor (.bounded d) t relevant = clausesFor .unbounded t relevant) ∧
    ∀ distance c, clausesFor distance t relevant = .ok c →
      t.Closed (· ∈ c) ∧ t.terminal ∉ c := by
  have hinputs : ∀ i ∈ t.axiomsFor relevant, i < t.numAxioms := fun i hi =>
    Trace.lt_of_mem_axiomsFor ht hi
  refine ⟨fun i m n => HasDepth.unique hinputs, fun d c hc i => ?_, fun c hc i => ?_,
    fun d distance c' hd => exists_clausesFor ht hd, fun d hd => ?_, fun distance c hc => ?_⟩
  · obtain ⟨-, rfl⟩ := clausesFor_eq_ok.mp hc
    exact mem_learned_iff ht
  · obtain ⟨-, rfl⟩ := clausesFor_eq_ok.mp hc
    exact Trace.mem_learnable_iff_hasDepth ht
  · rw [clausesFor_eq, clausesFor_eq, learned_bounded_eq hd]
  · obtain ⟨hcheck, rfl⟩ := clausesFor_eq_ok.mp hc
    refine ⟨(learns_learned ht distance _).closed (Trace.closed_of_lt_numAxioms ht hinputs), ?_⟩
    exact fun hterm => Nat.lt_irrefl _ (lt_terminal_of_checkCandidate hcheck _ hterm)

/-- Along the chain, the clause at position 6 is recycled in two steps of resolution and not in one,
so its depth is 2. -/
theorem clausesFor_depth_chain :
    chainOfRoots.WellFormed ∧
      chainOfRoots.HasDepth (chainOfRoots.axiomsFor (.ofList [3])) 6 2 ∧
      (∃ c, clausesFor (.bounded 1) chainOfRoots (.ofList [3]) = .ok c ∧
        ∀ i ∈ c, i ∈ IndexSet.ofList [0, 1, 2, 5, 6]) ∧
      clausesFor (.bounded 4) chainOfRoots (.ofList [3]) = .ok (.ofList [0, 1, 2, 5, 6]) ∧
      chainOfRoots.Closed (· ∈ IndexSet.ofList [0, 1, 2, 5, 6]) := by
  obtain ⟨-, hbounded, -, hsmaller, hlarge, hcandidate⟩ :=
    clausesFor_depth wellFormed_chainOfRoots (.ofList [3])
  have hone : clausesFor (.bounded 1) chainOfRoots (.ofList [3]) =
      .ok (.ofList [0, 1, 2, 5]) := by cbv
  have htwo : clausesFor (.bounded 2) chainOfRoots (.ofList [3]) =
      .ok (.ofList [0, 1, 2, 5, 6]) := by cbv
  have hunbounded : clausesFor .unbounded chainOfRoots (.ofList [3]) =
      .ok (.ofList [0, 1, 2, 5, 6]) := by cbv
  refine ⟨wellFormed_chainOfRoots, ?_, hsmaller 1 .unbounded _ trivial hunbounded,
    (hlarge 4 (by decide)).trans hunbounded, (hcandidate _ _ htwo).1⟩
  obtain ⟨n, hn, h⟩ := (hbounded 2 _ htwo 6).mp (by decide)
  have hnot : ¬ n ≤ 1 := fun hle => absurd ((hbounded 1 _ hone 6).mpr ⟨n, hle, h⟩) (by decide)
  obtain rfl : n = 2 := by omega
  exact h

end Strategy

end ModelFinder
