import Mathlib.Logic.Function.Iterate
import ModelFinder.Proofs.Trace.Reach

/-!
# What can be learned from a set

The queries of a trace that grow a set go through derived clauses in the order of their positions
and add those that pass a test (`Trace.sweep`).  If the test asks about earlier positions only, then
whatever it asked about is settled by then, and would be answered in the same way at the end.  So
what has been added is exactly what passes the test in the end (`mem_sweep`).

For `Trace.learnable` this is an equation for the set that is learned (`mem_learnable_iff`), which
has one solution, by induction on the position:

* `learnable_subset`: every closed set with the given clauses in it has everything learned from
  them.
* `mem_iterate_of_mem_learnable`: learning step by step, a clause is there after as many steps as
  there are derived clauses up to it.
* `mem_learnable_iff_inputs`: what is learned from input clauses are the clauses that depend
  on no others.
-/

namespace ModelFinder

namespace Trace

variable {t : Trace}

/-! ### One pass -/

/-- Going through clauses in order and adding those that pass a test against what is there. -/
def sweep (test : ClauseSet → TraceClause → Bool) (cs : List TraceClause) (s : ClauseSet) :
    ClauseSet :=
  cs.foldl (fun s c => if test s c then s.insert c.index else s) s

/-- The test asks about positions before the clause only. -/
def Local (test : ClauseSet → TraceClause → Bool) (cs : List TraceClause) : Prop :=
  ∀ c ∈ cs, ∀ s s' : ClauseSet, (∀ a < c.index, a ∈ s ↔ a ∈ s') → test s c = test s' c

section Sweep

variable {test : ClauseSet → TraceClause → Bool} {cs : List TraceClause} {c : TraceClause}
  {s : ClauseSet} {i : Nat}

theorem mem_sweep_singleton : i ∈ sweep test [c] s ↔ i ∈ s ∨ c.index = i ∧ test s c = true := by
  show i ∈ (if test s c then s.insert c.index else s) ↔ _
  split
  next h => simp [h, or_comm, eq_comm]
  next h => simp [h]

theorem sweep_cons : sweep test (c :: cs) s = sweep test cs (sweep test [c] s) := rfl

/-- Positions before all clauses of the pass are left alone. -/
theorem mem_sweep_of_lt (h : ∀ c ∈ cs, i < c.index) : i ∈ sweep test cs s ↔ i ∈ s := by
  induction cs generalizing s with
  | nil => exact Iff.rfl
  | cons c cs ih =>
      obtain ⟨hc, hcs⟩ := List.forall_mem_cons.mp h
      rw [sweep_cons, ih hcs, mem_sweep_singleton]
      exact or_iff_left fun hi => Nat.ne_of_gt hc hi.1

/-- **One pass settles everything**: what is added is what passes the test in the end. -/
theorem mem_sweep (test : ClauseSet → TraceClause → Bool)
    (hsorted : cs.Pairwise (·.index < ·.index)) (hlocal : Local test cs) :
    i ∈ sweep test cs s ↔ i ∈ s ∨ ∃ c ∈ cs, c.index = i ∧ test (sweep test cs s) c = true := by
  induction cs generalizing s with
  | nil => exact ⟨.inl, fun h => h.resolve_right fun ⟨_, hc, _⟩ => absurd hc List.not_mem_nil⟩
  | cons c cs ih =>
      obtain ⟨hc, hsorted⟩ := List.pairwise_cons.mp hsorted
      -- nothing before `c` changes any more, neither by `c` nor by what comes after it
      have htest : test s c = test (sweep test (c :: cs) s) c := by
        refine hlocal c List.mem_cons_self _ _ fun a ha => (mem_sweep_of_lt ?_).symm
        exact List.forall_mem_cons.mpr ⟨ha, fun d hd => Nat.lt_trans ha (hc d hd)⟩
      have hfirst : i ∈ sweep test [c] s ↔
          i ∈ s ∨ c.index = i ∧ test (sweep test (c :: cs) s) c = true := by
        rw [← htest]
        exact mem_sweep_singleton
      rw [sweep_cons, ih hsorted fun d hd => hlocal d (List.mem_cons_of_mem c hd), hfirst, or_assoc]
      simp only [List.mem_cons, exists_eq_or_imp]
      exact Iff.rfl

end Sweep

/-! ### Learning -/

theorem derived_sorted (ht : t.WellFormed) : t.derived.Pairwise (·.index < ·.index) :=
  (index_lt_of_lt ht).sublist (List.drop_sublist _ _)

theorem all_contains_iff {s : ClauseSet} {is : List Nat} :
    is.all s.contains = true ↔ ∀ i ∈ is, i ∈ s := by
  rw [List.all_eq_true]
  exact forall₂_congr fun _ _ => IndexSet.contains_eq_true

/-- A derived clause at this position has all of its antecedents in the set. -/
def DerivesFrom (t : Trace) (s : ClauseSet) (i : Nat) : Prop :=
  ∃ c, t.get? i = some c ∧ t.numAxioms ≤ i ∧ ∀ a ∈ c.antecedents, a ∈ s

theorem DerivesFrom.mono {s s' : ClauseSet} {i : Nat} (h : t.DerivesFrom s i)
    (hsub : ∀ j < i, j ∈ s → j ∈ s') (ht : t.WellFormed) : t.DerivesFrom s' i := by
  obtain ⟨c, hc, hle, has⟩ := h
  exact ⟨c, hc, hle, fun a ha => hsub a (ht.antecedent_lt hc a ha) (has a ha)⟩

theorem exists_derived_iff (ht : t.WellFormed) {s : ClauseSet} {i : Nat} :
    (∃ c ∈ t.derived, c.index = i ∧ c.antecedents.all s.contains = true) ↔ t.DerivesFrom s i := by
  constructor
  · rintro ⟨c, hc, rfl, has⟩
    obtain ⟨i, hle, hi⟩ := mem_derived_iff.mp hc
    rw [ht.index_eq hi]
    exact ⟨c, hi, hle, all_contains_iff.mp has⟩
  · rintro ⟨c, hi, hle, has⟩
    exact ⟨c, mem_derived_iff.mpr ⟨i, hle, hi⟩, ht.index_eq hi, all_contains_iff.mpr has⟩

/-- What is learned in one step. -/
theorem mem_directlyLearnable_iff (ht : t.WellFormed) {s : ClauseSet} {i : Nat} :
    i ∈ t.directlyLearnable s ↔ i ∈ s ∨ t.DerivesFrom s i := by
  rw [← exists_derived_iff ht]
  exact mem_sweep (fun _ c => c.antecedents.all s.contains) (derived_sorted ht)
    fun _ _ _ _ _ => rfl

/-- What is learned is what was given and what is derived from what is learned. -/
theorem mem_learnable_iff (ht : t.WellFormed) {s : ClauseSet} {i : Nat} :
    i ∈ t.learnable s ↔ i ∈ s ∨ t.DerivesFrom (t.learnable s) i := by
  rw [← exists_derived_iff ht]
  refine mem_sweep (fun s c => c.antecedents.all s.contains) (derived_sorted ht)
    fun c hc s s' hs => ?_
  obtain ⟨i, -, hi⟩ := mem_derived_iff.mp hc
  rw [Bool.eq_iff_iff, all_contains_iff, all_contains_iff]
  refine forall₂_congr fun a ha => hs a ?_
  rw [ht.index_eq hi]
  exact ht.antecedent_lt hi a ha

/-- Nothing more is learned in another step. -/
theorem directlyLearnable_learnable (ht : t.WellFormed) (s : ClauseSet) :
    t.directlyLearnable (t.learnable s) = t.learnable s :=
  IndexSet.ext_mem fun i => by
    rw [mem_directlyLearnable_iff ht, mem_learnable_iff ht, or_assoc, or_self]

/-- **The least closed set.** -/
theorem learnable_subset (ht : t.WellFormed) {s s' : ClauseSet} (hs : ∀ i ∈ s, i ∈ s')
    (hclosed : ∀ i ∈ t.directlyLearnable s', i ∈ s') : ∀ i ∈ t.learnable s, i ∈ s' := by
  intro i hi
  induction i using Nat.strongRecOn with
  | ind i ih =>
      rcases (mem_learnable_iff ht).mp hi with hi | hi
      · exact hs i hi
      · exact hclosed i ((mem_directlyLearnable_iff ht).mpr (.inr (hi.mono ih ht)))

/-! ### Step by step -/

theorem mem_iterate_of_le (ht : t.WellFormed) {s : ClauseSet} {m n i : Nat} (hle : m ≤ n)
    (h : i ∈ t.directlyLearnable^[m] s) : i ∈ t.directlyLearnable^[n] s := by
  induction hle with
  | refl => exact h
  | step _ ih =>
      rw [Function.iterate_succ_apply']
      exact (mem_directlyLearnable_iff ht).mpr (.inl ih)

/-- No number of steps leads out of what is learned. -/
theorem mem_learnable_of_mem_iterate (ht : t.WellFormed) {s : ClauseSet} {n i : Nat}
    (h : i ∈ t.directlyLearnable^[n] s) : i ∈ t.learnable s := by
  induction n generalizing i with
  | zero => exact (mem_learnable_iff ht).mpr (.inl h)
  | succ n ih =>
      rw [Function.iterate_succ_apply', mem_directlyLearnable_iff ht] at h
      rcases h with h | h
      · exact ih h
      · exact (mem_learnable_iff ht).mpr (.inr (h.mono (fun _ _ => ih) ht))

/-- A clause is learned after as many steps as there are derived clauses up to it. -/
theorem mem_iterate_of_mem_learnable (ht : t.WellFormed) {s : ClauseSet} {i : Nat}
    (h : i ∈ t.learnable s) : i ∈ t.directlyLearnable^[i + 1 - t.numAxioms] s := by
  induction i using Nat.strongRecOn with
  | ind i ih =>
      rcases (mem_learnable_iff ht).mp h with hi | hi
      · exact mem_iterate_of_le ht (Nat.zero_le _) hi
      · have hle : t.numAxioms ≤ i := hi.choose_spec.2.1
        rw [Nat.succ_sub hle, Function.iterate_succ_apply']
        refine (mem_directlyLearnable_iff ht).mpr (.inr (hi.mono (fun j hj hmem => ?_) ht))
        exact mem_iterate_of_le ht (Nat.sub_le_sub_right hj _) (ih j hj hmem)

theorem iterate_directlyLearnable (ht : t.WellFormed) (s : ClauseSet) :
    t.directlyLearnable^[t.numResolvents] s = t.learnable s := by
  refine IndexSet.ext_mem fun i => ⟨mem_learnable_of_mem_iterate ht, fun h => ?_⟩
  rcases (mem_learnable_iff ht).mp h with hi | ⟨c, hc, -, -⟩
  · exact mem_iterate_of_le ht (Nat.zero_le _) hi
  · exact mem_iterate_of_le ht (Nat.sub_le_sub_right (get?_lt hc) _)
      (mem_iterate_of_mem_learnable ht h)

/-! ### Back to the input clauses -/

theorem mem_backwardReachable_self (t : Trace) (i : Nat) :
    i ∈ t.backwardReachable (.ofList [i]) := mem_backwardReachable_of_mem (by simp)

/-- What an antecedent depends on, its resolvent depends on. -/
theorem backwardReachable_antecedent (ht : t.WellFormed) {i a : Nat} {c : TraceClause}
    (hc : t.get? i = some c) (ha : a ∈ c.antecedents) :
    ∀ j ∈ t.backwardReachable (.ofList [a]), j ∈ t.backwardReachable (.ofList [i]) := by
  have hclosed := closed_backwardReachable ht (.ofList [i])
  refine of_mem_backwardReachable ht hclosed fun j hj => ?_
  obtain rfl : j = a := by simpa using hj
  exact hclosed hc (mem_backwardReachable_self t i) j ha

/-- **Learning is dual to dependence**: what is learned from input clauses are the clauses that
depend on no others. -/
theorem mem_learnable_iff_inputs (ht : t.WellFormed) {s : ClauseSet}
    (hs : ∀ i ∈ s, i < t.numAxioms) {i : Nat} (hi : i < t.size) : i ∈ t.learnable s ↔
      ∀ a ∈ t.backwardReachable (.ofList [i]), a < t.numAxioms → a ∈ s := by
  have hlearns := learns_learnable ht s
  constructor
  · intro hmem a ha hlt
    have hclosed := hlearns.closed (closed_of_lt_numAxioms ht hs)
    have hlearned : a ∈ t.learnable s := by
      refine of_mem_backwardReachable ht hclosed (fun j hj => ?_) a ha
      obtain rfl : j = i := by simpa using hj
      exact hmem
    exact (hlearns.derived a hlearned).resolve_right fun h => Nat.not_lt.mpr h.1 hlt
  · intro hall
    induction i using Nat.strongRecOn with
    | ind i ih =>
        by_cases hlt : i < t.numAxioms
        · exact hlearns.subset i (hall i (mem_backwardReachable_self t i) hlt)
        · obtain ⟨c, hc⟩ := exists_get? hi
          refine (mem_learnable_iff ht).mpr (.inr ⟨c, hc, Nat.le_of_not_lt hlt, fun a ha => ?_⟩)
          have hai := ht.antecedent_lt hc a ha
          exact ih a hai (Nat.lt_trans hai hi) fun j hj =>
            hall j (backwardReachable_antecedent ht hc ha j hj)

theorem mem_learnable_terminal_iff (ht : t.WellFormed) (hends : t.EndsEmpty) {s : ClauseSet}
    (hs : ∀ i ∈ s, i < t.numAxioms) : t.terminal ∈ t.learnable s ↔ ∀ i ∈ t.core, i ∈ s := by
  obtain ⟨c, hc, -⟩ := hends
  rw [mem_learnable_iff_inputs ht hs (get?_lt hc)]
  simp only [mem_core, and_imp]

/-- **What can be learned from a set** is the smallest set with it that is closed under single
steps, and as many steps as there are derived clauses lead there.  From input clauses alone, a clause
can be learned exactly if all input clauses it depends on are among them; so the terminal clause is
learned exactly if the core is. -/
theorem learnable_least_closed (ht : t.WellFormed) (hends : t.EndsEmpty) (s : ClauseSet) :
    ((∀ i ∈ s, i ∈ t.learnable s) ∧ t.directlyLearnable (t.learnable s) = t.learnable s ∧
      ∀ s' : ClauseSet, (∀ i ∈ s, i ∈ s') → (∀ i ∈ t.directlyLearnable s', i ∈ s') →
        ∀ i ∈ t.learnable s, i ∈ s') ∧
    t.directlyLearnable^[t.numResolvents] s = t.learnable s ∧
    ((∀ i ∈ s, i < t.numAxioms) →
      (∀ i < t.size, i ∈ t.learnable s ↔
        ∀ a ∈ t.backwardReachable (.ofList [i]), a < t.numAxioms → a ∈ s) ∧
      (t.terminal ∈ t.learnable s ↔ ∀ a ∈ t.core, a ∈ s)) :=
  ⟨⟨(learns_learnable ht s).subset, directlyLearnable_learnable ht s,
      fun _ hs hclosed => learnable_subset ht hs hclosed⟩,
    iterate_directlyLearnable ht s,
    fun hs => ⟨fun _ hi => mem_learnable_iff_inputs ht hs hi,
      mem_learnable_terminal_iff ht hends hs⟩⟩

/-- A refutation in two steps. -/
def twoSteps : Trace :=
  let clause (codes : List Int) : Clause := .ofList (codes.filterMap Literal.ofDimacs?)
  ⟨#[⟨0, clause [1], []⟩, ⟨1, clause [-1, 2], []⟩, ⟨2, clause [-2], []⟩, ⟨3, clause [2], [0, 1]⟩,
    ⟨4, .empty, [3, 2]⟩], 3⟩

/-- Without the last input clause the first step can be made and the second one can not. -/
theorem learnable_least_closed_two_steps :
    twoSteps.WellFormed ∧ twoSteps.EndsEmpty ∧
      3 ∈ twoSteps.learnable (.ofList [0, 1]) ∧ 4 ∉ twoSteps.learnable (.ofList [0, 1]) ∧
      twoSteps.directlyLearnable (twoSteps.directlyLearnable (.ofList [0, 1])) =
        twoSteps.learnable (.ofList [0, 1]) := by
  have ht : twoSteps.WellFormed := by decide
  have hends : twoSteps.EndsEmpty := ⟨_, rfl, rfl⟩
  obtain ⟨-, hiterate, hdual⟩ := learnable_least_closed ht hends (.ofList [0, 1])
  obtain ⟨hmem, hterminal⟩ := hdual (by decide)
  exact ⟨ht, hends, (hmem 3 (by decide)).mpr (by decide), fun h =>
    absurd (hterminal.mp h 2 (by decide)) (by decide), hiterate⟩

end Trace

end ModelFinder
