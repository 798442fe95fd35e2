import Mathlib.Logic.Relation
import ModelFinder.Proofs.Trace.Learning

/-!
# Ancestors

A clause is an ancestor of what is derived from it, in any number of steps (`Trace.Ancestor`).  The
two queries that follow the antecedents of a trace are closures under this relation:
`Trace.backwardReachable` adds the ancestors of a set, and `Trace.reachable` adds what has an
ancestor in it.  Each makes one pass over the clauses, which suffices because ancestors come first
(`IsAntecedent.lt`).

* `mem_backwardReachable_iff`, `mem_reachable_iff`: what the queries answer, each clause counted
  among its own ancestors.
* `eq_left_of_size_le`, `eq_right_of_size_le`: a position past the end of the trace has no ancestors
  and is an ancestor of nothing.
-/

namespace ModelFinder

namespace Trace

open Relation (ReflTransGen TransGen reflTransGen_iff_eq_or_transGen)

variable {t : Trace} {a i j k : Nat} {seed : ClauseSet}

/-- The clause at position `i` is resolved from others, and the one at position `a` is among them. -/
def IsAntecedent (t : Trace) (a i : Nat) : Prop := ∃ c, t.get? i = some c ∧ a ∈ c.antecedents

/-- The clause at position `i` is derived from the one at position `a`, in one step or more. -/
def Ancestor (t : Trace) (a i : Nat) : Prop := TransGen t.IsAntecedent a i

namespace IsAntecedent

theorem lt (h : t.IsAntecedent a i) (ht : t.WellFormed) : a < i := by
  obtain ⟨c, hc, ha⟩ := h
  exact ht.antecedent_lt hc a ha

theorem lt_size (h : t.IsAntecedent a i) : i < t.size := by
  obtain ⟨c, hc, -⟩ := h
  exact get?_lt hc

/-- Only derived clauses have antecedents. -/
theorem numAxioms_le (h : t.IsAntecedent a i) (ht : t.WellFormed) : t.numAxioms ≤ i := by
  obtain ⟨c, hc, ha⟩ := h
  refine Nat.le_of_not_lt fun hlt => ?_
  rw [(ht.isAxiom_iff hc).mpr hlt] at ha
  exact absurd ha List.not_mem_nil

end IsAntecedent

/-! ### The two closures -/

/-- **Going back** leads to the ancestors of the seed. -/
theorem mem_backwardReachable_iff (ht : t.WellFormed) :
    i ∈ t.backwardReachable seed ↔ ∃ j ∈ seed, ReflTransGen t.IsAntecedent i j := by
  constructor
  · -- the ancestors of the seed are a closed set
    have hclosed : t.Closed fun i => ∃ j ∈ seed, ReflTransGen t.IsAntecedent i j :=
      fun i c hc ⟨j, hj, hij⟩ a ha => ⟨j, hj, hij.head ⟨c, hc, ha⟩⟩
    exact of_mem_backwardReachable ht hclosed (fun j hj => ⟨j, hj, .refl⟩) i
  · rintro ⟨j, hj, hij⟩
    induction hij using ReflTransGen.head_induction_on with
    | refl => exact mem_backwardReachable_of_mem hj
    | head h _ ih =>
        obtain ⟨c, hc, ha⟩ := h
        exact closed_backwardReachable ht seed hc ih _ ha

theorem any_contains_iff {s : ClauseSet} {is : List Nat} :
    is.any s.contains = true ↔ ∃ i ∈ is, i ∈ s := by
  rw [List.any_eq_true]
  exact exists_congr fun _ => and_congr_right fun _ => IndexSet.contains_eq_true

/-- What is reached is what was given and what has an antecedent that is reached. -/
theorem mem_reachable_iff_antecedent (ht : t.WellFormed) :
    i ∈ t.reachable seed ↔ i ∈ seed ∨ ∃ a ∈ t.reachable seed, t.IsAntecedent a i := by
  have hlocal : Local (fun s c => c.antecedents.any s.contains) t.derived := by
    intro c hc s s' hs
    obtain ⟨i, -, hi⟩ := mem_derived_iff.mp hc
    rw [Bool.eq_iff_iff, any_contains_iff, any_contains_iff]
    refine exists_congr fun a => and_congr_right fun ha => hs a ?_
    rw [ht.index_eq hi]
    exact ht.antecedent_lt hi a ha
  refine (mem_sweep _ (derived_sorted ht) hlocal).trans (or_congr_right ?_)
  constructor
  · rintro ⟨c, hc, rfl, hany⟩
    obtain ⟨i, -, hi⟩ := mem_derived_iff.mp hc
    obtain ⟨a, ha, hmem⟩ := any_contains_iff.mp hany
    exact ⟨a, hmem, c, ht.get?_index hi, ha⟩
  · rintro ⟨a, hmem, h⟩
    obtain ⟨c, hc, ha⟩ := id h
    exact ⟨c, mem_derived_iff.mpr ⟨i, h.numAxioms_le ht, hc⟩, ht.index_eq hc,
      any_contains_iff.mpr ⟨a, ha, hmem⟩⟩

/-- **Going forward** leads to what has an ancestor in the seed. -/
theorem mem_reachable_iff (ht : t.WellFormed) :
    i ∈ t.reachable seed ↔ ∃ j ∈ seed, ReflTransGen t.IsAntecedent j i := by
  constructor
  · intro hi
    induction i using Nat.strongRecOn with
    | ind i ih =>
        rcases (mem_reachable_iff_antecedent ht).mp hi with hi | ⟨a, hmem, ha⟩
        · exact ⟨i, hi, .refl⟩
        · obtain ⟨j, hj, hja⟩ := ih a (ha.lt ht) hmem
          exact ⟨j, hj, hja.tail ha⟩
  · rintro ⟨j, hj, hji⟩
    induction hji with
    | refl => exact (mem_reachable_iff_antecedent ht).mpr (.inl hj)
    | tail _ h ih => exact (mem_reachable_iff_antecedent ht).mpr (.inr ⟨_, ih, h⟩)

/-! ### Past the end -/

theorem eq_right_of_size_le (hk : t.size ≤ k) (h : ReflTransGen t.IsAntecedent i k) : i = k := by
  cases h with
  | refl => rfl
  | tail _ h => exact absurd h.lt_size (Nat.not_lt.mpr hk)

theorem eq_left_of_size_le (ht : t.WellFormed) (hk : t.size ≤ k)
    (h : ReflTransGen t.IsAntecedent k i) : k = i := by
  cases h.cases_head with
  | inl h => exact h
  | inr h =>
      obtain ⟨j, h, -⟩ := h
      exact absurd (Nat.lt_trans (h.lt ht) h.lt_size) (Nat.not_lt.mpr hk)

theorem exists_mem_insert_iff {P : Nat → Prop} (hP : P k ↔ i = k) :
    (∃ j ∈ seed.insert k, P j) ↔ i = k ∨ ∃ j ∈ seed, P j := by
  simp only [IndexSet.mem_insert, or_and_right, exists_or, exists_eq_left, hP]

/-- A position past the end is kept, and leads nowhere. -/
theorem insert_of_size_le (ht : t.WellFormed) (hk : t.size ≤ k) (seed : ClauseSet) :
    t.backwardReachable (seed.insert k) = (t.backwardReachable seed).insert k ∧
      t.reachable (seed.insert k) = (t.reachable seed).insert k := by
  constructor
  · refine IndexSet.ext_mem fun i => ?_
    rw [IndexSet.mem_insert, mem_backwardReachable_iff ht, mem_backwardReachable_iff ht]
    exact exists_mem_insert_iff ⟨eq_right_of_size_le hk, fun h => h ▸ .refl⟩
  · refine IndexSet.ext_mem fun i => ?_
    rw [IndexSet.mem_insert, mem_reachable_iff ht, mem_reachable_iff ht]
    exact exists_mem_insert_iff ⟨fun h => (eq_left_of_size_le ht hk h).symm, fun h => h ▸ .refl⟩

/-- **The queries are the closures.**  A set is extended by the ancestors of its members when going
back, and by everything with an ancestor in it when going forward; a position past the end is kept
and leads nowhere.  So one clause is reached from another exactly if the other is reached when going
back from it. -/
theorem reached_iff_ancestor (ht : t.WellFormed) (seed : ClauseSet) :
    (∀ i, i ∈ t.backwardReachable seed ↔ i ∈ seed ∨ ∃ j ∈ seed, t.Ancestor i j) ∧
    (∀ i, i ∈ t.reachable seed ↔ i ∈ seed ∨ ∃ j ∈ seed, t.Ancestor j i) ∧
    (∀ k, t.size ≤ k →
      t.backwardReachable (seed.insert k) = (t.backwardReachable seed).insert k ∧
        t.reachable (seed.insert k) = (t.reachable seed).insert k) ∧
    ∀ i j, j ∈ t.reachable (.ofList [i]) ↔ i ∈ t.backwardReachable (.ofList [j]) := by
  refine ⟨fun i => ?_, fun i => ?_, fun k hk => insert_of_size_le ht hk seed, fun i j => ?_⟩
  · rw [mem_backwardReachable_iff ht]
    simp only [reflTransGen_iff_eq_or_transGen, and_or_left, exists_or, exists_eq_right]
    exact Iff.rfl
  · rw [mem_reachable_iff ht]
    simp only [reflTransGen_iff_eq_or_transGen, and_or_left, exists_or, exists_eq_right']
    exact Iff.rfl
  · rw [mem_reachable_iff ht, mem_backwardReachable_iff ht]
    simp only [IndexSet.mem_ofList, List.mem_singleton, exists_eq_left]

/-- The first input clause is an ancestor of the last clause, by way of the clause in between, and the
third one is no ancestor of that; the position 9 stays where it is. -/
theorem reached_iff_ancestor_two_steps :
    twoSteps.WellFormed ∧ twoSteps.Ancestor 0 4 ∧ ¬ twoSteps.Ancestor 2 3 ∧
      4 ∈ twoSteps.reachable (.ofList [0]) ∧
      twoSteps.reachable ((IndexSet.ofList [2]).insert 9) = .ofList [2, 4, 9] := by
  have ht : twoSteps.WellFormed := by decide
  obtain ⟨hback, -, -, hdual⟩ := reached_iff_ancestor ht (.ofList [4])
  obtain ⟨hback', -⟩ := reached_iff_ancestor ht (.ofList [3])
  obtain ⟨-, -, hpast, -⟩ := reached_iff_ancestor ht (.ofList [2])
  refine ⟨ht, ?_, fun h => ?_, (hdual 0 4).mpr (by decide), ?_⟩
  · obtain hmem | ⟨j, hj, h⟩ := (hback 0).mp (by decide)
    · exact absurd hmem (by decide)
    · obtain rfl : j = 4 := by simpa using hj
      exact h
  · exact absurd ((hback' 2).mpr (.inr ⟨3, by decide, h⟩)) (by decide)
  · rw [(hpast 9 (by decide)).2]
    decide

end Trace

end ModelFinder
