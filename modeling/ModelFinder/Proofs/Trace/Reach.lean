import ModelFinder.Proofs.Trace.Derivation
import ModelFinder.Trace.Reach

/-!
# What a trace derives from what

A trace is sound when every derived clause follows from its antecedents (`Trace.IsSound`), as in
proofs by resolution (`IsProof.isSound`), and it is a refutation if it is well-formed and ends with
the empty clause as well (`Trace.IsRefutation`).

A set of positions is closed when it holds the antecedents of each of its clauses
(`Trace.Closed`).  In a sound trace, what satisfies the input clauses of a closed set satisfies the
whole set (`IsSound.satisfies_of_closed`), so a closed set with the empty clause has unsatisfiable
input clauses.

* `closed_backwardReachable`, `of_mem_backwardReachable`: going back along the antecedents gives
  the least closed set.
* `IsRefutation.exists_mem_core`: nothing satisfies the core of a refutation.
* `learns_learnable`, `learns_learnWithin`: what is learned from a closed set is closed with it, and
  has no further input clauses (`Trace.Learns`).
* `mem_of_mem_core`: a set from which the terminal clause can be learned has the core in it.
-/

namespace ModelFinder

/-- What satisfies all clauses of the list satisfies the clause. -/
def Clause.FollowsFrom (ds : List Clause) (c : Clause) : Prop :=
  ∀ f : Valuation, (∀ d ∈ ds, f.Satisfies d.literals) → f.Satisfies c.literals

namespace Trace

variable {t : Trace}

/-- Every derived clause follows from its antecedents. -/
def IsSound (t : Trace) : Prop := t.JustifiedBy Clause.FollowsFrom

/-- A well-formed and sound trace which ends with the empty clause. -/
structure IsRefutation (t : Trace) : Prop where
  wellFormed : t.WellFormed
  isSound : t.IsSound
  endsEmpty : t.EndsEmpty

theorem IsProof.isSound (h : t.IsProof) : t.IsSound := by
  intro i c hi hle
  obtain ⟨ds, hds, hchain⟩ := h hi hle
  exact ⟨ds, hds, fun f hf => Clause.satisfies_of_chain? hchain hf⟩

/-! ### Closed sets -/

/-- The antecedents of the clauses at these positions are at these positions. -/
def Closed (t : Trace) (P : Nat → Prop) : Prop :=
  ∀ ⦃i c⦄, t.get? i = some c → P i → ∀ a ∈ c.antecedents, P a

/-- **A part of a sound trace is sound**: what satisfies the input clauses of a closed set satisfies
all of its clauses. -/
theorem IsSound.satisfies_of_closed (hs : t.IsSound) (ht : t.WellFormed) {P : Nat → Prop}
    (hP : t.Closed P) {f : Valuation}
    (h : ∀ {i c}, t.get? i = some c → i < t.numAxioms → P i → f.Satisfies c.clause.literals)
    {i : Nat} {c : TraceClause} (hc : t.get? i = some c) (hi : P i) :
    f.Satisfies c.clause.literals := by
  induction i using Nat.strongRecOn generalizing c with
  | ind i ih =>
      by_cases hlt : i < t.numAxioms
      · exact h hc hlt hi
      · obtain ⟨ds, hds, hfollows⟩ := hs hc (Nat.le_of_not_lt hlt)
        refine hfollows f fun d hd => ?_
        obtain ⟨a, ha, e, he, rfl⟩ := mem_of_clausesAt hds hd
        exact ih a (ht.antecedent_lt hc a ha) he (hP hc hi a ha)

/-- Input clauses alone are closed, as they have no antecedents. -/
theorem closed_of_lt_numAxioms (ht : t.WellFormed) {P : Nat → Prop}
    (hP : ∀ i, P i → i < t.numAxioms) : t.Closed P := by
  intro i c hc hi a ha
  rw [(ht.isAxiom_iff hc).mpr (hP i hi)] at ha
  exact absurd ha List.not_mem_nil

/-! ### The antecedents of a set -/

theorem index_lt_of_lt (ht : t.WellFormed) : t.clauses.toList.Pairwise (·.index < ·.index) := by
  refine List.pairwise_iff_getElem.mpr fun i j hi hj hlt => ?_
  have hget : ∀ {k} (hk : k < t.clauses.toList.length), t.get? k = some t.clauses.toList[k] :=
    fun hk => by rw [get?, ← Array.getElem?_toList, List.getElem?_eq_getElem hk]
  rw [ht.index_eq (hget hi), ht.index_eq (hget hj)]
  exact hlt

/-- Going back from the last clause to the first. -/
def goBack (cs : List TraceClause) (seed : ClauseSet) : ClauseSet :=
  cs.foldr (fun c reached =>
    if reached.contains c.index then reached.insertAll c.antecedents else reached) seed

theorem goBack_cons {c : TraceClause} {cs : List TraceClause} {seed : ClauseSet} {i : Nat} :
    i ∈ goBack (c :: cs) seed ↔
      i ∈ goBack cs seed ∨ c.index ∈ goBack cs seed ∧ i ∈ c.antecedents := by
  show i ∈ (if (goBack cs seed).contains c.index then (goBack cs seed).insertAll c.antecedents
    else goBack cs seed) ↔ _
  split
  next h => rw [IndexSet.contains_eq_true] at h; simp [h, or_comm]
  next h => rw [IndexSet.contains_eq_true] at h; simp [h]

theorem mem_goBack_of_mem {cs : List TraceClause} {seed : ClauseSet} {i : Nat} (h : i ∈ seed) :
    i ∈ goBack cs seed := by
  induction cs with
  | nil => exact h
  | cons c cs ih => exact goBack_cons.mpr (.inl ih)

/-- Antecedents come before their resolvent, so no clause is reached after it has been passed. -/
theorem antecedent_mem_goBack {cs : List TraceClause} {seed : ClauseSet}
    (hsorted : cs.Pairwise (·.index < ·.index))
    (hbefore : ∀ c ∈ cs, ∀ a ∈ c.antecedents, a < c.index) :
    ∀ c ∈ cs, c.index ∈ goBack cs seed → ∀ a ∈ c.antecedents, a ∈ goBack cs seed := by
  induction cs with
  | nil => exact fun c hc => absurd hc List.not_mem_nil
  | cons d cs ih =>
      obtain ⟨hd, hsorted⟩ := List.pairwise_cons.mp hsorted
      have hself := hbefore d List.mem_cons_self
      intro c hc hi a ha
      rcases goBack_cons.mp hi with hi' | ⟨-, hlt⟩
      · rcases List.mem_cons.mp hc with rfl | hc
        · exact goBack_cons.mpr (.inr ⟨hi', ha⟩)
        · refine goBack_cons.mpr (.inl (ih hsorted ?_ c hc hi' a ha))
          exact fun e he => hbefore e (List.mem_cons_of_mem d he)
      · have hlt := hself _ hlt
        rcases List.mem_cons.mp hc with rfl | hc
        · exact absurd hlt (Nat.lt_irrefl _)
        · exact absurd (hd c hc) (Nat.lt_asymm hlt)

theorem mem_backwardReachable_of_mem {seed : ClauseSet} {i : Nat} (h : i ∈ seed) :
    i ∈ t.backwardReachable seed := mem_goBack_of_mem h

theorem closed_backwardReachable (ht : t.WellFormed) (seed : ClauseSet) :
    t.Closed (· ∈ t.backwardReachable seed) := by
  intro i c hc hi
  have hi' : c.index ∈ t.backwardReachable seed := by rwa [ht.index_eq hc]
  refine antecedent_mem_goBack (index_lt_of_lt ht) (fun d hd a ha => ?_) c
    (mem_clauses_iff.mpr ⟨i, hc⟩) hi'
  obtain ⟨j, hj⟩ := mem_clauses_iff.mp hd
  rw [ht.index_eq hj]
  exact ht.antecedent_lt hj a ha

/-- Every closed set with the seed in it has everything that is reached. -/
theorem of_mem_backwardReachable (ht : t.WellFormed) {P : Nat → Prop} (hP : t.Closed P)
    {seed : ClauseSet} (hseed : ∀ i ∈ seed, P i) : ∀ i ∈ t.backwardReachable seed, P i := by
  have hall : ∀ cs : List TraceClause, (∀ c ∈ cs, c ∈ t.clauses.toList) →
      ∀ i ∈ goBack cs seed, P i := by
    intro cs
    induction cs with
    | nil => exact fun _ => hseed
    | cons c cs ih =>
        intro hcs i hi
        have ih := ih fun d hd => hcs d (List.mem_cons_of_mem c hd)
        rcases goBack_cons.mp hi with hi | ⟨hc, hi⟩
        · exact ih i hi
        · obtain ⟨j, hj⟩ := mem_clauses_iff.mp (hcs c List.mem_cons_self)
          exact hP (ht.get?_index hj) (ih _ hc) i hi
  exact hall _ fun _ => id

/-! ### The core -/

theorem mem_core {i : Nat} :
    i ∈ t.core ↔ i ∈ t.backwardReachable (.ofList [t.terminal]) ∧ i < t.numAxioms := by
  simp [core, isAxiom]

/-- Every closed set with the terminal clause in it has the core. -/
theorem of_mem_core (ht : t.WellFormed) {P : Nat → Prop} (hP : t.Closed P) (h : P t.terminal) :
    ∀ i ∈ t.core, P i := by
  intro i hi
  refine of_mem_backwardReachable ht hP (fun j hj => ?_) i (mem_core.mp hi).1
  obtain rfl : j = t.terminal := by simpa using hj
  exact h

/-- **Nothing satisfies the core of a refutation.** -/
theorem IsRefutation.exists_mem_core (h : t.IsRefutation) (f : Valuation) :
    ∃ i ∈ t.core, ∃ c, t.get? i = some c ∧ ¬ f.Satisfies c.clause.literals := by
  refine Classical.byContradiction fun hno => ?_
  obtain ⟨c, hc, hempty⟩ := h.endsEmpty
  have hterm : t.terminal ∈ t.backwardReachable (.ofList [t.terminal]) :=
    mem_backwardReachable_of_mem (by simp)
  have hcore : ∀ {i c}, t.get? i = some c → i < t.numAxioms →
      i ∈ t.backwardReachable (.ofList [t.terminal]) → f.Satisfies c.clause.literals := by
    intro i c hc hi hr
    exact Classical.byContradiction fun hf => hno ⟨i, mem_core.mpr ⟨hr, hi⟩, c, hc, hf⟩
  have hclosed := closed_backwardReachable h.wellFormed (.ofList [t.terminal])
  have hsat := h.isSound.satisfies_of_closed h.wellFormed hclosed hcore hc hterm
  rw [hempty] at hsat
  exact Valuation.not_satisfies_nil hsat

theorem mem_inputs_iff {c : TraceClause} :
    c ∈ t.inputs ↔ ∃ i, i < t.numAxioms ∧ t.get? i = some c := by
  unfold inputs
  rw [List.mem_iff_getElem?]
  constructor
  · rintro ⟨i, hi⟩
    rw [List.getElem?_take] at hi
    split at hi
    next hlt => exact ⟨i, hlt, by rwa [Array.getElem?_toList] at hi⟩
    next => cases hi
  · rintro ⟨i, hlt, hi⟩
    refine ⟨i, ?_⟩
    rw [List.getElem?_take, if_pos hlt, Array.getElem?_toList]
    exact hi

/-- Clauses at one position are one clause. -/
theorem eq_of_index_eq (ht : t.WellFormed) {c d : TraceClause} (hc : c ∈ t.inputs)
    (hd : d ∈ t.inputs) (h : c.index = d.index) : c = d := by
  obtain ⟨i, -, hgetc⟩ := mem_inputs_iff.mp hc
  obtain ⟨j, -, hgetd⟩ := mem_inputs_iff.mp hd
  have hgetc' := ht.get?_index hgetc
  rw [h] at hgetc'
  exact Option.some.inj (hgetc'.symm.trans (ht.get?_index hgetd))

theorem getElem?_inputs_eq_some_iff (ht : t.WellFormed) {i : Nat}
    {c : TraceClause} : t.inputs[i]? = some c ↔ c ∈ t.inputs ∧ c.index = i := by
  have hget : ∀ {i : Nat} {c : TraceClause}, t.inputs[i]? = some c → c.index = i := by
    intro i c h
    rw [inputs, List.getElem?_take] at h
    split at h
    next => exact ht.index_eq (by rwa [Array.getElem?_toList] at h)
    next => cases h
  constructor
  · exact fun h => ⟨List.mem_of_getElem? h, hget h⟩
  · rintro ⟨hmem, rfl⟩
    obtain ⟨j, hj⟩ := List.mem_iff_getElem?.mp hmem
    rwa [hget hj]

/-- Nothing satisfies all input clauses of a refutation. -/
theorem IsRefutation.not_forall_inputs (h : t.IsRefutation) (f : Valuation) :
    ¬ ∀ c ∈ t.inputs, f.Satisfies c.clause.literals := by
  intro hall
  obtain ⟨i, hi, c, hc, hf⟩ := h.exists_mem_core f
  exact hf (hall c (mem_inputs_iff.mpr ⟨i, (mem_core.mp hi).2, hc⟩))

/-! ### Learning -/

/-- `s'` has the clauses of `s` and further derived clauses, whose antecedents are there if those of
`s` are. -/
structure Learns (t : Trace) (s s' : ClauseSet) : Prop where
  subset : ∀ i ∈ s, i ∈ s'
  derived : ∀ i ∈ s', i ∈ s ∨ t.numAxioms ≤ i ∧ i < t.size
  closed : t.Closed (· ∈ s) → t.Closed (· ∈ s')

theorem Learns.refl (s : ClauseSet) : t.Learns s s := ⟨fun _ => id, fun _ => .inl, id⟩

theorem Learns.trans {s s₁ s' : ClauseSet} (h : t.Learns s s₁) (h' : t.Learns s₁ s') :
    t.Learns s s' where
  subset i hi := h'.subset i (h.subset i hi)
  derived i hi := (h'.derived i hi).elim (h.derived i) .inr
  closed hs := h'.closed (h.closed hs)

theorem mem_derived_iff {c : TraceClause} :
    c ∈ t.derived ↔ ∃ i, t.numAxioms ≤ i ∧ t.get? i = some c := by
  unfold derived
  rw [List.mem_iff_getElem?]
  simp only [List.getElem?_drop, Array.getElem?_toList]
  constructor
  · rintro ⟨i, hi⟩; exact ⟨t.numAxioms + i, Nat.le_add_right _ _, hi⟩
  · rintro ⟨i, hle, hi⟩
    exact ⟨i - t.numAxioms, by rwa [Nat.add_sub_cancel' hle]⟩

/-- A derived clause may be added once its antecedents are there. -/
theorem Learns.insert (ht : t.WellFormed) {s s' : ClauseSet} {c : TraceClause} (h : t.Learns s s')
    (hc : c ∈ t.derived) (hs : ∀ a ∈ c.antecedents, a ∈ s') : t.Learns s (s'.insert c.index) := by
  obtain ⟨i, hle, hi⟩ := mem_derived_iff.mp hc
  rw [ht.index_eq hi]
  refine ⟨fun j hj => ?_, fun j hj => ?_, fun hclosed j d hd hj a ha => ?_⟩
  · exact IndexSet.mem_insert.mpr (.inr (h.subset j hj))
  · rcases IndexSet.mem_insert.mp hj with rfl | hj
    · exact .inr ⟨hle, get?_lt hi⟩
    · exact h.derived j hj
  · refine IndexSet.mem_insert.mpr (.inr ?_)
    rcases IndexSet.mem_insert.mp hj with rfl | hj
    · obtain rfl : c = d := Option.some.inj (hi.symm.trans hd)
      exact hs a ha
    · exact h.closed hclosed hd hj a ha

/-- Going through derived clauses and adding those that pass a test, which only clauses do whose
antecedents are there. -/
theorem learns_foldl (ht : t.WellFormed) {s s' : ClauseSet}
    {passes : ClauseSet → TraceClause → Bool}
    (hpasses : ∀ s' c, t.Learns s s' → passes s' c = true → ∀ a ∈ c.antecedents, a ∈ s')
    {cs : List TraceClause} (hcs : ∀ c ∈ cs, c ∈ t.derived) (h : t.Learns s s') :
    t.Learns s (cs.foldl (fun learned c => if passes learned c then learned.insert c.index
      else learned) s') := by
  induction cs generalizing s' with
  | nil => exact h
  | cons c cs ih =>
      rw [List.foldl_cons]
      refine ih (fun d hd => hcs d (List.mem_cons_of_mem c hd)) ?_
      split
      next hc => exact h.insert ht (hcs c List.mem_cons_self) (hpasses s' c h hc)
      next => exact h

theorem forall_mem_of_all_contains {s : ClauseSet} {is : List Nat}
    (h : is.all s.contains = true) : ∀ i ∈ is, i ∈ s := fun i hi =>
  IndexSet.contains_eq_true.mp (List.all_eq_true.mp h i hi)

theorem learns_learnable (ht : t.WellFormed) (s : ClauseSet) : t.Learns s (t.learnable s) :=
  learns_foldl ht (fun _ _ _ hc => forall_mem_of_all_contains hc) (fun _ => id) (.refl s)

theorem learns_directlyLearnable (ht : t.WellFormed) (s : ClauseSet) :
    t.Learns s (t.directlyLearnable s) :=
  learns_foldl ht (fun _ _ h hc a ha => h.subset a (forall_mem_of_all_contains hc a ha))
    (fun _ => id) (.refl s)

/-- **What the core needs.**  A set of input clauses from which the terminal clause is learned has
the whole core. -/
theorem Learns.mem_of_mem_core (ht : t.WellFormed) {s s' : ClauseSet} (h : t.Learns s s')
    (hs : ∀ i ∈ s, i < t.numAxioms) (hterm : t.terminal ∈ s') : ∀ i ∈ t.core, i ∈ s := by
  have hclosed : t.Closed (· ∈ s) := closed_of_lt_numAxioms ht hs
  intro i hi
  rcases h.derived i (of_mem_core ht (h.closed hclosed) hterm i hi) with hi' | ⟨hle, -⟩
  · exact hi'
  · exact absurd (mem_core.mp hi).2 (Nat.not_lt.mpr hle)

end Trace

end ModelFinder
