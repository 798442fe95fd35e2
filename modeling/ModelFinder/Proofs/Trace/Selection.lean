import Mathlib.Order.Bounds.Defs
import ModelFinder.Proofs.Trace.Reach

/-!
# The encoding of variables

Some variables are wanted.  The encoding of them is made of the input clauses whose largest
variable is wanted, and the other variables of these clauses are wanted with them
(`Trace.Wants`).  They are the least set that holds the variables given and, with the largest
variable of an input clause, all of its variables (`isLeast_wants`).

* `mem_axiomsFor`: `Trace.axiomsFor` selects these clauses and no others, in its one pass.
* `wants_union`: what two sets want together, one of them wants alone.
* `wants_iff_of_largestOnly`: a variable that occurs only as the largest one of a clause is wanted
  only from the start.
* `mem_coreUnits`: which variables the core asserts.
-/

namespace ModelFinder

/-! ### The largest variable -/

/-- The last literal of a clause has its largest variable. -/
theorem Clause.maxVariable?_eq_some {c : Clause} {v : Variable} (h : c.maxVariable? = some v) :
    (∃ l ∈ c, l.var = v) ∧ ∀ l ∈ c, l.var.index ≤ v.index := by
  obtain ⟨k, hk, rfl⟩ := Option.map_eq_some_iff.mp h
  obtain ⟨ls, hls⟩ := List.getLast?_eq_some_iff.mp hk
  have hmem : ∀ {l}, l ∈ c ↔ l ∈ ls ++ [k] := by rw [← hls]; exact Iff.rfl
  refine ⟨⟨k, hmem.mpr (by simp), rfl⟩, fun l hl => ?_⟩
  rcases List.mem_append.mp (hmem.mp hl) with hl | hl
  · have hsorted := c.sorted
    rw [hls, List.pairwise_append] at hsorted
    have hlt := hsorted.2.2 l hl k List.mem_cons_self
    have hbit := Bool.toNat_le k.positive
    simp only [Literal.rank] at hlt
    omega
  · obtain rfl := List.mem_singleton.mp hl
    exact Nat.le_refl _

/-- The variable of a unit clause is its largest one. -/
theorem Clause.maxVariable?_of_size_eq_one {c : Clause} (hsize : c.size = 1) {l : Literal}
    (hl : l ∈ c) : c.maxVariable? = some l.var := by
  obtain ⟨k, hk⟩ := List.length_eq_one_iff.mp hsize
  have hmem : l ∈ c.literals := hl
  rw [hk] at hmem
  obtain rfl := List.mem_singleton.mp hmem
  unfold maxVariable?
  rw [hk]
  rfl

theorem Clause.maxVariable?_ofList {ls : List Literal} {v : Variable} (hv : ∃ l ∈ ls, l.var = v)
    (hle : ∀ l ∈ ls, l.var.index ≤ v.index) : (Clause.ofList ls).maxVariable? = some v := by
  obtain ⟨l, hl, rfl⟩ := hv
  cases h : (Clause.ofList ls).maxVariable? with
  | none =>
      have hnil := List.getLast?_eq_none_iff.mp (Option.map_eq_none_iff.mp h)
      have hmem : l ∈ (Clause.ofList ls).literals := Clause.mem_ofList.mpr hl
      rw [hnil] at hmem
      exact absurd hmem List.not_mem_nil
  | some w =>
      obtain ⟨⟨k, hk, rfl⟩, hmax⟩ := Clause.maxVariable?_eq_some h
      have hkl := hle k (Clause.mem_ofList.mp hk)
      have hlk := hmax l (Clause.mem_ofList.mpr hl)
      rw [Variable.ext_index (Nat.le_antisymm hkl hlk)]

namespace Trace

variable {t : Trace}

/-- The variables wanted from the start, and those of every input clause whose largest variable is
wanted. -/
inductive Wants (t : Trace) (seed : VariableSet) : Nat → Prop
  | seed {n : Nat} (mem : n ∈ seed) : Wants t seed n
  | clause {v : Variable} {c : TraceClause} {n : Nat} (wanted : Wants t seed v.index)
      (given : c ∈ t.inputs) (largest : c.clause.maxVariable? = some v)
      (mem : n ∈ c.variableNumbers) : Wants t seed n

/-! ### The pass -/

/-- What the pass makes of clauses that come with their largest variable: the variables wanted and
the clauses taken in the end. -/
def select : List (Variable × TraceClause) → VariableSet → ClauseSet → VariableSet × ClauseSet
  | [], wanted, taken => (wanted, taken)
  | (v, c) :: cs, wanted, taken =>
    if wanted.contains v.index then
      select cs (wanted.insertAll c.variableNumbers) (taken.insert c.index)
    else select cs wanted taken

theorem axiomsFor_eq_select (t : Trace) (wanted : VariableSet) :
    t.axiomsFor wanted = (select t.byLargestVariable wanted ∅).2 := by
  have hall : ∀ (cs : List (Variable × TraceClause)) (wanted : VariableSet) (taken : ClauseSet),
      cs.foldl (fun s a =>
        if s.1.contains a.1.index then (s.1.insertAll a.2.variableNumbers, s.2.insert a.2.index)
        else (s.1, s.2)) (wanted, taken) = select cs wanted taken := by
    intro cs
    induction cs with
    | nil => exact fun _ _ => rfl
    | cons a cs ih =>
        obtain ⟨v, c⟩ := a
        intro wanted taken
        unfold select
        by_cases hv : v.index ∈ wanted
        · simpa [hv] using ih (wanted.insertAll c.variableNumbers) (taken.insert c.index)
        · simpa [hv] using ih wanted taken
  exact congrArg Prod.snd (hall _ wanted ∅)

/-- Clauses with their largest variable, those with the larger variable first. -/
structure Descending (cs : List (Variable × TraceClause)) : Prop where
  sorted : cs.Pairwise fun a b => b.1.index ≤ a.1.index
  largest : ∀ a ∈ cs, ∀ n ∈ a.2.variableNumbers, n ≤ a.1.index

section Select

variable {cs : List (Variable × TraceClause)} {v : Variable} {c : TraceClause}
  {wanted : VariableSet} {taken : ClauseSet} {n : Nat}

theorem select_cons_of_mem (h : v.index ∈ wanted) : select ((v, c) :: cs) wanted taken =
    select cs (wanted.insertAll c.variableNumbers) (taken.insert c.index) := by
  rw [select, if_pos (IndexSet.contains_eq_true.mpr h)]

theorem select_cons_of_not_mem (h : v.index ∉ wanted) :
    select ((v, c) :: cs) wanted taken = select cs wanted taken := by
  rw [select, if_neg (fun hc => h (IndexSet.contains_eq_true.mp hc))]

theorem Descending.tail {a : Variable × TraceClause} (h : Descending (a :: cs)) : Descending cs :=
  ⟨h.sorted.of_cons, fun b hb => h.largest b (List.mem_cons_of_mem a hb)⟩

theorem mem_select_of_mem :
    (∀ n ∈ wanted, n ∈ (select cs wanted taken).1) ∧
      ∀ i ∈ taken, i ∈ (select cs wanted taken).2 := by
  induction cs generalizing wanted taken with
  | nil => exact ⟨fun _ => id, fun _ => id⟩
  | cons a cs ih =>
      obtain ⟨v, c⟩ := a
      by_cases hv : v.index ∈ wanted
      · rw [select_cons_of_mem hv]
        exact ⟨fun n h => ih.1 n (by simp [h]), fun i h => ih.2 i (by simp [h])⟩
      · rw [select_cons_of_not_mem hv]
        exact ih

/-- What is not wanted when the pass is at it or below is not wanted in the end. -/
theorem not_mem_select (h : Descending cs) (hle : ∀ a ∈ cs, a.1.index ≤ n) (hn : n ∉ wanted) :
    n ∉ (select cs wanted taken).1 := by
  induction cs generalizing wanted taken with
  | nil => exact hn
  | cons a cs ih =>
      obtain ⟨v, c⟩ := a
      have hle' := fun b hb => hle b (List.mem_cons_of_mem (v, c) hb)
      by_cases hv : v.index ∈ wanted
      · rw [select_cons_of_mem hv]
        refine ih h.tail hle' fun hmem => ?_
        rcases IndexSet.mem_insertAll.mp hmem with hmem | hmem
        · -- `n` is at most the largest variable of the clause, which is not `n` as it is wanted
          have hn' := h.largest (v, c) List.mem_cons_self n hmem
          have hv' := hle (v, c) List.mem_cons_self
          exact hn (Nat.le_antisymm hn' hv' ▸ hv)
        · exact hn hmem
      · rw [select_cons_of_not_mem hv]
        exact ih h.tail hle' hn

/-- Every clause whose largest variable is wanted in the end has been taken. -/
theorem taken_of_mem_select (h : Descending cs) (hmem : (v, c) ∈ cs)
    (hv : v.index ∈ (select cs wanted taken).1) :
    c.index ∈ (select cs wanted taken).2 ∧
      ∀ n ∈ c.variableNumbers, n ∈ (select cs wanted taken).1 := by
  induction cs generalizing wanted taken with
  | nil => exact absurd hmem List.not_mem_nil
  | cons a cs ih =>
      obtain ⟨w, d⟩ := a
      by_cases hw : w.index ∈ wanted
      · rw [select_cons_of_mem hw] at hv ⊢
        rcases List.mem_cons.mp hmem with e | hmem
        · cases e
          exact ⟨mem_select_of_mem.2 _ (by simp), fun n hn => mem_select_of_mem.1 n (by simp [hn])⟩
        · exact ih h.tail hmem hv
      · rw [select_cons_of_not_mem hw] at hv ⊢
        rcases List.mem_cons.mp hmem with e | hmem
        · cases e
          have hle := (List.pairwise_cons.mp h.sorted).1
          exact absurd hv (not_mem_select h.tail hle hw)
        · exact ih h.tail hmem hv

/-- What holds of the variables wanted so far and is passed on by the clauses holds of all that are
wanted in the end. -/
theorem of_mem_select {P : Nat → Prop} (taken : ClauseSet) (hw : ∀ n ∈ wanted, P n)
    (hpass : ∀ a ∈ cs, P a.1.index → ∀ n ∈ a.2.variableNumbers, P n) :
    (∀ n ∈ (select cs wanted taken).1, P n) ∧
      ∀ i ∈ (select cs wanted taken).2, i ∈ taken ∨ ∃ a ∈ cs, P a.1.index ∧ a.2.index = i := by
  induction cs generalizing wanted taken with
  | nil => exact ⟨hw, fun i hi => .inl hi⟩
  | cons a cs ih =>
      obtain ⟨v, c⟩ := a
      have hpass' := fun b hb => hpass b (List.mem_cons_of_mem (v, c) hb)
      by_cases hv : v.index ∈ wanted
      · rw [select_cons_of_mem hv]
        have hw' : ∀ n ∈ wanted.insertAll c.variableNumbers, P n := fun n hn =>
          (IndexSet.mem_insertAll.mp hn).elim (hpass (v, c) List.mem_cons_self (hw _ hv) n) (hw n)
        obtain ⟨hP, htaken⟩ := ih (taken.insert c.index) hw' hpass'
        refine ⟨hP, fun i hi => ?_⟩
        rcases htaken i hi with hi | ⟨b, hb, hPb⟩
        · rcases IndexSet.mem_insert.mp hi with rfl | hi
          · exact .inr ⟨(v, c), List.mem_cons_self, hw _ hv, rfl⟩
          · exact .inl hi
        · exact .inr ⟨b, List.mem_cons_of_mem _ hb, hPb⟩
      · rw [select_cons_of_not_mem hv]
        obtain ⟨hP, htaken⟩ := ih taken hw hpass'
        refine ⟨hP, fun i hi => (htaken i hi).imp_right fun ⟨b, hb, hPb⟩ => ?_⟩
        exact ⟨b, List.mem_cons_of_mem _ hb, hPb⟩

end Select

/-! ### The selection -/

theorem mem_byLargestVariable {v : Variable} {c : TraceClause} :
    (v, c) ∈ t.byLargestVariable ↔ c ∈ t.inputs ∧ c.clause.maxVariable? = some v := by
  unfold byLargestVariable
  rw [List.mem_mergeSort, List.mem_filterMap]
  constructor
  · rintro ⟨d, hd, h⟩
    obtain ⟨w, hw, e⟩ := Option.map_eq_some_iff.mp h
    cases e
    exact ⟨hd, hw⟩
  · rintro ⟨hc, hv⟩
    exact ⟨c, hc, by rw [hv]; rfl⟩

/-- The order of the pass. -/
def largestFirst (a b : Variable × TraceClause) : Bool := decide (b.1.index ≤ a.1.index)

theorem largestFirst_trans (a b c : Variable × TraceClause) (hab : largestFirst a b = true)
    (hbc : largestFirst b c = true) : largestFirst a c = true :=
  decide_eq_true (Nat.le_trans (of_decide_eq_true hbc) (of_decide_eq_true hab))

theorem largestFirst_total (a b : Variable × TraceClause) :
    (largestFirst a b || largestFirst b a) = true := by
  rcases Nat.le_total b.1.index a.1.index with h | h
  · simp [largestFirst, h]
  · simp [largestFirst, h]

theorem descending_byLargestVariable : Descending t.byLargestVariable := by
  refine ⟨?_, fun ⟨v, c⟩ ha n hn => ?_⟩
  · have hsorted : t.byLargestVariable.Pairwise fun a b => largestFirst a b = true :=
      List.pairwise_mergeSort largestFirst_trans largestFirst_total _
    exact hsorted.imp fun h => of_decide_eq_true h
  · obtain ⟨l, hl, rfl⟩ := List.mem_map.mp hn
    exact (Clause.maxVariable?_eq_some (mem_byLargestVariable.mp ha).2).2 l hl

/-- **The pass selects the encoding of the wanted variables.** -/
theorem mem_axiomsFor {seed : VariableSet} {i : Nat} : i ∈ t.axiomsFor seed ↔
    ∃ c v, c ∈ t.inputs ∧ c.index = i ∧ c.clause.maxVariable? = some v ∧ t.Wants seed v.index := by
  rw [axiomsFor_eq_select]
  have hwants := of_mem_select (P := t.Wants seed) ∅ (fun _ => .seed) fun a ha hP n hn =>
    .clause hP (mem_byLargestVariable.mp ha).1 (mem_byLargestVariable.mp ha).2 hn
  constructor
  · intro hi
    rcases hwants.2 i hi with hi | ⟨⟨v, c⟩, hc, hv, rfl⟩
    · exact absurd hi IndexSet.not_mem_empty
    · obtain ⟨hc, hmax⟩ := mem_byLargestVariable.mp hc
      exact ⟨c, v, hc, rfl, hmax, hv⟩
  · rintro ⟨c, v, hc, rfl, hmax, hv⟩
    have hin : ∀ n, t.Wants seed n → n ∈ (select t.byLargestVariable seed ∅).1 := by
      intro n hn
      induction hn with
      | seed hn => exact mem_select_of_mem.1 _ hn
      | clause _ given largest hn ih =>
          have hmem := mem_byLargestVariable.mpr ⟨given, largest⟩
          exact (taken_of_mem_select descending_byLargestVariable hmem ih).2 _ hn
    have hmem := mem_byLargestVariable.mpr ⟨hc, hmax⟩
    exact (taken_of_mem_select descending_byLargestVariable hmem (hin _ hv)).1

/-- Whether an input clause is selected is told by its largest variable. -/
theorem index_mem_axiomsFor (ht : t.WellFormed) {seed : VariableSet} {c : TraceClause}
    {v : Variable} (hc : c ∈ t.inputs) (hmax : c.clause.maxVariable? = some v) :
    c.index ∈ t.axiomsFor seed ↔ t.Wants seed v.index := by
  rw [mem_axiomsFor]
  constructor
  · rintro ⟨d, w, hd, hindex, hmax', hwants⟩
    obtain rfl := eq_of_index_eq ht hd hc hindex
    obtain rfl := Option.some.inj (hmax.symm.trans hmax')
    exact hwants
  · exact fun hwants => ⟨c, v, hc, rfl, hmax, hwants⟩

/-- Only input clauses are selected. -/
theorem lt_of_mem_axiomsFor (ht : t.WellFormed) {seed : VariableSet} {i : Nat}
    (h : i ∈ t.axiomsFor seed) : i < t.numAxioms := by
  obtain ⟨c, v, hc, rfl, -, -⟩ := mem_axiomsFor.mp h
  obtain ⟨j, hj, hget⟩ := mem_inputs_iff.mp hc
  rw [ht.index_eq hget]
  exact hj

/-! ### The least closed set -/

/-- With the largest variable of an input clause, all variables of the clause are in the set. -/
def DownClosed (t : Trace) (r : Set Nat) : Prop :=
  ∀ c ∈ t.inputs, ∀ n ∈ r, IsGreatest {m | m ∈ c.variableNumbers} n →
    ∀ m ∈ c.variableNumbers, m ∈ r

theorem isGreatest_variableNumbers_iff {c : TraceClause} {n : Nat} :
    IsGreatest {m | m ∈ c.variableNumbers} n ↔ ∃ v, c.clause.maxVariable? = some v ∧ v.index = n := by
  constructor
  · rintro ⟨hn, hmax⟩
    obtain ⟨l, hl, rfl⟩ := List.mem_map.mp hn
    have hle : ∀ k ∈ c.clause.literals, k.var.index ≤ l.var.index := fun k hk =>
      hmax (List.mem_map.mpr ⟨k, hk, rfl⟩)
    refine ⟨l.var, ?_, rfl⟩
    rw [← Clause.ofList_literals c.clause]
    exact Clause.maxVariable?_ofList ⟨l, hl, rfl⟩ hle
  · rintro ⟨v, hv, rfl⟩
    obtain ⟨⟨l, hl, rfl⟩, hmax⟩ := Clause.maxVariable?_eq_some hv
    refine ⟨List.mem_map.mpr ⟨l, hl, rfl⟩, fun m hm => ?_⟩
    obtain ⟨k, hk, rfl⟩ := List.mem_map.mp hm
    exact hmax k hk

theorem isLeast_wants (t : Trace) (seed : VariableSet) :
    IsLeast {r : Set Nat | (∀ n ∈ seed, n ∈ r) ∧ t.DownClosed r} {n | t.Wants seed n} := by
  refine ⟨⟨fun n hn => .seed hn, fun c hc n hn hmax m hm => ?_⟩, fun r ⟨hseed, hclosed⟩ n hn => ?_⟩
  · obtain ⟨v, hv, rfl⟩ := isGreatest_variableNumbers_iff.mp hmax
    exact .clause hn hc hv hm
  · induction hn with
    | seed hn => exact hseed _ hn
    | clause _ given largest hn ih =>
        exact hclosed _ given _ ih (isGreatest_variableNumbers_iff.mpr ⟨_, largest, rfl⟩) _ hn

/-- The input clauses whose largest variable is wanted are selected. -/
theorem mem_axiomsFor_iff (ht : t.WellFormed) {seed : VariableSet} {i : Nat} :
    i ∈ t.axiomsFor seed ↔ i < t.numAxioms ∧ ∃ c n, t.get? i = some c ∧ t.Wants seed n ∧
      IsGreatest {m | m ∈ c.variableNumbers} n := by
  constructor
  · intro hi
    refine ⟨lt_of_mem_axiomsFor ht hi, ?_⟩
    obtain ⟨c, v, hc, rfl, hmax, hv⟩ := mem_axiomsFor.mp hi
    obtain ⟨j, -, hj⟩ := mem_inputs_iff.mp hc
    refine ⟨c, v.index, ?_, hv, isGreatest_variableNumbers_iff.mpr ⟨v, hmax, rfl⟩⟩
    rw [ht.index_eq hj]
    exact hj
  · rintro ⟨hlt, c, n, hc, hn, hmax⟩
    obtain ⟨v, hv, rfl⟩ := isGreatest_variableNumbers_iff.mp hmax
    exact mem_axiomsFor.mpr ⟨c, v, mem_inputs_iff.mpr ⟨i, hlt, hc⟩, ht.index_eq hc, hv, hn⟩

theorem Wants.mono {seed seed' : VariableSet} (h : ∀ n ∈ seed, n ∈ seed') {n : Nat}
    (hn : t.Wants seed n) : t.Wants seed' n := by
  induction hn with
  | seed hn => exact .seed (h _ hn)
  | clause _ given largest hn ih => exact .clause ih given largest hn

/-- What two sets want together, one of them wants alone: a clause passes on what one variable,
its largest one, wants. -/
theorem wants_union {seed seed' : VariableSet} {n : Nat} :
    t.Wants (seed.union seed') n ↔ t.Wants seed n ∨ t.Wants seed' n := by
  constructor
  · intro hn
    induction hn with
    | seed hn => exact (IndexSet.mem_union.mp hn).imp .seed .seed
    | clause _ given largest hn ih =>
        exact ih.imp (.clause · given largest hn) (.clause · given largest hn)
  · rintro (hn | hn)
    · exact hn.mono fun _ h => IndexSet.mem_union.mpr (.inl h)
    · exact hn.mono fun _ h => IndexSet.mem_union.mpr (.inr h)

theorem axiomsFor_union (t : Trace) (seed seed' : VariableSet) :
    t.axiomsFor (seed.union seed') = (t.axiomsFor seed).union (t.axiomsFor seed') := by
  refine IndexSet.ext_mem fun i => ?_
  rw [IndexSet.mem_union, mem_axiomsFor, mem_axiomsFor, mem_axiomsFor]
  simp only [wants_union, and_or_left, exists_or]

theorem axiomsFor_mono {seed seed' : VariableSet} (h : ∀ n ∈ seed, n ∈ seed') :
    ∀ i ∈ t.axiomsFor seed, i ∈ t.axiomsFor seed' := by
  intro i hi
  obtain ⟨c, v, hc, hindex, hmax, hv⟩ := mem_axiomsFor.mp hi
  exact mem_axiomsFor.mpr ⟨c, v, hc, hindex, hmax, hv.mono h⟩

/-- **The selection is a closure.**  The wanted variables are the least set that holds the variables
given and, with the largest variable of an input clause, all variables of the clause; selected are
the input clauses whose largest variable is wanted, so never an empty one.  Hence more is selected
for more variables, and for two sets together no more than for each of them. -/
theorem axiomsFor_closure (ht : t.WellFormed) (seed seed' : VariableSet) :
    (∃ r : Set Nat, IsLeast {r : Set Nat | (∀ n ∈ seed, n ∈ r) ∧ t.DownClosed r} r ∧
      ∀ i, i ∈ t.axiomsFor seed ↔ i < t.numAxioms ∧
        ∃ c, t.get? i = some c ∧ ∃ n ∈ r, IsGreatest {m | m ∈ c.variableNumbers} n) ∧
    (∀ i ∈ t.axiomsFor seed, ∀ c, t.get? i = some c → c.clause ≠ .empty) ∧
    ((∀ n ∈ seed, n ∈ seed') → ∀ i ∈ t.axiomsFor seed, i ∈ t.axiomsFor seed') ∧
    t.axiomsFor (seed.union seed') = (t.axiomsFor seed).union (t.axiomsFor seed') := by
  refine ⟨⟨{n | t.Wants seed n}, isLeast_wants t seed, fun i => ?_⟩, fun i hi c hc => ?_,
    axiomsFor_mono, axiomsFor_union t seed seed'⟩
  · rw [mem_axiomsFor_iff ht]
    exact and_congr_right fun _ => exists_congr fun c => exists_and_left
  · obtain ⟨-, d, n, hd, -, hn, -⟩ := (mem_axiomsFor_iff ht).mp hi
    obtain rfl : d = c := Option.some.inj (hd.symm.trans hc)
    rintro hempty
    obtain ⟨l, hl, -⟩ := List.mem_map.mp hn
    rw [hempty] at hl
    exact absurd hl List.not_mem_nil

/-- A refutation whose input clauses encode three variables, and a fourth one of which it makes no
use. -/
def threeVariables : Trace :=
  let clause (codes : List Int) : Clause := .ofList (codes.filterMap Literal.ofDimacs?)
  ⟨#[⟨0, clause [-2, -1], []⟩, ⟨1, clause [1], []⟩, ⟨2, clause [-3, 2], []⟩, ⟨3, clause [3], []⟩,
    ⟨4, clause [4, -1], []⟩, ⟨5, clause [2], [2, 3]⟩, ⟨6, clause [-1], [0, 5]⟩,
    ⟨7, .empty, [1, 6]⟩], 5⟩

/-- The third variable wants the second one, and that the first one.  None of them wants the fourth,
which is larger. -/
theorem axiomsFor_closure_three_variables :
    threeVariables.WellFormed ∧ 1 ∈ threeVariables.axiomsFor (.ofList [3]) ∧
      4 ∉ threeVariables.axiomsFor (.ofList [3]) ∧
      threeVariables.axiomsFor ((IndexSet.ofList [4]).union (.ofList [2])) =
        (threeVariables.axiomsFor (.ofList [4])).union (threeVariables.axiomsFor (.ofList [2])) := by
  have ht : threeVariables.WellFormed := by decide
  obtain ⟨⟨r, ⟨⟨hseed, hclosed⟩, hleast⟩, hr⟩, -⟩ := axiomsFor_closure ht (.ofList [3]) ∅
  have hthree : IsGreatest {m | m ∈ threeVariables.clauses[2].variableNumbers} 3 :=
    isGreatest_variableNumbers_iff.mpr ⟨_, rfl, rfl⟩
  have htwo : IsGreatest {m | m ∈ threeVariables.clauses[0].variableNumbers} 2 :=
    isGreatest_variableNumbers_iff.mpr ⟨_, rfl, rfl⟩
  have hone : IsGreatest {m | m ∈ threeVariables.clauses[1].variableNumbers} 1 :=
    isGreatest_variableNumbers_iff.mpr ⟨_, rfl, rfl⟩
  refine ⟨ht, (hr 1).mpr ⟨by decide, _, rfl, 1, ?_, hone⟩, fun h => ?_,
    (axiomsFor_closure ht (.ofList [4]) (.ofList [2])).2.2.2⟩
  · have h := hclosed _ (by decide) 3 (hseed 3 (by decide)) hthree 2 (by decide)
    exact hclosed _ (by decide) 2 h htwo 1 (by decide)
  · have hle : r ⊆ {n | n ≤ 3} := by
      refine hleast ⟨fun n hn => ?_, fun c _ n hn hmax m hm => Nat.le_trans (hmax.2 hm) hn⟩
      exact Nat.le_of_eq (by simpa using hn)
    obtain ⟨-, c, hc, n, hn, hmax⟩ := (hr 4).mp h
    obtain rfl : threeVariables.clauses[4] = c := Option.some.inj hc
    have hfour : 4 ∈ threeVariables.clauses[4].variableNumbers := by decide
    exact absurd (Nat.le_trans (hmax.2 hfour) (hle hn)) (by decide)

/-! ### Variables that want nothing -/

/-- The variable occurs in an input clause only as its largest one. -/
def LargestOnly (t : Trace) (n : Nat) : Prop :=
  ∀ c ∈ t.inputs, n ∈ c.variableNumbers → ∃ v, c.clause.maxVariable? = some v ∧ v.index = n

/-- Such a variable is wanted only if it is from the start. -/
theorem wants_iff_of_largestOnly {seed : VariableSet} {n : Nat} (h : t.LargestOnly n) :
    t.Wants seed n ↔ n ∈ seed := by
  constructor
  · intro hn
    induction hn with
    | seed hn => exact hn
    | clause _ given largest hn ih =>
        obtain ⟨w, hw, rfl⟩ := h _ given hn
        obtain rfl := Option.some.inj (largest.symm.trans hw)
        exact ih h
  · exact .seed

/-- What is selected without a variable that only occurs as the largest one does not mention it. -/
theorem not_mem_variableNumbers_of_mem_axiomsFor (ht : t.WellFormed) {n : Nat}
    (hn : t.LargestOnly n) {seed : VariableSet} (hseed : n ∉ seed) {i : Nat} {c : TraceClause}
    (hi : i ∈ t.axiomsFor seed) (hc : t.get? i = some c) : n ∉ c.variableNumbers := by
  obtain ⟨d, v, hd, hindex, hmax, hwants⟩ := mem_axiomsFor.mp hi
  obtain ⟨j, -, hj⟩ := mem_inputs_iff.mp hd
  obtain rfl : j = i := (ht.index_eq hj).symm.trans hindex
  obtain rfl : d = c := Option.some.inj (hj.symm.trans hc)
  intro hmem
  obtain ⟨w, hw, rfl⟩ := hn d hd hmem
  obtain rfl : v = w := Option.some.inj (hmax.symm.trans hw)
  exact hseed ((wants_iff_of_largestOnly hn).mp hwants)

/-! ### Unit clauses of the core -/

theorem mem_coreUnits {n : Nat} : n ∈ t.coreUnits ↔ ∃ i ∈ t.core, ∃ c v, t.get? i = some c ∧
    c.clause.size = 1 ∧ c.clause.maxVariable? = some v ∧ v.index = n := by
  unfold coreUnits
  rw [IndexSet.mem_ofList, List.mem_filterMap]
  refine exists_congr fun i => and_congr_right fun _ => ?_
  cases h : t.get? i with
  | none => simp
  | some c =>
      by_cases hsize : c.clause.size = 1
      · simp [hsize]
      · simp [hsize]

end Trace

end ModelFinder
