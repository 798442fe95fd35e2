import ModelFinder.Proofs.Dimacs.Encoding

/-!
# Cores of guarded clauses

A core of an instance without annotations names clauses of it: the root of the clause at position
`i` of an instance with `n` variables is the variable `n + i + 1`, called `clause` and the number
`i + 1` (`Reports`).

* `Guards.not_satisfiableAt`: the clauses that a core names have no model.
* `Guards.satisfiableAt_of_necessary`: without a clause whose root is necessary they have one.
-/

namespace ModelFinder.Dimacs

/-- The root of the clause at a position of an instance with `n` variables. -/
def clauseRoot? (n i : Nat) : Option Constraint :=
  (Variable.ofIndex? (n + i + 1)).map fun v => .root v s!"clause {i + 1}"

/-- The core names the clauses at these positions. -/
structure Reports (content : AnnotatedCnf) (core : UnsatCore logic) (positions : List Nat) :
    Prop where
  increasing : positions.Pairwise (· < ·)
  lt_length : ∀ i ∈ positions, i < content.clauses.length
  indices_eq : core.rootVariables.map (·.index) = positions.map (content.numVariables + · + 1)
  roots_eq : core.roots.map some = positions.map (clauseRoot? content.numVariables)

namespace Encoding

open Reduction (Invariant Necessary)

variable {content : AnnotatedCnf} {gs : List (Guard content.numVariables)} {t : Trace}
  {units : VariableSet}

/-- The guards whose selectors are among some units. -/
def assertedBy (gs : List (Guard content.numVariables)) (units : VariableSet) :
    List (Guard content.numVariables) := gs.filter fun g => units.contains g.selector.index

theorem mem_assertedBy {g : Guard content.numVariables} :
    g ∈ assertedBy gs units ↔ g ∈ gs ∧ g.selector.index ∈ units := by
  rw [assertedBy, List.mem_filter, IndexSet.contains_eq_true]

theorem Guards.reports (h : Guards content gs) {core : UnsatCore logic}
    (hcore : CoreOf (guardedBy gs).log t core) :
    Reports content core ((assertedBy gs t.coreUnits).map (·.position)) := by
  have hvariables : core.rootVariables = (assertedBy gs t.coreUnits).map (·.selector) := by
    rw [hcore.rootVariables_eq, h.rootVars_eq, List.filter_map]
    rfl
  have hsub : ((assertedBy gs t.coreUnits).map (·.position)).Sublist
      (List.range content.clauses.length) := by
    rw [← h.positions_eq]
    exact List.filter_sublist.map _
  refine ⟨List.pairwise_lt_range.sublist hsub, fun i hi => List.mem_range.mp (hsub.mem hi), ?_, ?_⟩
  · rw [hvariables, List.map_map, List.map_map]
    exact List.map_congr_left fun g _ => g.index_eq
  · rw [hcore.roots_eq, hvariables, List.map_map, List.map_map]
    refine List.map_congr_left fun g hg => ?_
    show (guardedBy gs).log.rootFormula? g.selector = clauseRoot? content.numVariables g.position
    rw [h.rootFormula?_eq (mem_assertedBy.mp hg).1, clauseRoot?, ← g.index_eq,
      Variable.ofIndex?_index]
    rfl

/-- **The clauses that a core names have no model.** -/
theorem Guards.not_satisfiableAt (h : Guards content gs) (hr : content.InRange)
    (hinv : Invariant (guardedBy gs).setting t) :
    ¬ content.SatisfiableAt ((assertedBy gs t.coreUnits).map (·.position)) := by
  rintro ⟨β, hβ⟩
  -- exactly the selectors that the core asserts are true
  let f := guarding content.numVariables β fun v => t.coreUnits.contains v.index
  obtain ⟨i, hi, c, hc, hf⟩ := hinv.isRefutation.exists_mem_core f
  have hinput := Trace.mem_inputs_iff.mpr ⟨i, (Trace.mem_core.mp hi).2, hc⟩
  obtain ⟨ls, hls, he⟩ := List.mem_map.mp (hinv.given c hinput)
  obtain ⟨g, hg, hls⟩ := mem_clauses.mp hls
  refine hf (he ▸ Valuation.satisfies_ofList.mpr ?_)
  have hmax := Guard.maxVariable?_eq (h.index_le hr hg) hls
  rcases Guard.mem_clauses.mp hls with rfl | rfl
  · -- the clause that asserts a selector is a unit clause, and it is in the core
    have hunit : g.selector.index ∈ t.coreUnits :=
      Trace.mem_coreUnits.mpr ⟨i, hi, c, g.selector, hc, he ▸ rfl, he ▸ hmax, rfl⟩
    exact satisfies_asserted (IndexSet.contains_eq_true.mpr hunit)
  · refine h.satisfies_guarding hr hg fun hon => ?_
    have hmem := mem_assertedBy.mpr ⟨hg, IndexSet.contains_eq_true.mp hon⟩
    exact hβ g.position (List.mem_map_of_mem hmem) g.codes (h.clause_eq hg)

/-- **A clause whose root is necessary is needed**: the other clauses have a model. -/
theorem Guards.satisfiableAt_of_necessary (h : Guards content gs) (hr : content.InRange)
    {g : Guard content.numVariables}
    (hnec : Necessary (guardedBy gs).setting units g.selector) :
    content.SatisfiableAt (((assertedBy gs units).map (·.position)).filter (· ≠ g.position)) := by
  obtain ⟨f, hf⟩ := hnec
  obtain ⟨β, rfl⟩ := Values.exists_valuation_eq f
  refine ⟨β, fun i hi codes hcodes => ?_⟩
  obtain ⟨hi, hne⟩ := List.mem_filter.mp hi
  obtain ⟨g', hg', rfl⟩ := List.mem_map.mp hi
  obtain ⟨hmem, hunit⟩ := mem_assertedBy.mp hg'
  rw [h.clause_eq hmem] at hcodes
  cases hcodes
  have hselector : g'.selector ≠ g.selector := fun e =>
    of_decide_eq_true hne (Guard.position_eq_of_selector_eq e)
  have hdefinition := hf g'.selector (.root ⟨⟨h.mem_roots hmem, hunit⟩, hselector⟩)
  refine Values.satisfies_valuation_iff.mp (Guard.satisfies_literals fun ls hls => ?_)
  refine Valuation.satisfies_ofList.mp (hdefinition (.ofList ls) ?_ ?_)
  · exact List.mem_map_of_mem (mem_clauses.mpr ⟨g', hmem, hls⟩)
  · exact Guard.maxVariable?_eq (h.index_le hr hmem) hls

end Encoding

end ModelFinder.Dimacs
