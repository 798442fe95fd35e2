import ModelFinder.Proofs.Dimacs.Encoding
import ModelFinder.Proofs.Reduction.Removal

/-!
# Roots of annotated instances are independent

An annotated instance is translated if its codes and its roots are numbers of variables
(`AnnotatedCnf.Representable`) and every root is the largest variable of the clauses in which it
occurs (`AnnotatedCnf.RootsLargest`), and is refused otherwise (`exists_translate_iff`).  Each check
looks at one clause (`checkRoots_eq_ok_iff`, `clause_eq_ok_iff`).  What they come to is told by the
encoding of variables: a root that is largest in its clauses is wanted only from the start, however
the other variables want each other, so no clause that is selected without it mentions it
(`roots_independent`).
-/

namespace ModelFinder

namespace Dimacs

namespace AnnotatedCnf

/-- The codes and the roots are numbers of variables. -/
structure Representable (content : AnnotatedCnf) : Prop where
  codes : ∀ codes ∈ content.clauses, ∀ code ∈ codes,
    1 ≤ code.natAbs ∧ code.natAbs ≤ Variable.maxIndex
  roots : ∀ root ∈ content.roots, 1 ≤ root.var ∧ root.var ≤ Variable.maxIndex

/-- A clause in which a root occurs has no larger variable. -/
def RootsLargest (content : AnnotatedCnf) : Prop :=
  ∀ codes ∈ content.clauses, ∀ root ∈ content.roots, ∀ code ∈ codes, root.var = code.natAbs →
    ∀ other ∈ codes, other.natAbs ≤ root.var

end AnnotatedCnf

namespace Encoding

open Session

variable {content : AnnotatedCnf} {roots : List RootAnnotation} {codes : List Int}
  {tr : Translation logic}

/-! ### Which instances are translated -/

theorem checkRoots_eq_ok_iff : checkRoots roots codes = .ok () ↔
    ∀ root ∈ roots, ∀ code ∈ codes, root.var = code.natAbs →
      ∀ other ∈ codes, other.natAbs ≤ root.var := by
  constructor
  · intro h root hroot code hcode he other hother
    rw [he, natAbs_eq_largest h hroot hcode he]
    exact natAbs_le_largest hother
  · intro h
    unfold checkRoots
    dsimp only
    split
    next code hfind =>
      have hcode := List.mem_of_find?_eq_some hfind
      have hmisplaced := List.find?_some hfind
      rw [Bool.and_eq_true, bne_iff_ne, List.any_eq_true] at hmisplaced
      obtain ⟨hne, root, hroot, he⟩ := hmisplaced
      rw [beq_iff_eq] at he
      -- the largest variable of the clause is a code of it, and at most the root
      have hle := natAbs_le_largest hcode
      have hpos : 0 < largest codes := by omega
      obtain ⟨other, hother, hlargest⟩ := exists_natAbs_eq_largest hpos
      have hle' := h root hroot code hcode he other hother
      omega
    next => rfl

theorem exists_clause_eq_ok_iff : (∃ ls, clause roots codes = .ok ls) ↔
    checkRoots roots codes = .ok () ∧
      ∀ code ∈ codes, 1 ≤ code.natAbs ∧ code.natAbs ≤ Variable.maxIndex := by
  simp only [clause_eq_ok_iff, exists_and_left, Literal.exists_map_toDimacs_iff]

theorem answer_annotated (cs : List (List Int)) (root : RootAnnotation) :
    (annotated cs root ()).answer =
      match Variable.ofIndex? root.var with
      | none => .error ⟨"a root variable cannot be 0"⟩
      | some v => .ok (record v (root.name.getD s!"root {root.var}")) := by
  unfold annotated
  cases Variable.ofIndex? root.var with
  | none => rfl
  | some v =>
      dsimp only
      split <;> rfl

theorem exists_annotated_eq_ok_iff {cs : List (List Int)} {root : RootAnnotation} :
    (∃ r, (annotated cs root ()).answer = .ok r) ↔ 1 ≤ root.var ∧ root.var ≤ Variable.maxIndex := by
  rw [answer_annotated]
  cases hv : Variable.ofIndex? root.var with
  | none =>
      refine iff_of_false (fun ⟨_, hr⟩ => nomatch hr) fun ⟨hone, hmax⟩ => ?_
      rw [Variable.ofIndex?_of_le hone hmax] at hv
      cases hv
  | some v =>
      have hindex := Variable.ofIndex?_eq_some_iff.mp hv
      exact iff_of_true ⟨_, rfl⟩ (hindex ▸ ⟨v.one_le, v.le_max⟩)

theorem answer_translate_annotated (hroots : content.roots ≠ []) :
    (translate content ()).answer = (do
      let clauses ← content.clauses.mapM (clause content.roots)
      let records ← content.roots.mapM fun root => (annotated content.clauses root ()).answer
      return ⟨⟨content.numVariables, clauses⟩, .filled content.numVariables records⟩) := by
  unfold translate
  simp only [List.isEmpty_iff, if_neg hroots, answer_bind, answer_mapM]
  rfl

theorem exists_translate_iff (hroots : content.roots ≠ []) :
    (∃ tr, (translate content ()).answer = .ok tr) ↔
      content.RootsLargest ∧ content.Representable := by
  have hclauses : (∃ clauses, content.clauses.mapM (clause content.roots) = .ok clauses) ↔
      content.RootsLargest ∧ ∀ codes ∈ content.clauses, ∀ code ∈ codes,
        1 ≤ code.natAbs ∧ code.natAbs ≤ Variable.maxIndex := by
    rw [exists_mapM_eq_ok]
    simp only [exists_clause_eq_ok_iff, checkRoots_eq_ok_iff, forall_and]
    rfl
  have hrecords : (∃ records, content.roots.mapM (fun root =>
      (annotated content.clauses root ()).answer) = .ok records) ↔
        ∀ root ∈ content.roots, 1 ≤ root.var ∧ root.var ≤ Variable.maxIndex := by
    simp only [exists_mapM_eq_ok, exists_annotated_eq_ok_iff]
  rw [answer_translate_annotated hroots]
  simp only [bind_eq_ok]
  constructor
  · rintro ⟨_, clauses, hc, records, hr, -⟩
    obtain ⟨hlargest, hcodes⟩ := hclauses.mp ⟨clauses, hc⟩
    exact ⟨hlargest, hcodes, hrecords.mp ⟨records, hr⟩⟩
  · rintro ⟨hlargest, hcodes, hvars⟩
    obtain ⟨clauses, hc⟩ := hclauses.mpr ⟨hlargest, hcodes⟩
    obtain ⟨records, hr⟩ := hrecords.mpr hvars
    exact ⟨_, clauses, hc, records, hr, rfl⟩

/-! ### What they select -/

/-- The clauses of a translation are those of the instance. -/
theorem clauses_of_translate (hroots : content.roots ≠ [])
    (h : (translate content ()).answer = .ok tr) :
    tr.cnf.clauses.map (·.map (·.toDimacs)) = content.clauses := by
  cases encodes_of_translate h with
  | guarded hnone => exact absurd hnone hroots
  | annotated _ hcodes => exact hcodes

/-- A root occurs in the input clauses only as their largest variable. -/
theorem largestOnly_root (hlargest : content.RootsLargest)
    (hcodes : tr.cnf.clauses.map (·.map (·.toDimacs)) = content.clauses) {t : Trace}
    (ht : t.IsFrom tr.cnf) {root : RootAnnotation} (hroot : root ∈ content.roots) {v : Variable}
    (hv : v.index = root.var) : t.LargestOnly v.index := by
  refine Reduction.largestOnly_of_isFrom ht fun ls hls l hl hlv k hk => ?_
  have hmem : ls.map (·.toDimacs) ∈ content.clauses := hcodes ▸ List.mem_map_of_mem hls
  have hle := hlargest _ hmem root hroot l.toDimacs (List.mem_map_of_mem hl)
    (by rw [l.natAbs_toDimacs, hlv, hv]) k.toDimacs (List.mem_map_of_mem hk)
  rwa [k.natAbs_toDimacs, ← hv] at hle

/-- **Roots are independent.**  An annotated instance is translated exactly if its roots are the
largest variables of their clauses and all numbers are those of variables.  The clauses are then
those of the instance, and whatever is selected from a trace of some of them without a root does not
mention the root. -/
theorem roots_independent (hroots : content.roots ≠ []) :
    ((∃ tr, (translate content ()).answer = .ok tr) ↔
      content.RootsLargest ∧ content.Representable) ∧
    ∀ tr, (translate content ()).answer = .ok tr →
      tr.cnf.clauses.map (·.map (·.toDimacs)) = content.clauses ∧
      ∀ t : Trace, t.WellFormed → t.IsFrom tr.cnf → ∀ root ∈ content.roots,
        ∀ wanted : VariableSet, root.var ∉ wanted →
          ∀ i ∈ t.axiomsFor wanted, ∀ c, t.get? i = some c → root.var ∉ c.variableNumbers := by
  refine ⟨exists_translate_iff hroots, fun tr htr => ?_⟩
  have hcodes := clauses_of_translate hroots htr
  obtain ⟨hlargest, hrep⟩ := (exists_translate_iff hroots).mp ⟨tr, htr⟩
  refine ⟨hcodes, fun t ht hfrom root hroot wanted hwanted i hi c hc => ?_⟩
  obtain ⟨hone, hmax⟩ := hrep.roots root hroot
  have honly : t.LargestOnly root.var :=
    largestOnly_root hlargest hcodes hfrom hroot (v := ⟨root.var, hone, hmax⟩) rfl
  exact Trace.not_mem_variableNumbers_of_mem_axiomsFor ht honly hwanted hi hc

/-- Two roots, of which the larger one leads to a clause over variables of both. -/
def helpers : AnnotatedCnf :=
  ⟨5, [[2], [-2, 1], [5], [-5, 4], [4, -3], [-4, -1]], [⟨2, none⟩, ⟨5, none⟩]⟩

/-- A refutation of these clauses but one. -/
def helpersRefuted : Trace :=
  let clause (codes : List Int) : Clause := .ofList (codes.filterMap Literal.ofDimacs?)
  ⟨#[⟨0, clause [2], []⟩, ⟨1, clause [-2, 1], []⟩, ⟨2, clause [5], []⟩, ⟨3, clause [-5, 4], []⟩,
    ⟨4, clause [-4, -1], []⟩, ⟨5, clause [1], [1, 0]⟩, ⟨6, clause [4], [3, 2]⟩,
    ⟨7, clause [-1], [4, 6]⟩, ⟨8, .empty, [7, 5]⟩], 5⟩

/-- The larger root selects the clause with the variable of the other root, and not that root.  A
clause with the smaller root below the larger one is refused. -/
theorem roots_independent_helpers :
    (∃ tr, (translate helpers ()).answer = .ok tr ∧ helpersRefuted.IsFrom tr.cnf) ∧
      helpersRefuted.axiomsFor (.ofList [5]) = .ofList [2, 3, 4] ∧
      (∀ i ∈ helpersRefuted.axiomsFor (.ofList [5]), ∀ c, helpersRefuted.get? i = some c →
        2 ∉ c.variableNumbers) ∧
      ¬ ∃ tr, (translate { helpers with clauses := [[2, 5]] } ()).answer = .ok tr := by
  obtain ⟨tr, htr, hfrom⟩ : ∃ tr, (translate helpers ()).answer = .ok tr ∧
      helpersRefuted.IsFrom tr.cnf :=
    ⟨_, rfl, by unfold Trace.IsFrom; decide⟩
  have hroots : helpers.roots ≠ [] := by decide
  refine ⟨⟨tr, htr, hfrom⟩, by cbv, ?_, fun hother => ?_⟩
  · exact ((roots_independent hroots).2 tr htr).2 helpersRefuted (by decide) hfrom ⟨2, none⟩
      (by decide) (.ofList [5]) (by decide)
  · have hlargest := ((roots_independent (by decide)).1.mp hother).1
    have hle := hlargest [2, 5] (by decide) ⟨2, none⟩ (by decide) 2 (by decide) rfl 5 (by decide)
    exact absurd hle (by decide)

end Encoding

end Dimacs

end ModelFinder
